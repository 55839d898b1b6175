import ScriptBench.Digest.Block

/-! The RIPEMD-160 digest: two lines of eighty steps over each padded block of
sixty-four bytes, little-endian throughout. -/
namespace ScriptBench.Ripemd160

/-- The message word each step of the left line takes. -/
def leftWords : List Nat := [
  0, 1, 2, 3, 4, 5, 6, 7, 8, 9, 10, 11, 12, 13, 14, 15,
  7, 4, 13, 1, 10, 6, 15, 3, 12, 0, 9, 5, 2, 14, 11, 8,
  3, 10, 14, 4, 9, 15, 8, 1, 2, 7, 0, 6, 13, 11, 5, 12,
  1, 9, 11, 10, 0, 8, 12, 4, 13, 3, 7, 15, 14, 5, 6, 2,
  4, 0, 5, 9, 7, 12, 2, 10, 14, 1, 3, 8, 11, 6, 15, 13]

/-- The message word each step of the right line takes. -/
def rightWords : List Nat := [
  5, 14, 7, 0, 9, 2, 11, 4, 13, 6, 15, 8, 1, 10, 3, 12,
  6, 11, 3, 7, 0, 13, 5, 10, 14, 15, 8, 12, 4, 9, 1, 2,
  15, 5, 1, 3, 7, 14, 6, 9, 11, 8, 12, 2, 10, 0, 4, 13,
  8, 6, 4, 1, 3, 11, 15, 0, 5, 12, 2, 13, 9, 7, 10, 14,
  12, 15, 10, 4, 1, 5, 8, 7, 6, 2, 13, 14, 0, 3, 9, 11]

/-- How far each step of the left line rotates. -/
def leftShifts : List UInt32 := [
  11, 14, 15, 12, 5, 8, 7, 9, 11, 13, 14, 15, 6, 7, 9, 8,
  7, 6, 8, 13, 11, 9, 7, 15, 7, 12, 15, 9, 11, 7, 13, 12,
  11, 13, 6, 7, 14, 9, 13, 15, 14, 8, 13, 6, 5, 12, 7, 5,
  11, 12, 14, 15, 14, 15, 9, 8, 9, 14, 5, 6, 8, 6, 5, 12,
  9, 15, 5, 11, 6, 8, 13, 12, 5, 12, 13, 14, 11, 8, 5, 6]

/-- How far each step of the right line rotates. -/
def rightShifts : List UInt32 := [
  8, 9, 9, 11, 13, 15, 15, 5, 7, 7, 8, 11, 14, 14, 12, 6,
  9, 13, 15, 7, 12, 8, 9, 11, 7, 7, 12, 7, 6, 15, 13, 11,
  9, 7, 15, 11, 8, 6, 6, 14, 12, 13, 5, 14, 13, 13, 7, 5,
  15, 5, 8, 11, 14, 14, 6, 14, 6, 9, 12, 9, 12, 5, 15, 8,
  8, 5, 12, 9, 12, 5, 14, 6, 8, 13, 6, 5, 15, 13, 11, 11]

def leftConstants : List UInt32 := [0, 0x5a827999, 0x6ed9eba1, 0x8f1bbcdc, 0xa953fd4e]

def rightConstants : List UInt32 := [0x50a28be6, 0x5c4dd124, 0x6d703ef3, 0x7a6d76e9, 0]

/-- The five chaining words. -/
structure Chain where
  a : UInt32
  b : UInt32
  c : UInt32
  d : UInt32
  e : UInt32

def start : Chain := ⟨0x67452301, 0xefcdab89, 0x98badcfe, 0x10325476, 0xc3d2e1f0⟩

def rotateLeft (x k : UInt32) : UInt32 := (x <<< k) ||| (x >>> (32 - k))

/-- The boolean function of a group of sixteen steps. -/
def mix (group : Nat) (x y z : UInt32) : UInt32 :=
  match group with
  | 0 => x ^^^ y ^^^ z
  | 1 => (x &&& y) ||| ((~~~ x) &&& z)
  | 2 => (x ||| (~~~ y)) ^^^ z
  | 3 => (x &&& z) ||| (y &&& (~~~ z))
  | _ => x ^^^ (y ||| (~~~ z))

/-- One step with the boolean function of `group`, adding `word` and rotating by `shift`. -/
def step (group : Nat) (word shift : UInt32) (s : Chain) : Chain :=
  let t := rotateLeft (s.a + mix group s.b s.c s.d + word) shift + s.e
  ⟨s.e, t, s.b, rotateLeft s.c 10, s.d⟩

/-- Eighty steps; `group` turns a step's number into its boolean function. -/
def line (group : Nat → Nat) (words : List Nat) (shifts constants : List UInt32)
    (message : List UInt32) (s : Chain) : Chain :=
  ((List.range 80).zip (words.zip shifts)).foldl (fun s (i, word, shift) =>
    step (group i) (message.getD word 0 + constants.getD (i / 16) 0) shift s) s

def compress (s : Chain) (block : Bytes) : Chain :=
  let message := (Digest.quads block).map fun w => UInt32.ofNat (Bytes.toNat w)
  let l := line (fun i => i / 16) leftWords leftShifts leftConstants message s
  let r := line (fun i => 4 - i / 16) rightWords rightShifts rightConstants message s
  ⟨s.b + l.c + r.d, s.c + l.d + r.e, s.d + l.e + r.a, s.e + l.a + r.b, s.a + l.b + r.c⟩

def Chain.bytes (s : Chain) : Bytes :=
  [s.a, s.b, s.c, s.d, s.e].flatMap fun x => littleEndian 4 x.toNat

/-- The digest of a message, its length in bits written least significant first. -/
def digest (m : Bytes) : Bytes :=
  ((Digest.blocks m (littleEndian 8 (8 * m.length))).foldl compress start).bytes

theorem length_digest (m : Bytes) : (digest m).length = 20 := by
  simp [digest, Chain.bytes]

end ScriptBench.Ripemd160
