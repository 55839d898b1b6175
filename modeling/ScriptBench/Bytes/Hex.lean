import ScriptBench.Bytes

/-! Byte strings written as hexadecimal and binary digits.

Hexadecimal is written in lower case and read in either case; binary takes eight
digits a byte, most significant first. Both readers refuse a text that is not a
whole number of bytes. -/
namespace ScriptBench.Bytes

/-- The lower-case digit of a value below sixteen. -/
def hexDigit (n : Nat) : Char :=
  if n < 10 then Char.ofNat (48 + n) else Char.ofNat (87 + n)

/-- The value of a hexadecimal digit of either case. -/
def hexValue? (c : Char) : Option Nat :=
  if '0' ≤ c ∧ c ≤ '9' then some (c.toNat - 48)
  else if 'a' ≤ c ∧ c ≤ 'f' then some (c.toNat - 87)
  else if 'A' ≤ c ∧ c ≤ 'F' then some (c.toNat - 55)
  else none

def hexDigits (b : Bytes) : List Char :=
  b.flatMap fun x => [hexDigit (x.toNat / 16), hexDigit (x.toNat % 16)]

/-- The digits as a string, two a byte. -/
def hex (b : Bytes) : String := String.ofList b.hexDigits

def ofHex? : List Char → Option Bytes
  | [] => some []
  | [_] => none
  | hi :: lo :: rest => do
    let h ← hexValue? hi
    let l ← hexValue? lo
    let tail ← ofHex? rest
    return UInt8.ofNat (16 * h + l) :: tail

/-- One byte after `0x`. -/
def hexByte (x : UInt8) : String := "0x" ++ Bytes.hex [x]

/-- The eight binary digits of a byte, most significant first. -/
def bits (x : UInt8) : List Char :=
  [7, 6, 5, 4, 3, 2, 1, 0].map fun k => if x.toNat.testBit k then '1' else '0'

def binary (b : Bytes) : String := String.ofList (b.flatMap bits)

/-- Reads digits after those already read, whose value is `acc`. -/
def bitsValue? (acc : Nat) : List Char → Option Nat
  | [] => some acc
  | '0' :: rest => bitsValue? (2 * acc) rest
  | '1' :: rest => bitsValue? (2 * acc + 1) rest
  | _ => none

def ofBinary? : List Char → Option Bytes
  | [] => some []
  | a :: b :: c :: d :: e :: f :: g :: h :: rest => do
    let x ← bitsValue? 0 [a, b, c, d, e, f, g, h]
    let tail ← ofBinary? rest
    return UInt8.ofNat x :: tail
  | _ => none

/-- Digits in lower case, of a whole number of bytes. -/
structure IsLowerHex (t : List Char) : Prop where
  whole : t.length % 2 = 0
  lower : ∀ c ∈ t, ('0' ≤ c ∧ c ≤ '9') ∨ ('a' ≤ c ∧ c ≤ 'f')

theorem hexDigit_lower : ∀ n < 16,
    ('0' ≤ hexDigit n ∧ hexDigit n ≤ '9') ∨ ('a' ≤ hexDigit n ∧ hexDigit n ≤ 'f') := by decide

@[simp] theorem hexDigits_append (a b : Bytes) : hexDigits (a ++ b) = a.hexDigits ++ b.hexDigits :=
  List.flatMap_append

@[simp] theorem length_hexDigits (b : Bytes) : b.hexDigits.length = 2 * b.length := by
  induction b with
  | nil => rfl
  | cons x rest ih =>
    show (hexDigits rest).length + 1 + 1 = 2 * (rest.length + 1)
    omega

theorem isLowerHex_hexDigits (b : Bytes) : IsLowerHex b.hexDigits where
  whole := by
    rw [length_hexDigits]
    omega
  lower := by
    intro c hc
    obtain ⟨x, -, hx⟩ := List.mem_flatMap.mp hc
    have hbyte : x.toNat < 256 := x.toNat_lt
    simp only [List.mem_cons, List.not_mem_nil, or_false] at hx
    rcases hx with rfl | rfl
    · exact hexDigit_lower _ (by omega)
    · exact hexDigit_lower _ (by omega)

theorem hexValue?_hexDigit : ∀ n < 16, hexValue? (hexDigit n) = some n := by decide

theorem ofHex?_hexDigits (b : Bytes) : ofHex? b.hexDigits = some b := by
  induction b with
  | nil => rfl
  | cons x rest ih =>
    have hx : x.toNat < 256 := x.toNat_lt
    have hh := hexValue?_hexDigit (x.toNat / 16) (by omega)
    have hl := hexValue?_hexDigit (x.toNat % 16) (by omega)
    have hx' : UInt8.ofNat (16 * (x.toNat / 16) + x.toNat % 16) = x := by
      rw [Nat.div_add_mod, UInt8.ofNat_toNat]
    have hcons : hexDigits (x :: rest) =
        hexDigit (x.toNat / 16) :: hexDigit (x.toNat % 16) :: hexDigits rest := rfl
    rw [hcons, ofHex?, hh, hl, ih]
    simp only [Option.bind_eq_bind, Option.bind_some, hx']
    rfl

end ScriptBench.Bytes
