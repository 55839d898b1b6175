import ScriptBench.Proofs.Literal.Shortest

/-! Script numbers written and read in words of 64 bits.

The form of a number is written digit by digit from a word that is shifted right, and read by
shifting every byte to its place; the sign is a bit that is masked. Here each step is an
operation on words that gives nothing where its result would not fit. Both directions always
give what `encode` and `decode?` give, so that no step overflows. -/
namespace ScriptBench.Word64

/-! ### Arithmetic that is refused when it overflows -/

/-- A word without a sign. -/
def unsigned? (n : Nat) : Option Nat := if n < 2 ^ 64 then some n else none

/-- A word with a sign. -/
def signed? (n : Int) : Option Int := if Number.inWord64 n then some n else none

def byte? (n : Nat) : Option UInt8 := if n < 2 ^ 8 then some (UInt8.ofNat n) else none

def sub? (m n : Nat) : Option Nat := if n ≤ m then some (m - n) else none

/-- A shift by less than the width, which loses no bit. -/
def shiftLeft? (x k : Nat) : Option Nat := if k < 64 then unsigned? (x <<< k) else none

def shiftRight? (x k : Nat) : Option Nat := if k < 64 then some (x >>> k) else none

/-! ### Writing -/

theorem lt_of_shiftRight? {m rest : Nat} (hm : m ≠ 0) (h : shiftRight? m 8 = some rest) :
    rest < m := by
  obtain rfl : m >>> 8 = rest := Option.some.inj h
  rw [Nat.shiftRight_eq_div_pow]
  omega

/-- The digits of a magnitude, shifted out one by one. -/
def digits? (m : Nat) : Option Bytes :=
  if _hm : m = 0 then some []
  else
    match _hrest : shiftRight? m 8 with
    | none => none
    | some rest => do
      let b ← byte? (m &&& 0xff)
      let digits ← digits? rest
      some (b :: digits)
termination_by m
decreasing_by exact lt_of_shiftRight? ‹_› ‹_›

/-- Marks the sign in the last byte, or in one more when its top bit is taken. -/
def sign? (negative : Bool) (b : Bytes) : Option Bytes := do
  let last ← sub? b.length 1
  let x ← b[last]?
  if x &&& 0x80 ≠ 0 then some (b ++ [if negative then 0x80 else 0])
  else some (if negative then b.set last (x ||| 0x80) else b)

def encode? (n : Int) : Option Bytes :=
  if n = 0 then some []
  else do
    let magnitude ← unsigned? n.natAbs
    let digits ← digits? magnitude
    sign? (decide (n < 0)) digits

/-! ### Reading -/

/-- Adds the bytes to a word, from place `i` on. -/
def gather? (i word : Nat) : Bytes → Option Nat
  | [] => some word
  | b :: rest => do
    let place ← unsigned? (8 * i)
    let digit ← shiftLeft? b.toNat place
    gather? (i + 1) (word ||| digit) rest

/-- The number in a word whose sign is the bit of `mask`. -/
def unmask? (word mask : Nat) : Option Int :=
  if word &&& mask ≠ 0 then do
    let magnitude ← signed? (word &&& (2 ^ 64 - 1 - mask) : Nat)
    signed? (-magnitude)
  else signed? word

/-- What is read, if anything is; nothing at all where a step overflows. -/
def decode? (limit : Nat) (b : Bytes) : Option (Option Int) :=
  if b.isEmpty then some (some 0)
  else if limit < b.length ∨ 8 < b.length then some none
  else do
    let word ← gather? 0 0 b
    let last ← sub? b.length 1
    let place ← unsigned? (8 * last)
    let mask ← shiftLeft? 0x80 place
    some <$> unmask? word mask

/-! ### No step overflows -/

theorem digits?_eq (m : Nat) : digits? m = some (Number.magnitude m) := by
  induction m using Number.magnitude.induct with
  | case1 => rw [digits?, Number.magnitude, dif_pos rfl, if_pos rfl]
  | case2 m hm ih =>
    have hbyte : byte? (m &&& 0xff) = some (UInt8.ofNat m) := by
      have hmod : m &&& 0xff = m % 256 := Nat.and_two_pow_sub_one_eq_mod m 8
      have hlow : UInt8.ofNat (m % 256) = UInt8.ofNat m := by
        rw [← UInt8.toNat_inj, UInt8.toNat_ofNat', UInt8.toNat_ofNat', Nat.mod_mod]
      rw [hmod, byte?, if_pos (Nat.mod_lt m (Nat.two_pow_pos 8)), hlow]
    have hshift : shiftRight? m 8 = some (m / 256) :=
      congrArg some (Nat.shiftRight_eq_div_pow m 8)
    rw [digits?, Number.magnitude, dif_neg hm, if_neg hm]
    split
    · rename_i hnone
      rw [hshift] at hnone
      cases hnone
    · rename_i rest hrest
      rw [hshift] at hrest
      obtain rfl := Option.some.inj hrest
      simp only [hbyte, ih, Option.bind_eq_bind, Option.bind_some]

theorem sign_concat (negative : Bool) (b : Bytes) (x : UInt8) :
    Number.sign negative (b ++ [x]) =
      if x.toNat < 128 then b ++ [if negative then x ||| 0x80 else x]
      else b ++ [x, if negative then 0x80 else 0] := by
  induction b with
  | nil => rfl
  | cons y rest ih =>
    rw [List.cons_append, Number.sign, ih]
    · split <;> rfl
    · exact List.append_ne_nil_of_right_ne_nil _ (List.cons_ne_nil _ _)

theorem sign?_eq (negative : Bool) {b : Bytes} (h : b ≠ []) :
    sign? negative b = some (Number.sign negative b) := by
  obtain ⟨c, x, rfl⟩ := (List.eq_nil_or_concat b).resolve_left h
  rw [List.concat_eq_append, sign_concat]
  have hlast : sub? (c ++ [x]).length 1 = some c.length := by simp [sub?]
  have hx : (c ++ [x])[c.length]? = some x := by simp
  simp only [sign?, hlast, Option.bind_eq_bind, Option.bind_some, hx, ne_eq,
    Number.and_128_eq_zero_iff]
  by_cases hlow : x.toNat < 128
  · cases negative <;> simp [hlow]
  · cases negative <;> simp [hlow]

theorem encode?_eq {n : Int} (h : Number.inWord64 n = true) :
    encode? n = some (Number.encode n) := by
  unfold encode?
  split
  case isTrue hzero => rw [hzero, Number.encode_zero]
  case isFalse hn =>
    have hword : unsigned? n.natAbs = some n.natAbs := by
      rw [Number.inWord64_iff] at h
      exact if_pos (by omega)
    have hdigits := Number.magnitude_ne_nil (Int.natAbs_ne_zero.mpr hn)
    simp only [hword, Option.bind_eq_bind, Option.bind_some, digits?_eq]
    exact sign?_eq _ hdigits

theorem gather?_eq {b : Bytes} {i word : Nat} (hword : word < 2 ^ (8 * i))
    (hlength : i + b.length ≤ 8) :
    gather? i word b = some (word + 2 ^ (8 * i) * b.toNat) := by
  induction b generalizing i word with
  | nil => rfl
  | cons x rest ih =>
    rw [List.length_cons] at hlength
    have hx := x.toNat_lt
    have hplace : unsigned? (8 * i) = some (8 * i) := if_pos (by omega)
    have hstep : 2 ^ (8 * (i + 1)) = 2 ^ (8 * i) * 256 := by rw [Nat.mul_succ, Nat.pow_add]
    have hwidth : 2 ^ (8 * (i + 1)) ≤ 2 ^ 64 := Nat.pow_le_pow_right Nat.two_pos (by omega)
    have hmul : 2 ^ (8 * i) * (x.toNat + 1) ≤ 2 ^ (8 * i) * 256 := Nat.mul_le_mul_left _ hx
    have hdigit : shiftLeft? x.toNat (8 * i) = some (2 ^ (8 * i) * x.toNat) := by
      rw [shiftLeft?, if_pos (by omega), Nat.shiftLeft_eq, Nat.mul_comm, unsigned?, if_pos]
      rw [Nat.mul_succ] at hmul
      omega
    have hor : word ||| 2 ^ (8 * i) * x.toNat = word + 2 ^ (8 * i) * x.toNat := by
      rw [Nat.or_comm, ← Nat.two_pow_add_eq_or_of_lt hword, Nat.add_comm]
    have hnext : word + 2 ^ (8 * i) * x.toNat < 2 ^ (8 * (i + 1)) := by
      rw [Nat.mul_succ] at hmul
      omega
    have hrest := ih hnext (by omega)
    simp only [gather?, hplace, hdigit, Option.bind_eq_bind, Option.bind_some, hor, hrest,
      Bytes.toNat, hstep]
    congr 1
    ring

/-- The bit of the sign, and the bits below it. -/
theorem and_mask {w k : Nat} (hk : k < 64) (hw : w < 2 ^ (k + 1)) :
    (w &&& 2 ^ k ≠ 0 ↔ 2 ^ k ≤ w) ∧ w &&& (2 ^ 64 - 1 - 2 ^ k) = w % 2 ^ k := by
  have habove {i : Nat} (hi : k < i) : w.testBit i = false :=
    Nat.testBit_lt_two_pow (Nat.lt_of_lt_of_le hw (Nat.pow_le_pow_right Nat.two_pos hi))
  constructor
  · constructor
    · intro hne
      by_contra hlt
      refine hne (Nat.eq_of_testBit_eq fun i => ?_)
      have hbelow : w.testBit k = false := Nat.testBit_lt_two_pow (Nat.not_le.mp hlt)
      rw [Nat.testBit_and, Nat.testBit_two_pow, Nat.zero_testBit]
      by_cases hi : k = i
      · rw [← hi, hbelow, Bool.false_and]
      · rw [decide_eq_false hi, Bool.and_false]
    · intro hle hzero
      have hbit : (w &&& 2 ^ k).testBit k = true := by
        rw [Nat.testBit_and, Nat.testBit_two_pow,
          Nat.testBit_of_two_pow_le_and_two_pow_add_one_gt hle hw, decide_eq_true rfl]
        rfl
      rw [hzero, Nat.zero_testBit] at hbit
      cases hbit
  · have hmask : 2 ^ 64 - 1 - 2 ^ k = 2 ^ 64 - (2 ^ k + 1) := by omega
    apply Nat.eq_of_testBit_eq
    intro i
    rw [hmask, Nat.testBit_and, Nat.testBit_two_pow_sub_succ (Nat.pow_lt_pow_right Nat.one_lt_two hk),
      Nat.testBit_two_pow, Nat.testBit_mod_two_pow]
    rcases Nat.lt_trichotomy i k with hlt | rfl | hgt
    · simp [hlt, Nat.lt_trans hlt hk, (Nat.ne_of_lt hlt).symm]
    · simp
    · simp [habove hgt]

theorem unmask?_eq {b : Bytes} (hne : b ≠ []) (hlength : b.length ≤ 8) :
    unmask? b.toNat (2 ^ (8 * b.length - 1)) = some (Number.value b) := by
  have hpos := List.length_pos_iff.mpr hne
  have hlt := Bytes.toNat_lt_pow b
  have hsplit : 8 * b.length = 8 * b.length - 1 + 1 := by omega
  rw [hsplit] at hlt
  obtain ⟨hbit, hrest⟩ := and_mask (k := 8 * b.length - 1) (by omega) hlt
  have hwidth : 2 ^ (8 * b.length - 1) ≤ 2 ^ 63 := Nat.pow_le_pow_right Nat.two_pos (by omega)
  have hsigned {n : Int} (hlow : -2 ^ 63 ≤ n) (hhigh : n < 2 ^ 63) : signed? n = some n :=
    if_pos (Number.inWord64_iff.mpr ⟨hlow, hhigh⟩)
  rw [unmask?, hrest, Number.value, Nat.one_shiftLeft]
  rw [Nat.pow_succ] at hlt
  generalize 2 ^ (8 * b.length - 1) = p at hbit hwidth hlt ⊢
  by_cases htop : p ≤ b.toNat
  · have hmod : b.toNat % p = b.toNat - p := by
      rw [Nat.mod_eq_sub_mod htop, Nat.mod_eq_of_lt (by omega)]
    rw [if_pos (hbit.mpr htop), if_neg (by omega), hmod, hsigned (by omega) (by omega)]
    exact hsigned (by omega) (by omega)
  · rw [if_neg (mt hbit.mp htop), if_pos (by omega)]
    exact hsigned (by omega) (by omega)

/-- Reading never overflows, whatever the bytes and the limit. -/
theorem decode?_eq (limit : Nat) (b : Bytes) :
    decode? limit b = some (Number.decode? limit b) := by
  by_cases hempty : b = []
  · rw [hempty]
    exact congrArg some (if_pos ⟨Nat.zero_le _, Nat.zero_le _⟩).symm
  have hpos := List.length_pos_iff.mpr hempty
  rw [decode?, if_neg (by simpa using hempty), Number.decode?]
  by_cases hlong : limit < b.length ∨ 8 < b.length
  · rw [if_pos hlong, if_neg (by omega)]
  · have hgather : gather? 0 0 b = some b.toNat := by
      rw [gather?_eq (Nat.two_pow_pos _) (by omega), Nat.mul_zero, Nat.pow_zero, Nat.one_mul,
        Nat.zero_add]
    have hlast : sub? b.length 1 = some (b.length - 1) := if_pos hpos
    have hplace : unsigned? (8 * (b.length - 1)) = some (8 * (b.length - 1)) := if_pos (by omega)
    have hmask : shiftLeft? 0x80 (8 * (b.length - 1)) = some (2 ^ (8 * b.length - 1)) := by
      have hsplit : 8 * b.length - 1 = 7 + 8 * (b.length - 1) := by omega
      have hwidth : 2 ^ (8 * b.length - 1) < 2 ^ 64 :=
        Nat.pow_lt_pow_right Nat.one_lt_two (by omega)
      have hshift : 0x80 <<< (8 * (b.length - 1)) = 2 ^ (8 * b.length - 1) := by
        rw [Nat.shiftLeft_eq, hsplit, Nat.pow_add]
      rw [shiftLeft?, if_pos (by omega), hshift]
      exact if_pos hwidth
    rw [if_neg hlong, if_pos (by omega)]
    simp only [hgather, hlast, hplace, hmask, Option.bind_eq_bind, Option.bind_some,
      unmask?_eq hempty (by omega : b.length ≤ 8), Option.map_eq_map, Option.map_some]

end ScriptBench.Word64
