import Mathlib.Tactic.Ring
import ScriptBench.Proofs.Literal.ScriptNumber

/-! The shortest forms of numbers.

The form of a number has the least number of bytes that hold its magnitude below the sign
(`length_encode_le_iff`). So whatever bytes a number is read from, its own form is no longer
than they are, and it is those bytes just when they are minimal: when the last byte holds more
than the sign, or holds it because the byte before has its top bit taken. -/
namespace ScriptBench

theorem Bytes.toNat_concat (b : Bytes) (x : UInt8) :
    Bytes.toNat (b ++ [x]) = b.toNat + 2 ^ (8 * b.length) * x.toNat := by
  induction b with
  | nil => simp [Bytes.toNat]
  | cons y rest ih =>
    rw [List.cons_append, Bytes.toNat, Bytes.toNat, ih, List.length_cons, Nat.mul_add 8,
      Nat.pow_add]
    ring

theorem Bytes.toNat_lt_pow (b : Bytes) : b.toNat < 2 ^ (8 * b.length) := by
  have h := b.toNat_lt
  rwa [Nat.one_shiftLeft] at h

theorem littleEndian_toNat (b : Bytes) : littleEndian b.length b.toNat = b := by
  induction b with
  | nil => rfl
  | cons x rest ih =>
    have hx := x.toNat_lt
    have hdigit : UInt8.ofNat (x.toNat + 256 * Bytes.toNat rest) = x := by
      apply UInt8.toNat_inj.mp
      rw [UInt8.toNat_ofNat']
      omega
    have hrest : (x.toNat + 256 * Bytes.toNat rest) / 256 = Bytes.toNat rest := by omega
    rw [List.length_cons, littleEndian, Bytes.toNat, hdigit, hrest, ih]

namespace Number

/-! ### The least length -/

theorem topBit_eq (b : Bytes) : topBit b = 2 ^ (8 * b.length - 1) := Nat.one_shiftLeft _

/-- The last digit of a magnitude is not zero. -/
theorem pow_le_magnitude {n : Nat} (hn : n ≠ 0) : 2 ^ (8 * ((magnitude n).length - 1)) ≤ n := by
  induction n using magnitude.induct with
  | case1 => exact absurd rfl hn
  | case2 n hn' ih =>
    rw [magnitude, if_neg hn, List.length_cons, Nat.add_sub_cancel]
    by_cases hzero : n / 256 = 0
    · rw [hzero, magnitude, if_pos rfl]
      exact Nat.one_le_iff_ne_zero.mpr hn
    · have hpos := List.length_pos_iff.mpr (magnitude_ne_nil hzero)
      have hsplit : 8 * (magnitude (n / 256)).length = 8 * ((magnitude (n / 256)).length - 1) + 8 := by
        omega
      have hle := ih hzero
      rw [hsplit, Nat.pow_add]
      omega

/-- The sign takes a byte of its own only where the top bit is taken. -/
theorem length_sign_cases (negative : Bool) (b : Bytes) :
    (sign negative b).length = b.length ∨
      (sign negative b).length = b.length + 1 ∧ 2 ^ (8 * b.length - 1) ≤ b.toNat := by
  induction b using sign.induct with
  | case1 => exact .inl rfl
  | case2 x hx => exact .inl (by simp [sign, hx])
  | case3 x hx => exact .inr ⟨by simp [sign, hx], by simpa [Bytes.toNat] using hx⟩
  | case4 x rest hrest ih =>
    rw [sign]
    · refine ih.imp (congrArg (· + 1)) fun h => ⟨congrArg (· + 1) h.1, ?_⟩
      have hpos := List.length_pos_iff.mpr hrest
      have hsplit : 8 * (x :: rest).length - 1 = (8 * rest.length - 1) + 8 := by
        rw [List.length_cons]
        omega
      rw [hsplit, Nat.pow_add, Bytes.toNat]
      omega
    · exact hrest

/-- One byte less would not hold the magnitude. -/
theorem pow_le_natAbs {n : Int} (hn : n ≠ 0) :
    2 ^ (8 * ((encode n).length - 1) - 1) ≤ n.natAbs := by
  have hle := pow_le_magnitude (Int.natAbs_ne_zero.mpr hn)
  rcases length_sign_cases (decide (n < 0)) (magnitude n.natAbs) with h | ⟨h, htaken⟩
  · rw [encode, h]
    exact Nat.le_trans (Nat.pow_le_pow_right Nat.two_pos (Nat.sub_le _ 1)) hle
  · rw [toNat_magnitude] at htaken
    rwa [encode, h, Nat.add_sub_cancel]

theorem encode_zero : encode 0 = [] := by
  rw [encode, Int.natAbs_zero, magnitude, if_pos rfl, sign]

/-- The form of a number is as long as its magnitude and the sign need. -/
theorem length_encode_le_iff {n : Int} {k : Nat} :
    (encode n).length ≤ k ↔ n.natAbs < 2 ^ (8 * k - 1) := by
  constructor
  · intro h
    have hlt := natAbs_value_lt (encode n)
    rw [value_encode, topBit_eq] at hlt
    exact Nat.lt_of_lt_of_le hlt (Nat.pow_le_pow_right Nat.two_pos (by omega))
  · intro h
    by_contra hlong
    by_cases hn : n = 0
    · rw [hn, encode_zero] at hlong
      exact hlong (Nat.zero_le k)
    · have hpow : 2 ^ (8 * k - 1) ≤ 2 ^ (8 * ((encode n).length - 1) - 1) :=
        Nat.pow_le_pow_right Nat.two_pos (by omega)
      exact absurd h (Nat.not_lt.mpr (Nat.le_trans hpow (pow_le_natAbs hn)))

theorem decode?_encode (limit : Nat) (n : Int) :
    decode? limit (encode n) = if (encode n).length ≤ min limit 8 then some n else none := by
  rw [decode?, value_encode]
  simp only [Nat.le_min]

/-! ### Minimal forms -/

/-- Bytes that no shorter ones stand for: their last byte holds more than the sign, or the byte
before it has its top bit taken. -/
def IsMinimal (b : Bytes) : Prop :=
  b = [] ∨ (∃ x ∈ b.getLast?, x &&& 0x7f ≠ 0) ∨ ∃ x ∈ b.dropLast.getLast?, x &&& 0x80 ≠ 0

instance (b : Bytes) : Decidable (IsMinimal b) := inferInstanceAs (Decidable (_ ∨ _ ∨ _))

theorem isMinimal_concat {b : Bytes} {x : UInt8} :
    IsMinimal (b ++ [x]) ↔ x &&& 0x7f ≠ 0 ∨ ∃ y ∈ b.getLast?, y &&& 0x80 ≠ 0 := by
  simp [IsMinimal]

theorem toNat_and_127 (x : UInt8) : (x &&& 0x7f).toNat = x.toNat % 128 := by
  rw [UInt8.toNat_and]
  exact Nat.and_two_pow_sub_one_eq_mod x.toNat 7

theorem and_127_eq_zero_iff {x : UInt8} : x &&& 0x7f = 0 ↔ x.toNat % 128 = 0 := by
  rw [← UInt8.toNat_inj, toNat_and_127]
  rfl

theorem and_128_eq_zero_iff {x : UInt8} : x &&& 0x80 = 0 ↔ x.toNat < 128 := by
  have hall : ∀ n < 256, UInt8.ofNat n &&& 0x80 = 0 ↔ n < 128 := by decide +kernel
  have h := hall x.toNat x.toNat_lt
  rwa [UInt8.ofNat_toNat] at h

/-- The top bit of the last byte counts 128 times as much as the byte. -/
theorem two_pow_top_concat (b : Bytes) (x : UInt8) :
    2 ^ (8 * (b ++ [x]).length - 1) = 2 ^ (8 * b.length) * 128 := by
  have hsplit : 8 * (b ++ [x]).length - 1 = 8 * b.length + 7 := by
    rw [List.length_append, List.length_singleton]
    omega
  rw [hsplit, Nat.pow_add]

/-- The magnitude of what is read is that of the bytes without the sign. -/
theorem natAbs_value_concat (b : Bytes) (x : UInt8) :
    (value (b ++ [x])).natAbs = b.toNat + 2 ^ (8 * b.length) * (x.toNat % 128) := by
  have hb := b.toNat_lt_pow
  have hx := x.toNat_lt
  unfold value
  dsimp only
  rw [Nat.one_shiftLeft, two_pow_top_concat, Bytes.toNat_concat]
  generalize 2 ^ (8 * b.length) = p at hb ⊢
  rcases Nat.lt_or_ge x.toNat 128 with hlow | hhigh
  · have hle : p * (x.toNat + 1) ≤ p * 128 := Nat.mul_le_mul_left p hlow
    rw [Nat.mul_succ] at hle
    rw [if_pos (by omega), Nat.mod_eq_of_lt hlow]
    rfl
  · obtain ⟨y, hy⟩ := Nat.le.dest hhigh
    have hmod : x.toNat % 128 = y := by omega
    rw [hmod, ← hy, Nat.mul_add, if_neg (by omega), Int.natAbs_neg, Int.natAbs_natCast]
    omega

/-- Bytes reach their own sign just when the top bit of the last one is taken. -/
theorem toNat_lt_top_iff (b : Bytes) :
    b.toNat < 2 ^ (8 * b.length - 1) ↔ ¬∃ y ∈ b.getLast?, y &&& 0x80 ≠ 0 := by
  rcases List.eq_nil_or_concat b with rfl | ⟨c, y, rfl⟩
  · simp [Bytes.toNat]
  · rw [List.concat_eq_append]
    have hc := Bytes.toNat_lt_pow c
    have htop : (¬∃ z ∈ (c ++ [y]).getLast?, z &&& 0x80 ≠ 0) ↔ y.toNat < 128 := by
      simp [and_128_eq_zero_iff]
    rw [htop, two_pow_top_concat, Bytes.toNat_concat]
    generalize 2 ^ (8 * c.length) = p at hc ⊢
    constructor
    · intro h
      by_contra hy
      have hle : p * 128 ≤ p * y.toNat := Nat.mul_le_mul_left p (Nat.not_lt.mp hy)
      omega
    · intro h
      have hle : p * (y.toNat + 1) ≤ p * 128 := Nat.mul_le_mul_left p h
      rw [Nat.mul_succ] at hle
      omega

/-- The form of what is read from bytes is no longer than they are. -/
theorem length_encode_value_le (b : Bytes) : (encode (value b)).length ≤ b.length := by
  have hlt := natAbs_value_lt b
  rw [topBit_eq] at hlt
  exact length_encode_le_iff.mpr hlt

theorem length_encode_value_iff (b : Bytes) :
    (encode (value b)).length = b.length ↔ IsMinimal b := by
  rcases List.eq_nil_or_concat b with rfl | ⟨c, x, rfl⟩
  · have hempty : (encode (value [])).length = ([] : Bytes).length := congrArg _ encode_zero
    exact ⟨fun _ => .inl rfl, fun _ => hempty⟩
  rw [List.concat_eq_append]
  have hle := length_encode_value_le (c ++ [x])
  rw [List.length_append, List.length_singleton] at hle ⊢
  have hshort : (encode (value (c ++ [x]))).length = c.length + 1 ↔
      ¬(encode (value (c ++ [x]))).length ≤ c.length := by omega
  rw [hshort, length_encode_le_iff, natAbs_value_concat, isMinimal_concat]
  by_cases hx : x &&& 0x7f = 0
  · rw [and_127_eq_zero_iff.mp hx, Nat.mul_zero, Nat.add_zero, toNat_lt_top_iff, not_not]
    exact ⟨.inr, fun h => h.resolve_left (not_not.mpr hx)⟩
  · have hdigit : 0 < x.toNat % 128 := Nat.pos_of_ne_zero (mt and_127_eq_zero_iff.mpr hx)
    have hmul := Nat.mul_le_mul_left (2 ^ (8 * c.length)) hdigit
    have hpow : 2 ^ (8 * c.length - 1) ≤ 2 ^ (8 * c.length) :=
      Nat.pow_le_pow_right Nat.two_pos (Nat.sub_le _ 1)
    exact ⟨fun _ => .inl hx, fun _ => by omega⟩

/-- Bytes of one length differ in what they stand for, zero with a sign and without one apart. -/
theorem eq_of_value_eq {a b : Bytes} (hlength : a.length = b.length) (h : value a = value b)
    (hb : value b ≠ 0) : a = b := by
  have htoNat : a.toNat = b.toNat := by
    unfold value at h hb
    dsimp only at h hb
    rw [hlength] at h
    split at h <;> split at h <;> omega
  rw [← littleEndian_toNat a, ← littleEndian_toNat b, hlength, htoNat]

/-- The form of what is read from bytes is just these bytes when they are minimal. -/
theorem encode_value_eq_iff (b : Bytes) : encode (value b) = b ↔ IsMinimal b := by
  rw [← length_encode_value_iff]
  refine ⟨congrArg List.length, fun hlength => ?_⟩
  by_cases hzero : value b = 0
  · rw [hzero, encode_zero] at hlength ⊢
    exact (List.length_eq_zero_iff.mp hlength.symm).symm
  · exact eq_of_value_eq hlength (value_encode _) hzero

end Number

end ScriptBench
