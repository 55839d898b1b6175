import ScriptBench.Input
import ScriptBench.Proofs.Binary64.Nearest
import ScriptBench.Proofs.Decimal.Numeral
import ScriptBench.Proofs.Literal.ScriptNumber

/-! Which literals are read as the numbers that they write.

An integer without a point and an exponent is read exactly. Any other literal is rounded to
the nearest double first, and read as that when it is an integer below `2 ^ 63` in size. So
a literal is misread when no double holds its value and the double that it is rounded to is
an integer, or the value is one; and so is the least word of 64 bits. -/
namespace ScriptBench

namespace Decimal

/-! ### Rounding -/

theorem natCast_mul_zpow (c : Nat) (e : Int) :
    (c : Rat) * 10 ^ e = (c * 10 ^ e.toNat : Nat) / (10 ^ (-e).toNat : Nat) := by
  have hten : (10 : Rat) ≠ 0 := by norm_num
  have hsplit : e = e.toNat - (-e).toNat := by omega
  conv_lhs => rw [hsplit]
  rw [zpow_sub₀ hten, zpow_natCast, zpow_natCast]
  push_cast
  rw [mul_div_assoc]

/-- A number lies between the powers of ten that its first place gives. -/
theorem places_spec {c : Nat} (hc : c ≠ 0) (e : Int) :
    (10 : Rat) ^ (((Nat.toDigits 10 c).length : Int) + e - 1) ≤ c * 10 ^ e ∧
      c * 10 ^ e < (10 : Rat) ^ (((Nat.toDigits 10 c).length : Int) + e) := by
  have hten : (10 : Rat) ≠ 0 := by norm_num
  have hpow : (0 : Rat) < 10 ^ e := zpow_pos (by norm_num) e
  have hlength : 0 < (Nat.toDigits 10 c).length := Nat.length_toDigits_pos
  have hlt : c < 10 ^ (Nat.toDigits 10 c).length :=
    (Nat.length_toDigits_le_iff (by norm_num) hlength).mp (le_refl _)
  have hle : 10 ^ ((Nat.toDigits 10 c).length - 1) ≤ c := by
    by_cases hone : (Nat.toDigits 10 c).length = 1
    · rw [hone]
      exact Nat.one_le_iff_ne_zero.mpr hc
    · have hiff : (Nat.toDigits 10 c).length ≤ (Nat.toDigits 10 c).length - 1 ↔ _ :=
        Nat.length_toDigits_le_iff (by norm_num) (by omega)
      exact not_lt.mp (mt hiff.mpr (by omega))
  constructor
  · have hsplit : ((Nat.toDigits 10 c).length : Int) + e - 1 =
        ((Nat.toDigits 10 c).length - 1 : Nat) + e := by omega
    rw [hsplit, zpow_add₀ hten, zpow_natCast]
    exact mul_le_mul_of_nonneg_right (by exact_mod_cast hle) hpow.le
  · rw [zpow_add₀ hten, zpow_natCast]
    exact mul_lt_mul_of_pos_right (by exact_mod_cast hlt) hpow

/-- What starts after the 330th place is below half of the least double. -/
theorem value_tiny {c : Nat} {e : Int} (h : ((Nat.toDigits 10 c).length : Int) + e < -330) :
    (c : Rat) * 10 ^ e ≤ 2 ^ (-1075 : Int) := by
  by_cases hc : c = 0
  · rw [hc, Nat.cast_zero, zero_mul]
    positivity
  calc (c : Rat) * 10 ^ e
      ≤ 10 ^ (((Nat.toDigits 10 c).length : Int) + e) := (places_spec hc e).2.le
    _ ≤ 10 ^ (-331 : Int) := zpow_le_zpow_right₀ (by norm_num) (by omega)
    _ ≤ 10 ^ (-325 : Int) := zpow_le_zpow_right₀ (by norm_num) (by norm_num)
    _ = ((10 ^ 13) ^ 25)⁻¹ := by
      rw [← pow_mul, ← zpow_natCast, ← zpow_neg]
      rfl
    _ ≤ ((2 ^ 43) ^ 25)⁻¹ :=
      inv_anti₀ (by positivity) (pow_le_pow_left₀ (by norm_num) (by norm_num) 25)
    _ = 2 ^ (-1075 : Int) := by
      rw [← pow_mul, ← zpow_natCast, ← zpow_neg]
      rfl

/-- What starts beyond the twentieth place is beyond every word of 64 bits. -/
theorem value_large {c : Nat} {e : Int} (hc : c ≠ 0)
    (h : 20 < ((Nat.toDigits 10 c).length : Int) + e) : (2 : Rat) ^ 63 ≤ c * 10 ^ e := by
  calc (2 : Rat) ^ 63
      ≤ 10 ^ (20 : Int) := by norm_num
    _ ≤ 10 ^ (((Nat.toDigits 10 c).length : Int) + e - 1) :=
      zpow_le_zpow_right₀ (by norm_num) (by omega)
    _ ≤ c * 10 ^ e := (places_spec hc e).1

/-- The shortcuts for very large and very small numbers change nothing below `2 ^ 63`. -/
theorem nearestNatural?_eq_some_iff {c : Nat} {e : Int} {n : Nat} (hn : n < 2 ^ 63) :
    nearestNatural? c e = some n ↔ Binary64.IsNearest (c * 10 ^ e) n := by
  have hnonneg : (0 : Rat) ≤ c * 10 ^ e := by positivity
  unfold nearestNatural?
  dsimp only
  split
  case isTrue htiny =>
    have hle : (c : Rat) * 10 ^ e ≤ 2 ^ (-1075 : Int) := by
      rcases htiny with rfl | hplaces
      · rw [Nat.cast_zero, zero_mul]
        positivity
      · exact value_tiny hplaces
    rw [Binary64.isNearest_tiny hnonneg hle, Nat.cast_eq_zero, Option.some_inj]
    exact eq_comm
  case isFalse htiny =>
    obtain ⟨hc, -⟩ := not_or.mp htiny
    split
    case isTrue hlarge =>
      refine ⟨fun h => (nomatch h), fun h => ?_⟩
      have hcontra := h.ge_of_isDouble Binary64.isDouble_two_pow_63 (value_large hc hlarge)
      exact absurd hn (not_lt.mpr (by exact_mod_cast hcontra))
    case isFalse hlarge =>
      rw [natCast_mul_zpow, Binary64.toNat?_eq_some_iff, Binary64.isNearest_div_iff]
      · exact eq_comm
      · positivity
      · positivity

theorem nearestInteger?_eq_some_iff {d : Decimal} {n : Int} :
    nearestInteger? d = some n ↔ Binary64.IsNearest d.value n ∧ |n| < 2 ^ 63 := by
  have hbound (k : Nat) : k < 0x8000000000000000 ↔ |(k : Int)| < 2 ^ 63 := by
    rw [Nat.abs_cast]
    norm_cast
  -- Up to the sign, the integer is a natural number that the magnitude is rounded to.
  have hsigned : Binary64.IsNearest d.value n ↔
      ∃ k : Nat, Binary64.IsNearest (d.coefficient * 10 ^ d.exponent) k ∧
        (if d.negative then -(k : Int) else k) = n := by
    have hnonneg : (0 : Rat) ≤ d.coefficient * 10 ^ d.exponent := by positivity
    have hnatural (i : Int) : Binary64.IsNearest (d.coefficient * 10 ^ d.exponent) i ↔
        ∃ k : Nat, Binary64.IsNearest (d.coefficient * 10 ^ d.exponent) k ∧ (k : Int) = i := by
      constructor
      · intro h
        have hi := h.ge_of_isDouble Binary64.isDouble_zero hnonneg
        obtain ⟨k, rfl⟩ := Int.eq_ofNat_of_zero_le (by exact_mod_cast hi : 0 ≤ i)
        exact ⟨k, h, rfl⟩
      · rintro ⟨k, h, rfl⟩
        exact h
    unfold value
    cases d.negative with
    | false =>
      rw [if_neg Bool.false_ne_true, one_mul, hnatural]
      rfl
    | true =>
      rw [if_pos rfl, ← Binary64.isNearest_neg_iff]
      have hvalue : -(-1 * (d.coefficient : Rat) * 10 ^ d.exponent) =
          d.coefficient * 10 ^ d.exponent := by ring
      rw [hvalue, ← Int.cast_neg, hnatural]
      simp only [if_true, neg_eq_iff_eq_neg]
  rw [hsigned]
  unfold nearestInteger?
  constructor
  · intro h
    obtain ⟨k, hk, hn⟩ := Option.bind_eq_some_iff.mp h
    split at hn
    case isFalse => cases hn
    case isTrue hlt =>
      obtain rfl := Option.some.inj hn
      refine ⟨⟨k, (nearestNatural?_eq_some_iff hlt).mp hk, rfl⟩, ?_⟩
      have habs := (hbound k).mp hlt
      split
      · rwa [abs_neg]
      · exact habs
  · rintro ⟨⟨k, hk, rfl⟩, hlt⟩
    have hklt : k < 0x8000000000000000 := by
      rw [hbound]
      split at hlt
      · rwa [abs_neg] at hlt
      · exact hlt
    refine Option.bind_eq_some_iff.mpr ⟨k, (nearestNatural?_eq_some_iff hklt).mpr hk, ?_⟩
    rw [if_pos hklt]

end Decimal

namespace Input
open Decimal

/-! ### Exact literals -/

/-- A literal with a point or an exponent that is not read as the number it writes: the least
word of 64 bits, and a literal that no double holds when its value is a word or is rounded to
one. -/
def Misread (l : Numeral) : Prop :=
  ¬l.IsPlain ∧ (l.value = -2 ^ 63 ∨
    ¬Binary64.IsDouble l.value ∧
      ∃ n : Int, |n| < 2 ^ 63 ∧ (l.value = n ∨ Binary64.IsNearest l.value n))

theorem number?_text_of_isPlain {l : Numeral} (h : l.IsPlain) {n : Int} :
    number? l.text = some n ↔ l.value = n ∧ -2 ^ 63 ≤ n ∧ n < 2 ^ 63 := by
  obtain ⟨k, hk⟩ : ∃ k : Int, l.value = k := ⟨_, h.value_eq⟩
  have hinteger : integer? l.text = some k := integer?_eq_some_iff_isPlain.mpr ⟨l, rfl, h, hk⟩
  have hrange (i : Int) : Number.inWord64 i = true ↔ -2 ^ 63 ≤ i ∧ i < 2 ^ 63 := Number.inWord64_iff
  rw [hk, Int.cast_inj, number?, hinteger, ← hrange]
  by_cases hword : Number.inWord64 k = true
  · simp only [Option.filter_some, hword, if_true, Option.some_inj]
    exact ⟨fun hn => ⟨hn, hn ▸ hword⟩, And.left⟩
  · -- Outside of the words its double is too large as well.
    have hlarge : (2 : Rat) ^ 63 ≤ |l.value| := by
      rw [hrange] at hword
      have habs : 2 ^ 63 ≤ |k| := by
        rw [le_abs']
        omega
      rw [hk]
      exact_mod_cast habs
    simp only [Option.filter_some, hword, parse?_text, Option.bind_some]
    refine ⟨fun hn => ?_, fun hn => absurd (hn.1 ▸ hn.2) hword⟩
    obtain ⟨hnear, hlt⟩ := nearestInteger?_eq_some_iff.mp hn
    rw [value_decimal] at hnear
    have hle := hnear.two_pow_63_le hlarge
    exact absurd hlt (not_lt.mpr (by exact_mod_cast hle))

theorem number?_text_of_not_isPlain {l : Numeral} (h : ¬l.IsPlain) {n : Int} :
    number? l.text = some n ↔ Binary64.IsNearest l.value n ∧ |n| < 2 ^ 63 := by
  rw [number?, integer?_text_eq_none h, parse?_text, ← value_decimal]
  exact nearestInteger?_eq_some_iff

theorem exists_numeral_of_number? {t : Text} {n : Int} (h : number? t = some n) :
    ∃ l : Numeral, l.text = t := by
  unfold number? at h
  split at h
  case h_1 k hk =>
    obtain ⟨l, hl, -⟩ := integer?_eq_some_iff_isPlain.mp (Option.eq_some_of_filter_eq_some hk)
    exact ⟨l, hl⟩
  case h_2 =>
    obtain ⟨d, hd, -⟩ := Option.bind_eq_some_iff.mp h
    obtain ⟨l, hl, -⟩ := parse?_eq_some_iff.mp hd
    exact ⟨l, hl⟩

/-- Every number comes from a literal: from a plain one exactly, from another one by rounding. -/
theorem number?_eq_some_iff {t : Text} {n : Int} :
    number? t = some n ↔ ∃ l : Numeral, l.text = t ∧
      (l.IsPlain ∧ l.value = n ∧ -2 ^ 63 ≤ n ∧ n < 2 ^ 63 ∨
        ¬l.IsPlain ∧ Binary64.IsNearest l.value n ∧ |n| < 2 ^ 63) := by
  constructor
  · intro h
    obtain ⟨l, rfl⟩ := exists_numeral_of_number? h
    refine ⟨l, rfl, ?_⟩
    by_cases hplain : l.IsPlain
    · exact .inl ⟨hplain, (number?_text_of_isPlain hplain).mp h⟩
    · exact .inr ⟨hplain, (number?_text_of_not_isPlain hplain).mp h⟩
  · rintro ⟨l, rfl, ⟨hplain, h⟩ | ⟨hplain, h⟩⟩
    · exact (number?_text_of_isPlain hplain).mpr h
    · exact (number?_text_of_not_isPlain hplain).mpr h

/-- A literal whose value is an integer of 53 bits is read exactly, however it is written. -/
theorem number?_text_of_small {l : Numeral} {n : Int} (hvalue : l.value = n)
    (hn : |n| < 2 ^ 53) : number? l.text = some n := by
  obtain ⟨hlow, hhigh⟩ := abs_lt.mp hn
  by_cases hplain : l.IsPlain
  · exact (number?_text_of_isPlain hplain).mpr ⟨hvalue, by omega, by omega⟩
  · have hdouble := (Binary64.isDouble_intCast hn).isNearest_iff.mpr rfl
    rw [number?_text_of_not_isPlain hplain, hvalue]
    exact ⟨hdouble, by omega⟩

/-- A text stands for a number when it is a literal that is a plain integer of 64 bits, or one
whose nearest double is an integer below `2 ^ 63` in size. It stands for exactly the number
that it writes, and for none that is not a word of 64 bits, unless it is misread. -/
theorem literal_exact_iff (t : Text) :
    (∀ n : Int, number? t = some n ↔ ∃ l : Numeral, l.text = t ∧
      (l.IsPlain ∧ l.value = n ∧ -2 ^ 63 ≤ n ∧ n < 2 ^ 63 ∨
        ¬l.IsPlain ∧ Binary64.IsNearest l.value n ∧ |n| < 2 ^ 63)) ∧
    ((∀ n : Int, number? t = some n ↔
        ∃ l : Numeral, l.text = t ∧ l.value = n ∧ -2 ^ 63 ≤ n ∧ n < 2 ^ 63) ↔
      ∀ l : Numeral, l.text = t → ¬Misread l) := by
  refine ⟨fun n => number?_eq_some_iff, ?_, ?_⟩
  · rintro hexact l rfl ⟨hplain, hleast | ⟨hdouble, n, hlt, hn | hn⟩⟩
    · have hread := (hexact (-2 ^ 63)).mpr ⟨l, rfl, by rw [hleast]; norm_num, by norm_num⟩
      obtain ⟨-, hlt⟩ := (number?_text_of_not_isPlain hplain).mp hread
      exact absurd hlt (by norm_num)
    · obtain ⟨hlow, hhigh⟩ := abs_lt.mp hlt
      have hread := (hexact n).mpr ⟨l, rfl, hn, hlow.le, hhigh⟩
      obtain ⟨hnear, -⟩ := (number?_text_of_not_isPlain hplain).mp hread
      exact hdouble (hn ▸ hnear.isDouble)
    · have hread := (number?_text_of_not_isPlain hplain).mpr ⟨hn, hlt⟩
      obtain ⟨l', htext, hvalue, -⟩ := (hexact n).mp hread
      rw [← value_eq_of_text htext, hvalue] at hdouble
      exact hdouble hn.isDouble
  · intro hread n
    rw [number?_eq_some_iff]
    constructor
    · rintro ⟨l, rfl, ⟨-, h⟩ | ⟨hplain, hnear, hlt⟩⟩
      · exact ⟨l, rfl, h⟩
      · obtain ⟨hlow, hhigh⟩ := abs_lt.mp hlt
        by_cases hdouble : Binary64.IsDouble l.value
        · exact ⟨l, rfl, (hdouble.isNearest_iff.mp hnear).symm, hlow.le, hhigh⟩
        · exact absurd ⟨hplain, .inr ⟨hdouble, n, hlt, .inr hnear⟩⟩ (hread l rfl)
    · rintro ⟨l, rfl, hvalue, hlow, hhigh⟩
      refine ⟨l, rfl, ?_⟩
      by_cases hplain : l.IsPlain
      · exact .inl ⟨hplain, hvalue, hlow, hhigh⟩
      obtain ⟨hleast, hdouble⟩ := not_or.mp fun h => hread l rfl ⟨hplain, h⟩
      have hlt : |n| < 2 ^ 63 := by
        refine abs_lt.mpr ⟨lt_of_le_of_ne hlow fun heq => hleast ?_, hhigh⟩
        rw [hvalue, ← heq]
        norm_num
      have hheld : Binary64.IsDouble l.value :=
        not_not.mp fun h => hdouble ⟨h, n, hlt, .inl hvalue⟩
      exact .inr ⟨hplain, hheld.isNearest_iff.mpr hvalue.symm, hlt⟩

/-- The odd integer after `2 ^ 53` lies between two doubles. -/
theorem literal_between_doubles :
    ¬∀ n : Int, number? "9007199254740993.0".toList = some n ↔
      ∃ l : Numeral, l.text = "9007199254740993.0".toList ∧ l.value = n ∧
        -2 ^ 63 ≤ n ∧ n < 2 ^ 63 := by
  intro hexact
  have hdigits : natural? ("9007199254740993".toList ++ ['0']) = some 90071992547409930 := by
    decide +kernel
  obtain ⟨hnatural, -⟩ := natural?_eq_some_iff.mp hdigits
  let l : Numeral := ⟨.none, "9007199254740993".toList, some ['0'], none, hnatural⟩
  have hvalue : l.value = (9007199254740993 : Int) := by
    have hwhole : natural "9007199254740993".toList = 9007199254740993 := by decide +kernel
    have hplaces : natural ['0'] = 0 := by decide
    have hpower : l.power = 0 := rfl
    rw [Numeral.value, hpower]
    simp only [l, Numeral.places, Option.getD_some, hwhole, hplaces]
    norm_num [Sign.factor]
  have hread := (hexact 9007199254740993).mpr ⟨l, rfl, hvalue, by norm_num, by norm_num⟩
  have hrounded : number? "9007199254740993.0".toList = some 9007199254740992 := by
    decide +kernel
  rw [hrounded] at hread
  exact absurd hread (by decide)

end Input

end ScriptBench
