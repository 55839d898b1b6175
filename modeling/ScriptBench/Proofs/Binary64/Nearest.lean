import Mathlib.Algebra.Order.Field.Power
import Mathlib.Algebra.Order.Field.Rat
import Mathlib.Tactic.FieldSimp
import Mathlib.Tactic.Linarith
import Mathlib.Tactic.NormNum
import Mathlib.Tactic.Positivity
import Mathlib.Tactic.Ring
import ScriptBench.Binary64

/-! The nearest double, and that `nearest` finds it.

A double is an integer of 53 bits times a power of two; its significand has all of the 53
bits unless its exponent is the least one. The double nearest to a number is the one that no
other is nearer to it, and of two that are as near the one with the even significand.
Exponents have no upper bound here: what is beyond the largest double in the format is beyond
it here too.

Rounding to a multiple of the last bit gives that double (`IsRounded.isNearest_iff`): a finer
double lies below all numbers whose last bit is this one. -/
namespace ScriptBench.Binary64

/-! ### Doubles -/

/-- The significand and the exponent of a double. -/
structure IsSignificand (m e : Int) : Prop where
  lt : |m| < 2 ^ 53
  low : -1074 ≤ e
  full : 2 ^ 52 ≤ |m| ∨ e = -1074

/-- A number that a double holds. -/
def IsDouble (x : Rat) : Prop := ∃ m e : Int, IsSignificand m e ∧ m * 2 ^ e = x

/-- The double nearest to a number, of two the one with the even significand. -/
def IsNearest (v x : Rat) : Prop :=
  ∃ m e : Int, IsSignificand m e ∧ m * 2 ^ e = x ∧
    ∀ y, IsDouble y → |x - v| ≤ |y - v| ∧ (|x - v| = |y - v| → y = x ∨ Even m)

theorem IsSignificand.neg {m e : Int} (h : IsSignificand m e) : IsSignificand (-m) e :=
  ⟨by rw [abs_neg]; exact h.lt, h.low, by rw [abs_neg]; exact h.full⟩

theorem IsDouble.neg {x : Rat} (h : IsDouble x) : IsDouble (-x) := by
  obtain ⟨m, e, hm, rfl⟩ := h
  exact ⟨-m, e, hm.neg, by push_cast; ring⟩

theorem IsNearest.isDouble {v x : Rat} (h : IsNearest v x) : IsDouble x := by
  obtain ⟨m, e, hm, hx, -⟩ := h
  exact ⟨m, e, hm, hx⟩

theorem IsNearest.neg {v x : Rat} (h : IsNearest v x) : IsNearest (-v) (-x) := by
  obtain ⟨m, e, hm, hx, hnear⟩ := h
  refine ⟨-m, e, hm.neg, by rw [← hx]; push_cast; ring, fun y hy => ?_⟩
  have hdist (z : Rat) : |z - -v| = |-z - v| := by
    rw [← abs_neg]
    ring_nf
  obtain ⟨hle, htie⟩ := hnear (-y) hy.neg
  rw [hdist, hdist y, neg_neg]
  refine ⟨hle, fun heq => ?_⟩
  rcases htie heq with hyx | heven
  · exact .inl (neg_eq_iff_eq_neg.mp hyx)
  · exact .inr heven.neg

theorem isNearest_neg_iff {v x : Rat} : IsNearest (-v) (-x) ↔ IsNearest v x :=
  ⟨fun h => by simpa using h.neg, .neg⟩

/-- A double is nearest to itself. -/
theorem IsDouble.isNearest_iff {v x : Rat} (hv : IsDouble v) : IsNearest v x ↔ x = v := by
  constructor
  · rintro ⟨m, e, hm, hx, hnear⟩
    have hle := (hnear v hv).1
    rw [sub_self, abs_zero] at hle
    exact sub_eq_zero.mp (abs_eq_zero.mp (le_antisymm hle (abs_nonneg _)))
  · rintro rfl
    obtain ⟨m, e, hm, hx⟩ := hv
    refine ⟨m, e, hm, hx, fun y hy => ?_⟩
    rw [sub_self, abs_zero]
    exact ⟨abs_nonneg _, fun h => .inl (sub_eq_zero.mp (abs_eq_zero.mp h.symm))⟩

/-- Rounding does not cross a double. -/
theorem IsNearest.ge_of_isDouble {v x y : Rat} (h : IsNearest v x) (hy : IsDouble y)
    (hle : y ≤ v) : y ≤ x := by
  obtain ⟨m, e, hm, hx, hnear⟩ := h
  by_contra hlt
  have hdist := (hnear y hy).1
  rw [abs_of_nonpos (by linarith), abs_of_nonpos (by linarith)] at hdist
  linarith

theorem isDouble_zero : IsDouble 0 :=
  ⟨0, -1074, ⟨by norm_num, le_refl _, .inr rfl⟩, by norm_num⟩

theorem isDouble_two_pow_63 : IsDouble (2 ^ 63) :=
  ⟨2 ^ 52, 11, ⟨by norm_num, by norm_num, .inl (by norm_num)⟩, by norm_num⟩

/-- An integer of 53 bits is a double, shifted until all of the bits are used. -/
theorem isDouble_intCast {n : Int} (h : |n| < 2 ^ 53) : IsDouble n := by
  by_cases hzero : n = 0
  · rw [hzero, Int.cast_zero]
    exact isDouble_zero
  have hnat : n.natAbs < 2 ^ 53 := by
    rw [Int.abs_eq_natAbs] at h
    exact_mod_cast h
  have hlog : n.natAbs.log2 < 53 := (Nat.log2_lt (Int.natAbs_ne_zero.mpr hzero)).mpr hnat
  obtain ⟨k, hk⟩ := Nat.le.dest (Nat.le_of_lt_succ hlog)
  have habs : |n * 2 ^ k| = (n.natAbs * 2 ^ k : Nat) := by
    rw [abs_mul, Int.abs_eq_natAbs, abs_of_pos (by positivity : (0 : Int) < 2 ^ k)]
    push_cast
    rfl
  refine ⟨n * 2 ^ k, -k, ⟨?_, by omega, .inl ?_⟩, ?_⟩
  · have hlt : n.natAbs * 2 ^ k < 2 ^ (n.natAbs.log2 + 1) * 2 ^ k :=
      Nat.mul_lt_mul_of_pos_right Nat.lt_log2_self (Nat.two_pow_pos k)
    rw [← Nat.pow_add, Nat.add_right_comm, hk] at hlt
    rw [habs]
    exact_mod_cast hlt
  · have hle : 2 ^ n.natAbs.log2 * 2 ^ k ≤ n.natAbs * 2 ^ k :=
      Nat.mul_le_mul_right _ (Nat.log2_self_le (Int.natAbs_ne_zero.mpr hzero))
    rw [← Nat.pow_add, hk] at hle
    rw [habs]
    exact_mod_cast hle
  · rw [zpow_neg, zpow_natCast]
    push_cast
    field_simp

/-- What is at least `2 ^ 63` in size stays so. -/
theorem IsNearest.two_pow_63_le {v x : Rat} (h : IsNearest v x) (hv : 2 ^ 63 ≤ |v|) :
    2 ^ 63 ≤ |x| := by
  rcases le_abs'.mp hv with hneg | hpos
  · have hle := h.neg.ge_of_isDouble isDouble_two_pow_63 (by linarith)
    exact hle.trans (neg_le_abs x)
  · exact (h.ge_of_isDouble isDouble_two_pow_63 hpos).trans (le_abs_self x)

/-! ### Rounding to the last bit -/

/-- The multiple `r` of the last bit `2 ^ e` that a number without a sign is rounded to. -/
structure IsRounded (v : Rat) (e : Int) (r : Nat) : Prop where
  nonneg : 0 ≤ v
  low : -1074 ≤ e
  lt : v < 2 ^ 53 * 2 ^ e
  full : 2 ^ 52 * 2 ^ e ≤ v ∨ e = -1074
  near : |r * 2 ^ e - v| ≤ 2 ^ e / 2
  even : |r * 2 ^ e - v| = 2 ^ e / 2 → Even r

theorem two_zpow_pos (e : Int) : (0 : Rat) < 2 ^ e := zpow_pos (by norm_num) e

namespace IsRounded
variable {v : Rat} {e : Int} {r : Nat}

theorem le_pow (h : IsRounded v e r) : r ≤ 2 ^ 53 := by
  have hu := two_zpow_pos e
  have hnear := (abs_le.mp h.near).2
  have hlt := h.lt
  by_contra hr
  have hr : ((2 ^ 53 + 1 : Nat) : Rat) ≤ r := by exact_mod_cast not_le.mp hr
  have hmul := mul_le_mul_of_nonneg_right hr hu.le
  push_cast at hmul
  linarith

theorem pow_le (h : IsRounded v e r) : 2 ^ 52 ≤ r ∨ e = -1074 := by
  refine h.full.imp_left fun hfull => ?_
  have hu := two_zpow_pos e
  have hnear := (abs_le.mp h.near).1
  by_contra hr
  have hr : (r : Rat) + 1 ≤ 2 ^ 52 := by exact_mod_cast not_le.mp hr
  have hmul := mul_le_mul_of_nonneg_right hr hu.le
  linarith

/-- What is rounded up to 54 bits is the next power of two. -/
theorem exists_isSignificand (h : IsRounded v e r) :
    ∃ m e' : Int, IsSignificand m e' ∧ (m : Rat) * 2 ^ e' = r * 2 ^ e ∧ (Even r → Even m) := by
  rcases h.le_pow.lt_or_eq with hlt | rfl
  · refine ⟨r, e, ⟨?_, h.low, ?_⟩, rfl, fun heven => (Int.even_coe_nat r).mpr heven⟩
    · rw [Nat.abs_cast]
      exact_mod_cast hlt
    · rw [Nat.abs_cast]
      exact_mod_cast h.pow_le
  · refine ⟨2 ^ 52, e + 1, ⟨by norm_num, by linarith [h.low], .inl (by norm_num)⟩, ?_, fun _ => ?_⟩
    · rw [zpow_add₀ two_ne_zero]
      push_cast
      ring
    · exact ⟨2 ^ 51, by norm_num⟩

/-- No other multiple of the last bit is nearer, and only a neighbour is as near. -/
theorem multiple_farther (h : IsRounded v e r) {k : Int} (hk : k ≠ r) :
    |r * 2 ^ e - v| ≤ |k * 2 ^ e - v| ∧
      (|r * 2 ^ e - v| = |k * 2 ^ e - v| → Even r ∧ (k = r + 1 ∨ k = r - 1)) := by
  have hu := two_zpow_pos e
  have hnear := h.near
  obtain ⟨hlow, hhigh⟩ := abs_le.mp hnear
  rcases lt_or_gt_of_ne hk with hlt | hgt
  · have hkr : (k : Rat) + 1 ≤ r := by exact_mod_cast hlt
    have hmul := mul_le_mul_of_nonneg_right hkr hu.le
    have habs : |k * 2 ^ e - v| = v - k * 2 ^ e := by
      rw [abs_of_nonpos (by linarith)]
      ring
    rw [habs]
    refine ⟨by linarith, fun heq => ⟨h.even (by linarith), .inr ?_⟩⟩
    have hstep : (k : Rat) = r - 1 := mul_right_cancel₀ hu.ne' (by linarith)
    exact_mod_cast hstep
  · have hkr : (r : Rat) + 1 ≤ k := by exact_mod_cast hgt
    have hmul := mul_le_mul_of_nonneg_right hkr hu.le
    rw [abs_of_nonneg (by linarith : 0 ≤ k * 2 ^ e - v)]
    refine ⟨by linarith, fun heq => ⟨h.even (by linarith), .inl ?_⟩⟩
    have hstep : (k : Rat) = r + 1 := mul_right_cancel₀ hu.ne' (by linarith)
    exact_mod_cast hstep

/-- A double with a finer last bit is below the number, and below a multiple that is too. -/
theorem finer_farther (h : IsRounded v e r) {m e' : Int} (hm : IsSignificand m e') (he : e' < e) :
    |r * 2 ^ e - v| < |m * 2 ^ e' - v| := by
  have hu := two_zpow_pos e
  have hu' := two_zpow_pos e'
  have hfull : 2 ^ 52 * 2 ^ e ≤ v := h.full.resolve_right (by linarith [hm.low])
  have hhalf : (2 : Rat) * 2 ^ e' ≤ 2 ^ e := by
    rw [← zpow_one_add₀ two_ne_zero]
    exact zpow_le_zpow_right₀ one_le_two (by omega)
  have hmlt : (m : Rat) < 2 ^ 53 := by exact_mod_cast (abs_lt.mp hm.lt).2
  have hmul := mul_lt_mul_of_pos_right hmlt hu'
  have hle : |r * 2 ^ e - v| ≤ |((2 ^ 52 : Int) : Rat) * 2 ^ e - v| := by
    by_cases hr : (2 ^ 52 : Int) = r
    · rw [hr, Int.cast_natCast]
    · exact (h.multiple_farther hr).1
  have hbelow : |((2 ^ 52 : Int) : Rat) * 2 ^ e - v| = v - 2 ^ 52 * 2 ^ e := by
    push_cast
    rw [abs_of_nonpos (by linarith)]
    ring
  have hdist : |m * 2 ^ e' - v| = v - m * 2 ^ e' := by
    rw [abs_of_nonpos (by linarith)]
    ring
  rw [hbelow] at hle
  rw [hdist]
  linarith

/-- A double with a coarser last bit is a multiple of this one. -/
theorem coarser_multiple {m e' : Int} (he : e ≤ e') :
    ∃ k : Int, (m : Rat) * 2 ^ e' = k * 2 ^ e ∧ (Even k ∨ k = m) := by
  obtain ⟨d, rfl⟩ := Int.le.dest he
  refine ⟨m * 2 ^ d, ?_, ?_⟩
  · rw [zpow_add₀ two_ne_zero, zpow_natCast]
    push_cast
    ring
  · cases d with
    | zero => exact .inr (by simp)
    | succ d => exact .inl ⟨m * 2 ^ d, by ring⟩

/-- The rounded number is the nearest double, and the only one. -/
theorem isNearest_iff (h : IsRounded v e r) {x : Rat} : IsNearest v x ↔ x = r * 2 ^ e := by
  obtain ⟨m, e', hm, hvalue, heven⟩ := h.exists_isSignificand
  have hdouble : IsDouble (r * 2 ^ e) := ⟨m, e', hm, hvalue⟩
  constructor
  · rintro ⟨m, e', hm, rfl, hnear⟩
    obtain ⟨hle, htie⟩ := hnear _ hdouble
    by_cases he : e' < e
    · exact absurd hle (not_le.mpr (h.finer_farther hm he))
    obtain ⟨k, hk, hparity⟩ := coarser_multiple (m := m) (not_lt.mp he)
    by_cases hkr : k = r
    · rw [hk, hkr, Int.cast_natCast]
    -- Two multiples as near as each other are neighbours, and the even one has been chosen.
    rw [hk] at hle htie
    obtain ⟨hge, hneighbour⟩ := h.multiple_farther hkr
    have heq := le_antisymm hge hle
    obtain ⟨hr, hstep⟩ := hneighbour heq
    have hodd : ¬Even k := by
      obtain ⟨n, hn⟩ := hr
      rintro ⟨j, hj⟩
      omega
    rcases htie heq.symm with hsame | hmeven
    · rw [hk, hsame]
    · rcases hparity with hkeven | rfl
      · exact absurd hkeven hodd
      · exact absurd hmeven hodd
  · rintro rfl
    refine ⟨m, e', hm, hvalue, ?_⟩
    rintro _ ⟨n, f, hn, rfl⟩
    by_cases hf : f < e
    · have hlt := h.finer_farther hn hf
      exact ⟨hlt.le, fun heq => absurd heq hlt.ne⟩
    obtain ⟨k, hk, -⟩ := coarser_multiple (m := n) (not_lt.mp hf)
    rw [hk]
    by_cases hkr : k = r
    · rw [hkr, Int.cast_natCast]
      exact ⟨le_refl _, fun _ => .inl rfl⟩
    · obtain ⟨hle, htie⟩ := h.multiple_farther hkr
      exact ⟨hle, fun heq => .inr (heven (htie heq).1)⟩

end IsRounded

/-- What is at most half of the least double is rounded to zero. -/
theorem isNearest_tiny {v x : Rat} (hnonneg : 0 ≤ v) (hv : v ≤ 2 ^ (-1075 : Int)) :
    IsNearest v x ↔ x = 0 := by
  have hlast : (2 : Rat) ^ (-1074 : Int) = 2 * 2 ^ (-1075 : Int) := by
    rw [← zpow_one_add₀ two_ne_zero]
    norm_num
  have hpos := two_zpow_pos (-1075)
  have hround : IsRounded v (-1074) 0 := by
    refine ⟨hnonneg, le_refl _, by rw [hlast]; linarith, .inr rfl, ?_, fun _ => Even.zero⟩
    rw [hlast, Nat.cast_zero, zero_mul, zero_sub, abs_neg, abs_of_nonneg hnonneg]
    linarith
  rw [hround.isNearest_iff, Nat.cast_zero, zero_mul]

/-! ### Rounding quotients -/

theorem zpow_eq_div (k : Int) : (2 : Rat) ^ k = 2 ^ k.toNat / 2 ^ (-k).toNat := by
  have hsplit : k = k.toNat - (-k).toNat := by omega
  conv_lhs => rw [hsplit]
  rw [zpow_sub₀ two_ne_zero, zpow_natCast, zpow_natCast]

/-- Both sides of a quotient shifted, to move its point by `k` bits. -/
theorem shift_quotient (num den : Nat) (k : Int) :
    ((num <<< (-k).toNat : Nat) : Rat) / ((den <<< k.toNat : Nat) : Rat) * 2 ^ k = num / den := by
  rw [Nat.shiftLeft_eq, Nat.shiftLeft_eq, zpow_eq_div]
  push_cast
  field_simp

/-- What is left over decides: below a half, above it, or just a half. -/
theorem roundQuotient_near (num : Nat) {den : Nat} (hden : 0 < den) :
    |(roundQuotient num den : Rat) - num / den| ≤ 1 / 2 ∧
      (|(roundQuotient num den : Rat) - num / den| = 1 / 2 → Even (roundQuotient num den)) := by
  have hd : (0 : Rat) < den := by exact_mod_cast hden
  have hsplit : (num : Rat) / den = (num / den : Nat) + (num % den : Nat) / den := by
    have hdiv : ((den * (num / den) + num % den : Nat) : Rat) = num := by
      rw [Nat.div_add_mod]
    rw [← hdiv]
    push_cast
    field_simp
  have hnonneg : (0 : Rat) ≤ (num % den : Nat) / den := by positivity
  have hone : ((num % den : Nat) : Rat) / den < 1 := by
    rw [div_lt_one hd]
    exact_mod_cast Nat.mod_lt num hden
  rw [hsplit]
  unfold roundQuotient
  dsimp only
  split
  case isTrue hbelow =>
    have hhalf : ((num % den : Nat) : Rat) / den < 1 / 2 := by
      rw [div_lt_div_iff₀ hd two_pos]
      exact_mod_cast (by omega : num % den * 2 < 1 * den)
    rw [sub_add_cancel_left, abs_neg, abs_of_nonneg hnonneg]
    exact ⟨hhalf.le, fun heq => absurd heq hhalf.ne⟩
  case isFalse hbelow =>
    split
    case isTrue habove =>
      have hhalf : 1 / 2 < ((num % den : Nat) : Rat) / den := by
        rw [div_lt_div_iff₀ two_pos hd]
        exact_mod_cast (by omega : 1 * den < num % den * 2)
      rw [Nat.cast_add_one, add_sub_add_left_eq_sub, abs_of_pos (sub_pos.mpr hone)]
      exact ⟨by linarith, fun heq => by linarith⟩
    case isFalse habove =>
      have hhalf : ((num % den : Nat) : Rat) / den = 1 / 2 := by
        rw [div_eq_div_iff hd.ne' two_ne_zero]
        exact_mod_cast (by omega : num % den * 2 = 1 * den)
      have hparity : Even (num / den + num / den % 2) := ⟨(num / den + num / den % 2) / 2, by omega⟩
      rw [hhalf, Nat.cast_add, add_sub_add_left_eq_sub]
      refine ⟨?_, fun _ => hparity⟩
      rcases Nat.mod_two_eq_zero_or_one (num / den) with h | h <;> rw [h] <;> norm_num

/-- A quotient lies within a factor of two of what the lengths of its parts say. -/
theorem log2_quotient {num den : Nat} (hnum : 0 < num) (hden : 0 < den) :
    (2 : Rat) ^ ((num.log2 : Int) - den.log2 - 1) ≤ num / den ∧
      (num / den : Rat) < 2 ^ ((num.log2 : Int) - den.log2 + 1) := by
  have hd : (0 : Rat) < den := by exact_mod_cast hden
  have hnumle : (2 : Rat) ^ num.log2 ≤ num := by exact_mod_cast Nat.log2_self_le hnum.ne'
  have hnumlt : (num : Rat) < 2 ^ (num.log2 + 1) := by exact_mod_cast Nat.lt_log2_self
  have hdenle : (2 : Rat) ^ den.log2 ≤ den := by exact_mod_cast Nat.log2_self_le hden.ne'
  have hdenlt : (den : Rat) < 2 ^ (den.log2 + 1) := by exact_mod_cast Nat.lt_log2_self
  constructor
  · calc (2 : Rat) ^ ((num.log2 : Int) - den.log2 - 1)
        = 2 ^ num.log2 / 2 ^ (den.log2 + 1) := by
          rw [← zpow_natCast, ← zpow_natCast, ← zpow_sub₀ two_ne_zero]
          congr 1
          push_cast
          ring
      _ ≤ num / den := div_le_div₀ (by positivity) hnumle hd hdenlt.le
  · calc (num / den : Rat)
        < 2 ^ (num.log2 + 1) / 2 ^ den.log2 := div_lt_div₀ hnumlt hdenle (by positivity) (by positivity)
      _ = 2 ^ ((num.log2 : Int) - den.log2 + 1) := by
          rw [← zpow_natCast, ← zpow_natCast, ← zpow_sub₀ two_ne_zero]
          congr 1
          push_cast
          ring

theorem shift_lt_iff (num : Nat) {den : Nat} (hden : 0 < den) (k : Int) :
    num <<< (-k).toNat < den <<< k.toNat ↔ (num / den : Rat) < 2 ^ k := by
  have hpos : (0 : Rat) < (den <<< k.toNat : Nat) := by
    rw [Nat.shiftLeft_eq]
    exact_mod_cast Nat.mul_pos hden (Nat.two_pow_pos _)
  rw [← shift_quotient num den k, mul_lt_iff_lt_one_left (two_zpow_pos k), div_lt_one hpos]
  exact Nat.cast_lt.symm

/-- The number lies between two powers of two that its last bit gives. -/
theorem lastBit_spec {num den : Nat} (hnum : 0 < num) (hden : 0 < den) :
    -1074 ≤ lastBit num den ∧ (num / den : Rat) < 2 ^ 53 * 2 ^ lastBit num den ∧
      (2 ^ 52 * 2 ^ lastBit num den ≤ (num / den : Rat) ∨ lastBit num den = -1074) := by
  obtain ⟨hge, hlt⟩ := log2_quotient hnum hden
  have hshift (j : Nat) {k i : Int} (hi : j + k = i) : (2 : Rat) ^ j * 2 ^ k = 2 ^ i := by
    rw [← hi, zpow_add₀ two_ne_zero, zpow_natCast]
  set guess : Int := (num.log2 : Int) - den.log2 - 52 with hguess
  -- The guess is one too large when the quotient of the leading parts is below one.
  obtain ⟨low, hlow, hlowle, hltlow⟩ : ∃ low : Int, lastBit num den = max low (-1074) ∧
      2 ^ 52 * 2 ^ low ≤ (num / den : Rat) ∧ (num / den : Rat) < 2 ^ 53 * 2 ^ low := by
    by_cases hbelow : (num / den : Rat) < 2 ^ (guess + 52)
    · refine ⟨guess - 1, ?_, ?_, ?_⟩
      · unfold lastBit
        rw [← hguess]
        simp only [(shift_lt_iff num hden (guess + 52)).mpr hbelow, if_true]
      · rwa [hshift 52 (by omega : _ = (num.log2 : Int) - den.log2 - 1)]
      · rwa [hshift 53 (by omega : _ = guess + 52)]
    · refine ⟨guess, ?_, ?_, ?_⟩
      · unfold lastBit
        rw [← hguess]
        simp only [mt (shift_lt_iff num hden (guess + 52)).mp hbelow, if_false]
      · rw [hshift 52 (by omega : _ = guess + 52)]
        exact not_lt.mp hbelow
      · rwa [hshift 53 (by omega : _ = (num.log2 : Int) - den.log2 + 1)]
  rw [hlow]
  refine ⟨le_max_right _ _, hltlow.trans_le ?_, ?_⟩
  · exact mul_le_mul_of_nonneg_left
      (zpow_le_zpow_right₀ one_le_two (le_max_left _ _)) (by positivity)
  · rcases max_choice low (-1074) with h | h <;> rw [h]
    · exact .inl hlowle
    · exact .inr rfl

/-- What `nearest` gives is the number rounded to its last bit. -/
theorem isRounded_nearest {num den : Nat} (hnum : 0 < num) (hden : 0 < den) :
    IsRounded (num / den) (nearest num den).exponent (nearest num den).significand := by
  obtain ⟨hlow, hlt, hfull⟩ := lastBit_spec hnum hden
  have hu := two_zpow_pos (lastBit num den)
  have hpos : 0 < den <<< (lastBit num den).toNat := by
    rw [Nat.shiftLeft_eq]
    positivity
  obtain ⟨hnear, heven⟩ := roundQuotient_near (num <<< (-lastBit num den).toNat) hpos
  have hscale : |((nearest num den).significand : Rat) * 2 ^ (nearest num den).exponent - num / den| =
      |(roundQuotient (num <<< (-lastBit num den).toNat) (den <<< (lastBit num den).toNat) : Rat) -
        (num <<< (-lastBit num den).toNat : Nat) / (den <<< (lastBit num den).toNat : Nat)| *
          2 ^ lastBit num den := by
    rw [← shift_quotient num den (lastBit num den), ← abs_of_pos hu, ← abs_mul, abs_of_pos hu, sub_mul]
    rfl
  refine ⟨by positivity, hlow, hlt, hfull, ?_, fun heq => heven ?_⟩
  · rw [hscale]
    have hmul := mul_le_mul_of_nonneg_right hnear hu.le
    exact hmul.trans_eq (by ring_nf; rfl)
  · rw [hscale] at heq
    refine mul_right_cancel₀ hu.ne' (heq.trans ?_)
    change 2 ^ lastBit num den / 2 = 1 / 2 * 2 ^ lastBit num den
    ring

/-- A number is nearest to the quotient just when it is what `nearest` gives. -/
theorem isNearest_div_iff {num den : Nat} (hnum : 0 < num) (hden : 0 < den) {x : Rat} :
    IsNearest (num / den) x ↔
      x = (nearest num den).significand * 2 ^ (nearest num den).exponent :=
  (isRounded_nearest hnum hden).isNearest_iff

/-! ### Integers -/

theorem toNat?_eq_some_iff {x : Binary64} {n : Nat} :
    x.toNat? = some n ↔ (x.significand : Rat) * 2 ^ x.exponent = n := by
  have hpos : 0 < x.denominator := by
    rw [denominator, Nat.shiftLeft_eq]
    positivity
  have hd : (x.denominator : Rat) ≠ 0 := by exact_mod_cast hpos.ne'
  have hquotient : (x.significand : Rat) * 2 ^ x.exponent = x.numerator / x.denominator := by
    rw [zpow_eq_div, numerator, denominator, Nat.shiftLeft_eq, Nat.shiftLeft_eq]
    push_cast
    ring
  have hmultiple : (x.numerator : Rat) / x.denominator = n ↔ x.numerator = n * x.denominator := by
    rw [div_eq_iff hd]
    exact_mod_cast Iff.rfl
  rw [hquotient, hmultiple, toNat?, floor]
  constructor
  · intro h
    split at h
    case isFalse => cases h
    case isTrue hmod =>
      obtain rfl := Option.some.inj h
      exact (Nat.div_mul_cancel (Nat.dvd_of_mod_eq_zero hmod)).symm
  · intro h
    rw [h, if_pos (Nat.mul_mod_left _ _), Nat.mul_div_cancel _ hpos]

end ScriptBench.Binary64
