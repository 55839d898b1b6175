import Mathlib.Data.Nat.Cast.Order.Field
import ScriptBench.Proofs.Binary64.Nearest

/-! How far an operation on doubles is from its exact result.

Above the least exponent a result is wrong by at most one part in `2 ^ 53` of it. A root is cut
before it is rounded, which adds less than one part in `2 ^ 60`. -/
namespace ScriptBench.Binary64

/-- The number that a double is. -/
def value (x : Binary64) : Rat := x.numerator / x.denominator

/-- A double is as near to a number as its bits allow, when it has all of them. -/
def Accurate (x : Binary64) (v : Rat) : Prop := |x.value - v| ≤ v / 2 ^ 53

variable {x y : Binary64}

theorem value_nonneg (x : Binary64) : 0 ≤ x.value := by
  unfold value
  positivity

theorem denominator_pos (x : Binary64) : 0 < x.denominator := by
  rw [denominator, Nat.shiftLeft_eq]
  positivity

theorem numerator_pos (h : 0 < x.value) : 0 < x.numerator := by
  refine Nat.pos_of_ne_zero fun hzero => h.ne' ?_
  rw [value, hzero, Nat.cast_zero, zero_div]

theorem value_eq (x : Binary64) : x.value = x.significand * 2 ^ x.exponent := by
  rw [zpow_eq_div, value, numerator, denominator, Nat.shiftLeft_eq, Nat.shiftLeft_eq]
  push_cast
  ring

theorem value_ofNat (n : Nat) : (ofNat n).value = n := by
  rw [value_eq, ofNat, zpow_zero, mul_one]

theorem floor_le (x : Binary64) : (x.floor : Rat) ≤ x.value := Nat.cast_div_le

theorem Accurate.le {v : Rat} (h : x.Accurate v) : x.value ≤ v * (1 + 1 / 2 ^ 53) := by
  have hnear := (abs_le.mp h).2
  linarith

theorem Accurate.ge {v : Rat} (h : x.Accurate v) : v * (1 - 1 / 2 ^ 53) ≤ x.value := by
  have hnear := (abs_le.mp h).1
  linarith

theorem Accurate.half_le {v : Rat} (h : x.Accurate v) (hv : 0 ≤ v) : v / 2 ≤ x.value := by
  have hnear := (abs_le.mp h).1
  linarith

theorem normal_of_le {v : Rat} (h : 1 / 2 ^ 20 ≤ v) : (2 : Rat) ^ (-1022 : Int) ≤ v := by
  refine le_trans (zpow_le_zpow_right₀ one_le_two (by norm_num : (-1022 : Int) ≤ -20)) ?_
  rwa [zpow_neg, ← one_div]

/-- A number that is not tiny is rounded to one of all bits. -/
theorem accurate_nearest {num den : Nat} (hnum : 0 < num) (hden : 0 < den)
    (hnormal : (2 : Rat) ^ (-1022 : Int) ≤ num / den) :
    (nearest num den).Accurate (num / den) := by
  have hround := isRounded_nearest hnum hden
  have hunit : (2 : Rat) ^ (nearest num den).exponent ≤ num / den / 2 ^ 52 := by
    rw [le_div_iff₀' (by positivity)]
    obtain hfull | hleast := hround.full
    · exact hfull
    · rw [hleast]
      refine le_of_eq_of_le ?_ hnormal
      rw [← zpow_natCast, ← zpow_add₀ two_ne_zero]
      norm_num
  rw [Accurate, value_eq]
  calc |((nearest num den).significand : Rat) * 2 ^ (nearest num den).exponent - num / den|
      ≤ 2 ^ (nearest num den).exponent / 2 := hround.near
    _ ≤ num / den / 2 ^ 52 / 2 := by linarith
    _ = num / den / 2 ^ 53 := by ring

theorem accurate_mul (hx : 0 < x.value) (hy : 0 < y.value)
    (hnormal : (2 : Rat) ^ (-1022 : Int) ≤ x.value * y.value) :
    (x.mul y).Accurate (x.value * y.value) := by
  have hexact : x.value * y.value =
      (x.numerator * y.numerator : Nat) / (x.denominator * y.denominator : Nat) := by
    rw [value, value, div_mul_div_comm]
    push_cast
    rfl
  rw [hexact] at hnormal ⊢
  exact accurate_nearest (Nat.mul_pos (numerator_pos hx) (numerator_pos hy))
    (Nat.mul_pos x.denominator_pos y.denominator_pos) hnormal

theorem accurate_div (hx : 0 < x.value) (hy : 0 < y.value)
    (hnormal : (2 : Rat) ^ (-1022 : Int) ≤ x.value / y.value) :
    (x.div y).Accurate (x.value / y.value) := by
  have hexact : x.value / y.value =
      (x.numerator * y.denominator : Nat) / (x.denominator * y.numerator : Nat) := by
    rw [value, value, div_div_div_eq]
    push_cast
    rfl
  rw [hexact] at hnormal ⊢
  exact accurate_nearest (Nat.mul_pos (numerator_pos hx) y.denominator_pos)
    (Nat.mul_pos x.denominator_pos (numerator_pos hy)) hnormal

/-- The root of a large number, cut after a bit more than it has and that bit set when something is
lost. -/
theorem floorRoot_accurate {n : Nat} (hn : 2 ^ 128 ≤ n) {c : Nat}
    (hc : c = 2 * floorRoot n + if floorRoot n * floorRoot n = n then 0 else 1) :
    n ≤ c * c ∧ c * c * 2 ^ 60 ≤ 4 * n * (2 ^ 60 + 1) := by
  obtain ⟨hle, hlt⟩ := floorRoot_bounds n
  generalize floorRoot n = r at hle hlt hc
  have hlarge : 2 ^ 64 ≤ r := by
    by_contra hsmall
    have hsquare : (r + 1) * (r + 1) ≤ 2 ^ 64 * 2 ^ 64 :=
      Nat.mul_le_mul (by omega) (by omega)
    omega
  have hlow : 2 * r ≤ c := by omega
  have hhigh : c ≤ 2 * r + 1 := by
    rw [hc]
    split <;> omega
  constructor
  · calc n ≤ (r + 1) * (r + 1) := hlt.le
      _ ≤ c * c := Nat.mul_le_mul (by omega) (by omega)
  · have hrest : (4 * r + 1) * 2 ^ 60 ≤ 4 * (r * r) := by
      calc (4 * r + 1) * 2 ^ 60 ≤ 4 * (r * 2 ^ 64) := by omega
        _ ≤ 4 * (r * r) := Nat.mul_le_mul_left 4 (Nat.mul_le_mul_left r hlarge)
    calc c * c * 2 ^ 60 ≤ (2 * r + 1) * (2 * r + 1) * 2 ^ 60 :=
          Nat.mul_le_mul_right _ (Nat.mul_le_mul hhigh hhigh)
      _ = 4 * (r * r) * 2 ^ 60 + (4 * r + 1) * 2 ^ 60 := by ring
      _ ≤ 4 * n * 2 ^ 60 + 4 * n := by omega
      _ = 4 * n * (2 ^ 60 + 1) := by ring

/-- The same bounds for the quotient that the root stands for. -/
theorem square_quotient_bounds {a d c : Rat} (hd : 0 < d) (hlow : a * d * 2 ^ 128 ≤ c ^ 2)
    (hhigh : c ^ 2 * 2 ^ 60 ≤ 4 * (a * d * 2 ^ 128) * (2 ^ 60 + 1)) :
    a / d / 4 ≤ (c / (d * 2 ^ 65)) ^ 2 ∧ (c / (d * 2 ^ 65)) ^ 2 ≤ a / d * (1 + 1 / 2 ^ 60) := by
  have hscale : 0 < d ^ 2 * 2 ^ 130 := by positivity
  have hsquare : (c / (d * 2 ^ 65)) ^ 2 = c ^ 2 / (d ^ 2 * 2 ^ 130) := by
    rw [div_pow]
    ring
  rw [hsquare]
  constructor
  · rw [le_div_iff₀ hscale]
    calc a / d / 4 * (d ^ 2 * 2 ^ 130) = a * d * 2 ^ 128 := by
          field_simp
          ring
      _ ≤ c ^ 2 := hlow
  · rw [div_le_iff₀ hscale]
    calc c ^ 2 = c ^ 2 * 2 ^ 60 / 2 ^ 60 := by ring
      _ ≤ 4 * (a * d * 2 ^ 128) * (2 ^ 60 + 1) / 2 ^ 60 := by gcongr
      _ = a / d * (1 + 1 / 2 ^ 60) * (d ^ 2 * 2 ^ 130) := by
        field_simp
        ring

/-- A root is as near as its bits allow to a number whose square is that near to the double. -/
theorem accurate_sqrt (h : 1 / 4 ≤ x.value) : ∃ v : Rat, 1 / 4 ≤ v ∧
    v ^ 2 ≤ x.value * (1 + 1 / 2 ^ 60) ∧ x.sqrt.Accurate v := by
  have hnum := numerator_pos (lt_of_lt_of_le (by norm_num) h)
  have hden := x.denominator_pos
  have hlarge : 2 ^ 128 ≤ (x.numerator * x.denominator) <<< 128 := by
    rw [Nat.shiftLeft_eq]
    exact Nat.le_mul_of_pos_left _ (Nat.mul_pos hnum hden)
  obtain ⟨c, hc, hsqrt⟩ : ∃ c, c = 2 * floorRoot ((x.numerator * x.denominator) <<< 128) +
      (if floorRoot ((x.numerator * x.denominator) <<< 128) *
        floorRoot ((x.numerator * x.denominator) <<< 128) =
          (x.numerator * x.denominator) <<< 128 then 0 else 1) ∧
      x.sqrt = nearest c (x.denominator <<< 65) := ⟨_, rfl, rfl⟩
  obtain ⟨hlow, hhigh⟩ := floorRoot_accurate hlarge hc
  rw [Nat.shiftLeft_eq, ← pow_two] at hlow hhigh
  have hlow : (x.numerator * x.denominator * 2 ^ 128 : Rat) ≤ c ^ 2 := by exact_mod_cast hlow
  have hhigh : (c ^ 2 * 2 ^ 60 : Rat) ≤
      4 * (x.numerator * x.denominator * 2 ^ 128) * (2 ^ 60 + 1) := by exact_mod_cast hhigh
  obtain ⟨hge, hle⟩ := square_quotient_bounds (by exact_mod_cast hden) hlow hhigh
  have hquotient : (c : Rat) / (x.denominator <<< 65 : Nat) = c / (x.denominator * 2 ^ 65) := by
    rw [Nat.shiftLeft_eq]
    push_cast
    rfl
  rw [← hquotient, ← value] at hge hle
  generalize hv : (c : Rat) / (x.denominator <<< 65 : Nat) = v at hge hle
  have hnonneg : 0 ≤ v := hv ▸ div_nonneg (Nat.cast_nonneg _) (Nat.cast_nonneg _)
  have hquarter : 1 / 4 ≤ v := by
    refine (pow_le_pow_iff_left₀ (by norm_num) hnonneg two_ne_zero).mp (le_trans ?_ hge)
    linarith only [h]
  refine ⟨v, hquarter, hle, ?_⟩
  rw [hsqrt, ← hv]
  refine accurate_nearest ?_ ?_ ?_
  · refine Nat.pos_of_ne_zero fun hzero => ?_
    rw [hzero, Nat.cast_zero, zero_div] at hv
    linarith
  · rw [Nat.shiftLeft_eq]
    positivity
  · rw [hv]
    exact normal_of_le (by linarith)

end ScriptBench.Binary64
