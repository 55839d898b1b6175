import Mathlib.Tactic.GCongr
import ScriptBench.Layout.Rect
import ScriptBench.Proofs.Binary64.Accuracy

/-! A rectangle that is reduced has at most as many cells as a word counts, and is in no direction
larger than the one that was meant.

Its rows come from a root and its columns from the rows, each of them in doubles. The proportions
are rounded once and used twice, so their error cancels, and what is left of the others is far less
than the cell that is missing to the next number of cells. -/
namespace ScriptBench.Rect

open Binary64

/-- The proportions of a rectangle with cells, as a double. -/
theorem ratio_bounds {w h : Nat} (hw : w ≤ maxWord) (hh : h ≤ maxWord) (hwpos : 0 < w)
    (hhpos : 0 < h) : ((ofNat w).div (ofNat h)).Accurate (w / h) ∧
      1 / 131070 ≤ ((ofNat w).div (ofNat h)).value ∧
      ((ofNat w).div (ofNat h)).value ≤ 131070 := by
  have hw0 : (1 : Rat) ≤ w := by exact_mod_cast hwpos
  have hh0 : (1 : Rat) ≤ h := by exact_mod_cast hhpos
  have hwm : (w : Rat) ≤ 65535 := by exact_mod_cast hw
  have hhm : (h : Rat) ≤ 65535 := by exact_mod_cast hh
  have hlow : 1 / 65535 ≤ (w / h : Rat) := div_le_div₀ (by linarith) hw0 (by linarith) hhm
  have hhigh : (w / h : Rat) ≤ 65535 / 1 := div_le_div₀ (by norm_num) hwm one_pos hh0
  have haccurate : ((ofNat w).div (ofNat h)).Accurate (w / h) := by
    have hdiv := accurate_div (x := ofNat w) (y := ofNat h)
    rw [value_ofNat, value_ofNat] at hdiv
    exact hdiv (by linarith) (by linarith) (normal_of_le (by linarith))
  have hhalf := haccurate.half_le (by linarith)
  have hle := haccurate.le
  exact ⟨haccurate, by linarith, by linarith⟩

/-- The rows of the largest rectangle of some proportions. -/
theorem rows_bounds {ratio : Binary64} (hlow : 1 / 131070 ≤ ratio.value)
    (hhigh : ratio.value ≤ 131070) :
    1 / 8 ≤ ((ofNat maxWord).div ratio).sqrt.value ∧
      ((ofNat maxWord).div ratio).sqrt.value ^ 2 * ratio.value ≤ 65535 * (1 + 1 / 2 ^ 50) := by
  have hpos : 0 < ratio.value := by linarith
  have hhalf : 1 / 2 ≤ 65535 / ratio.value := by
    rw [le_div_iff₀ hpos]
    linarith
  have hquotient : ((ofNat maxWord).div ratio).Accurate (65535 / ratio.value) := by
    have hdiv := accurate_div (x := ofNat maxWord) (y := ratio)
    rw [value_ofNat] at hdiv
    exact hdiv (by norm_num [maxWord]) hpos (normal_of_le (le_trans (by norm_num) hhalf))
  have hquarter := hquotient.half_le (by positivity)
  have hle := hquotient.le
  generalize (ofNat maxWord).div ratio = q at hquotient hquarter hle
  obtain ⟨v, hv, hsquare, hsqrt⟩ := accurate_sqrt (x := q) (by linarith)
  have hroot := hsqrt.half_le (by linarith)
  have hroot_le := hsqrt.le
  generalize q.sqrt.value = root at hroot hroot_le
  refine ⟨by linarith, ?_⟩
  calc root ^ 2 * ratio.value
      ≤ (v * (1 + 1 / 2 ^ 53)) ^ 2 * ratio.value := by
        refine mul_le_mul_of_nonneg_right ?_ hpos.le
        exact pow_le_pow_left₀ (by linarith) hroot_le 2
    _ = v ^ 2 * (1 + 1 / 2 ^ 53) ^ 2 * ratio.value := by rw [mul_pow]
    _ ≤ 65535 / ratio.value * (1 + 1 / 2 ^ 53) * (1 + 1 / 2 ^ 60) * (1 + 1 / 2 ^ 53) ^ 2 *
          ratio.value := by
        gcongr
        exact hsquare.trans (by gcongr)
    _ = 65535 * ((1 + 1 / 2 ^ 53) * (1 + 1 / 2 ^ 60) * (1 + 1 / 2 ^ 53) ^ 2) := by
        field_simp
    _ ≤ 65535 * (1 + 1 / 2 ^ 50) := by norm_num

/-- The columns, which are computed from the rows. -/
theorem accurate_columns {rows ratio : Binary64} (hrows : 1 / 8 ≤ rows.value)
    (hlow : 1 / 131070 ≤ ratio.value) :
    (rows.mul ratio).Accurate (rows.value * ratio.value) := by
  refine accurate_mul (by linarith) (by linarith) (normal_of_le ?_)
  calc (1 : Rat) / 2 ^ 20 ≤ 1 / 8 * (1 / 131070) := by norm_num
    _ ≤ rows.value * ratio.value := by gcongr

/-- A rectangle that is reduced has no more cells than a word counts. -/
theorem cells_largestLike {w h : Nat} (hw : w ≤ maxWord) (hh : h ≤ maxWord)
    (hwpos : 0 < w) (hhpos : 0 < h) : (largestLike w h).1 * (largestLike w h).2 ≤ maxWord := by
  obtain ⟨-, hlow, hhigh⟩ := ratio_bounds hw hh hwpos hhpos
  unfold largestLike
  generalize (ofNat w).div (ofNat h) = ratio at hlow hhigh
  obtain ⟨hrows, hcells⟩ := rows_bounds hlow hhigh
  dsimp only
  generalize ((ofNat maxWord).div ratio).sqrt = rows at hrows hcells
  have hproduct := accurate_columns hrows hlow
  have hlt : ((rows.mul ratio).floor * rows.floor : Rat) < 65536 := by
    calc ((rows.mul ratio).floor * rows.floor : Rat)
        ≤ (rows.mul ratio).value * rows.value :=
          mul_le_mul (floor_le _) (floor_le _) (Nat.cast_nonneg _) (value_nonneg _)
      _ ≤ rows.value * ratio.value * (1 + 1 / 2 ^ 53) * rows.value :=
          mul_le_mul_of_nonneg_right hproduct.le (value_nonneg _)
      _ = rows.value ^ 2 * ratio.value * (1 + 1 / 2 ^ 53) := by ring
      _ ≤ 65535 * (1 + 1 / 2 ^ 50) * (1 + 1 / 2 ^ 53) := by gcongr
      _ < 65536 := by norm_num
  exact Nat.le_of_lt_succ (by exact_mod_cast hlt)

/-- A rectangle of too many cells is made smaller, or as it is, in both directions. -/
theorem largestLike_le {w h : Nat} (hw : w ≤ maxWord) (hh : h ≤ maxWord)
    (hlarge : maxWord < w * h) : (largestLike w h).1 ≤ w ∧ (largestLike w h).2 ≤ h := by
  have hwpos : 0 < w := Nat.pos_of_lt_mul_right hlarge
  have hhpos : 0 < h := Nat.pos_of_lt_mul_left hlarge
  have hcells : (65536 : Rat) ≤ w * h := by exact_mod_cast hlarge
  have hw0 : (0 : Rat) < w := by exact_mod_cast hwpos
  have hh0 : (0 : Rat) < h := by exact_mod_cast hhpos
  obtain ⟨hratio, hlow, hhigh⟩ := ratio_bounds hw hh hwpos hhpos
  unfold largestLike
  generalize (ofNat w).div (ofNat h) = ratio at hratio hlow hhigh
  obtain ⟨hrows, hsquare⟩ := rows_bounds hlow hhigh
  dsimp only
  generalize ((ofNat maxWord).div ratio).sqrt = rows at hrows hsquare
  have hcolumns := accurate_columns hrows hlow
  -- Were a side larger, the square of the rows would be beyond its bound.
  have hheight : rows.value ≤ h := by
    by_contra hbeyond
    have hlt : (65535 : Rat) * (1 + 1 / 2 ^ 50) < rows.value ^ 2 * ratio.value :=
      calc (65535 : Rat) * (1 + 1 / 2 ^ 50)
        _ < 65536 * (1 - 1 / 2 ^ 53) := by norm_num
        _ ≤ w * h * (1 - 1 / 2 ^ 53) := mul_le_mul_of_nonneg_right hcells (by norm_num)
        _ = (h : Rat) ^ 2 * (w / h * (1 - 1 / 2 ^ 53)) := by field_simp
        _ ≤ rows.value ^ 2 * ratio.value := by
          have hpos : (0 : Rat) ≤ w / h * (1 - 1 / 2 ^ 53) :=
            mul_nonneg (by positivity) (by norm_num)
          gcongr
          · exact (not_le.mp hbeyond).le
          · exact hratio.ge
    exact absurd hsquare (not_le.mpr hlt)
  have hwidth : (rows.mul ratio).value ≤ w := by
    by_contra hbeyond
    have hlt : (w : Rat) ^ 2 < w * (65536 / h) :=
      calc (w : Rat) ^ 2 < (rows.mul ratio).value ^ 2 :=
            pow_lt_pow_left₀ (not_le.mp hbeyond) hw0.le two_ne_zero
        _ ≤ (rows.value * ratio.value * (1 + 1 / 2 ^ 53)) ^ 2 :=
          pow_le_pow_left₀ (value_nonneg _) hcolumns.le 2
        _ = rows.value ^ 2 * ratio.value * ratio.value * (1 + 1 / 2 ^ 53) ^ 2 := by ring
        _ ≤ 65535 * (1 + 1 / 2 ^ 50) * (w / h * (1 + 1 / 2 ^ 53)) * (1 + 1 / 2 ^ 53) ^ 2 := by
          gcongr
          exact hratio.le
        _ = w / h * (65535 * (1 + 1 / 2 ^ 50) * (1 + 1 / 2 ^ 53) ^ 3) := by ring
        _ ≤ w / h * 65536 := by
          gcongr
          norm_num
        _ = w * (65536 / h) := by ring
    have hmost : (65536 : Rat) / h ≤ w := (div_le_iff₀ hh0).mpr hcells
    have hle : (w : Rat) * (65536 / h) ≤ w ^ 2 := by
      rw [sq]
      gcongr
    exact absurd hle (not_le.mpr hlt)
  exact ⟨by exact_mod_cast (floor_le _).trans hwidth, by exact_mod_cast (floor_le _).trans hheight⟩

/-- A rectangle of a size has at most as many cells as a word counts. -/
theorem cells_ofSize (x y : Nat) {w h : Nat} (hw : w ≤ maxWord) (hh : h ≤ maxWord) :
    (ofSize x y w h).width * (ofSize x y w h).height ≤ maxWord := by
  unfold ofSize
  dsimp only
  split
  · rename_i hlarge
    exact cells_largestLike hw hh (Nat.pos_of_lt_mul_right hlarge) (Nat.pos_of_lt_mul_left hlarge)
  · exact Nat.le_of_not_lt ‹_›

/-- A rectangle of a size is no larger than that. -/
theorem size_ofSize_le (x y : Nat) {w h : Nat} (hw : w ≤ maxWord) (hh : h ≤ maxWord) :
    (ofSize x y w h).width ≤ w ∧ (ofSize x y w h).height ≤ h := by
  unfold ofSize
  dsimp only
  split
  · exact largestLike_le hw hh ‹_›
  · exact ⟨Nat.le_refl w, Nat.le_refl h⟩

end ScriptBench.Rect
