import ScriptBench.Layout.Rect

/-! Areas whose ends are words, and what lies inside of them. -/
namespace ScriptBench

theorem word?_of_le {n : Nat} (h : n ≤ maxWord) : word? n = some n := if_pos h

theorem word?_of_lt {n : Nat} (h : maxWord < n) : word? n = none := if_neg (Nat.not_le_of_lt h)

theorem word?_eq_some_iff {m n : Nat} : word? n = some m ↔ n ≤ maxWord ∧ n = m := by
  unfold word?
  split
  · rename_i hn
    rw [Option.some.injEq, and_iff_right hn]
  · rename_i hn
    exact iff_of_false nofun fun h => hn h.1

theorem wordSub?_of_le {m n : Nat} (h : n ≤ m) : wordSub? m n = some (m - n) := if_pos h

theorem word_of_le {n : Nat} (h : n ≤ maxWord) : word n = n :=
  Nat.mod_eq_of_lt (Nat.lt_succ_of_le h)

namespace Rect

/-- The ends of a rectangle are words. -/
structure Fits (r : Rect) : Prop where
  right : r.x + r.width ≤ maxWord
  bottom : r.y + r.height ≤ maxWord

/-- A rectangle does not reach outside of an area. -/
structure Within (r area : Rect) : Prop where
  left : area.x ≤ r.x
  right : r.x + r.width ≤ area.x + area.width
  top : area.y ≤ r.y
  bottom : r.y + r.height ≤ area.y + area.height

variable {r area : Rect}

theorem Within.trans {r' : Rect} (h : r.Within r') (h' : r'.Within area) : r.Within area where
  left := Nat.le_trans h'.left h.left
  right := Nat.le_trans h.right h'.right
  top := Nat.le_trans h'.top h.top
  bottom := Nat.le_trans h.bottom h'.bottom

theorem Within.fits (h : r.Within area) (harea : area.Fits) : r.Fits where
  right := Nat.le_trans h.right harea.right
  bottom := Nat.le_trans h.bottom harea.bottom

theorem Fits.right_eq (h : r.Fits) : r.right = r.x + r.width := Nat.min_eq_left h.right

theorem Fits.bottom_eq (h : r.Fits) : r.bottom = r.y + r.height := Nat.min_eq_left h.bottom

theorem Fits.contains_iff (h : r.Fits) {p : Position} :
    r.contains p = true ↔
      (r.x ≤ p.x ∧ p.x < r.x + r.width) ∧ (r.y ≤ p.y ∧ p.y < r.y + r.height) := by
  simp [contains, h.right_eq, h.bottom_eq, and_assoc]

end Rect

end ScriptBench
