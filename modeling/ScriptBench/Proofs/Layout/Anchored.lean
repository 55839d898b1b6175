import ScriptBench.Proofs.Layout.Area
import ScriptBench.Proofs.Layout.Reduced

/-! Boxes at the cursor stay inside the panes and off the cursor's row.

A box is cut to the area that it is in and moved until it is inside of it. It stands below its
anchor where there is room for all of its rows, above the anchor where there is not, and it comes
to stand on the anchor's own row only where there is room for it on neither side. A box of more
cells than a word counts is reduced after it has got its place. It stays inside and off the row,
but it does not have its size then. -/
namespace ScriptBench.Rect

/-- A box next to its anchor: it lies inside an area, and leaves the row of the anchor free where
so many rows are free below it or above it. -/
structure AtAnchor (anchor : Position) (rows : Nat) (bounds box : Rect) : Prop where
  within : box.Within bounds
  clear : rows ≤ bounds.bottom - (anchor.y + 1) ∨ rows ≤ anchor.y - bounds.y →
    anchor.y < box.y ∨ box.y + box.height ≤ anchor.y

/-- A box has a size as far as an area has room for it. -/
structure IsCut (w h : Nat) (bounds box : Rect) : Prop where
  width : box.width = min w bounds.width
  height : box.height = min h bounds.height

variable {bounds box : Rect} {anchor : Position} {width height w h rows : Nat}

/-- A box that is made smaller where it stands. -/
theorem AtAnchor.shrink (hbox : AtAnchor anchor rows bounds box) (hw : w ≤ box.width)
    (hh : h ≤ box.height) : AtAnchor anchor rows bounds ⟨box.x, box.y, w, h⟩ where
  within := ⟨hbox.within.left, Nat.le_trans (Nat.add_le_add_left hw _) hbox.within.right,
    hbox.within.top, Nat.le_trans (Nat.add_le_add_left hh _) hbox.within.bottom⟩
  clear := fun hfree => (hbox.clear hfree).imp_right fun habove =>
    Nat.le_trans (Nat.add_le_add_left hh _) habove

/-- A box that is cut to an area has no more cells than the area. -/
theorem cells_cut_le {most : Nat} (hcells : bounds.width * bounds.height ≤ most) :
    min width bounds.width * min height bounds.height ≤ most :=
  Nat.le_trans (Nat.mul_le_mul (Nat.min_le_right ..) (Nat.min_le_right ..)) hcells

/-- The place of a box before it is reduced, for any anchor on a row of the area. -/
theorem exists_place (width : Nat) (htop : bounds.y ≤ anchor.y) (hbottom : anchor.y < bounds.bottom)
    (hroom : bounds.bottom + height ≤ maxWord) :
    ∃ x y, anchored? anchor width height bounds =
        some (ofSize x y (min width bounds.width) (min height bounds.height)) ∧
      AtAnchor anchor (min height bounds.height) bounds
        ⟨x, y, min width bounds.width, min height bounds.height⟩ := by
  have hbelow : min (anchor.y + 1) maxWord = anchor.y + 1 := by omega
  have hword : word? (anchor.y + 1 + min height bounds.height) =
      some (anchor.y + 1 + min height bounds.height) := word?_of_le (by omega)
  have hright : bounds.right ≤ bounds.x + bounds.width := Nat.min_le_left ..
  have hend : bounds.bottom ≤ bounds.y + bounds.height := Nat.min_le_left ..
  simp only [anchored?, hbelow, hword, Option.bind_eq_bind, Option.bind_some]
  refine ⟨_, _, rfl, ⟨?_, ?_, ?_, ?_⟩, ?_⟩
  · dsimp only
    omega
  · dsimp only
    omega
  · dsimp only
    split <;> omega
  · dsimp only
    split <;> omega
  · intro hfree
    dsimp only
    split <;> omega

/-- A box of few cells has its size. -/
theorem exists_anchored? (hcells : min width bounds.width * min height bounds.height ≤ maxWord)
    (htop : bounds.y ≤ anchor.y) (hbottom : anchor.y < bounds.bottom)
    (hroom : bounds.bottom + height ≤ maxWord) :
    ∃ box, anchored? anchor width height bounds = some box ∧
      AtAnchor anchor (min height bounds.height) bounds box ∧ IsCut width height bounds box := by
  obtain ⟨x, y, hbox, hplace⟩ := exists_place width htop hbottom hroom
  rw [ofSize, if_neg (Nat.not_lt_of_le hcells)] at hbox
  exact ⟨_, hbox, hplace, rfl, rfl⟩

/-- **A box at the cursor lies inside its area and leaves the row of its anchor free** where its
rows fit below or above that row. It has its size, as far as there is room for it, just when these
are no more cells than a word counts. -/
theorem anchored_placed (hwidth : bounds.width ≤ maxWord) (hheight : bounds.height ≤ maxWord)
    (hanchor : bounds.contains anchor = true) (hroom : bounds.bottom + height ≤ maxWord) :
    ∃ box, anchored? anchor width height bounds = some box ∧
      AtAnchor anchor (min height bounds.height) bounds box ∧
      (IsCut width height bounds box ↔
        min width bounds.width * min height bounds.height ≤ maxWord) := by
  simp only [contains, Bool.and_eq_true, decide_eq_true_eq] at hanchor
  have hw : min width bounds.width ≤ maxWord := Nat.le_trans (Nat.min_le_right ..) hwidth
  have hh : min height bounds.height ≤ maxWord := Nat.le_trans (Nat.min_le_right ..) hheight
  obtain ⟨x, y, hbox, hplace⟩ := exists_place width hanchor.1.2 hanchor.2 hroom
  refine ⟨_, hbox, ?_, ?_⟩
  · have hsize := size_ofSize_le x y hw hh
    exact hplace.shrink hsize.1 hsize.2
  · constructor
    · intro hcut
      have hcells := cells_ofSize x y hw hh
      rwa [hcut.width, hcut.height] at hcells
    · intro hcells
      rw [ofSize, if_neg (Nat.not_lt_of_le hcells)]
      exact ⟨rfl, rfl⟩

/-- A box that does not fit below the row of its anchor is above it, and as far to the left as it
has to be. -/
theorem anchored_placed_above :
    let panes : Rect := ⟨0, 0, 80, 23⟩
    (panes.width ≤ maxWord ∧ panes.height ≤ maxWord) ∧ panes.contains ⟨70, 20⟩ = true ∧
    panes.bottom + 6 ≤ maxWord ∧ anchored? ⟨70, 20⟩ 20 6 panes = some ⟨60, 14, 20, 6⟩ ∧
    AtAnchor ⟨70, 20⟩ 6 panes ⟨60, 14, 20, 6⟩ ∧ IsCut 20 6 panes ⟨60, 14, 20, 6⟩ := by
  intro panes
  have hbox : anchored? ⟨70, 20⟩ 20 6 panes = some ⟨60, 14, 20, 6⟩ := by decide +kernel
  obtain ⟨box, hfound, hplace, hcut⟩ := @anchored_placed panes ⟨70, 20⟩ 20 6 (by decide)
    (by decide) rfl (by decide)
  obtain rfl := Option.some.inj (hbox.symm.trans hfound)
  exact ⟨⟨by decide, by decide⟩, rfl, by decide, hbox, hplace, hcut.mpr (by decide)⟩

/-- A box that is as large as its area is reduced where the area has more cells than a word
counts. -/
theorem anchored_reduced :
    let screen : Rect := ⟨0, 0, 500, 400⟩
    screen.contains ⟨0, 0⟩ = true ∧ screen.bottom + 400 ≤ maxWord ∧
    anchored? ⟨0, 0⟩ 500 400 screen = some ⟨0, 0, 286, 228⟩ ∧
    ¬ IsCut 500 400 screen ⟨0, 0, 286, 228⟩ := by
  refine ⟨rfl, by decide, by decide +kernel, fun h => ?_⟩
  exact absurd h.width (by decide)

end ScriptBench.Rect
