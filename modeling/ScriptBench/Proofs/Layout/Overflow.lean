import ScriptBench.Layout.TemplateArea
import ScriptBench.Proofs.Layout.EditorArea
import ScriptBench.Proofs.Layout.Reduced

/-! Where the words of the screen are too short.

A box in the middle of the screen and the cursors of an editor and of the template are computed in
words. They have a result as long as no computation leaves them: a length times a percentage for the
box, the column of the cursor for the others. A box is also reduced when it has more cells than a word counts, and it is
not in the middle then, because its place is that of the box that was meant. -/
namespace ScriptBench

namespace Rect

/-- Two margins are the same up to one cell. -/
def Level (m n : Nat) : Prop := m ≤ n + 1 ∧ n ≤ m + 1

/-- A box of so many percent of an area, inside of it and in its middle. -/
structure IsCentered (percentX percentY : Nat) (area box : Rect) : Prop where
  width : box.width = area.width * percentX / 100
  height : box.height = area.height * percentY / 100
  within : box.Within area
  across : Level (box.x - area.x) (area.x + area.width - (box.x + box.width))
  down : Level (box.y - area.y) (area.y + area.height - (box.y + box.height))

variable {area box : Rect} {percentX percentY : Nat}

theorem percent_le (length : Nat) {percent : Nat} (h : percent ≤ 100) :
    length * percent / 100 ≤ length := by
  have hmul : length * percent ≤ length * 100 := Nat.mul_le_mul_left length h
  omega

/-- The box when both products are words: the place of the box never leaves them. -/
theorem centered?_of_le (harea : area.Fits) (hx : percentX ≤ 100) (hy : percentY ≤ 100)
    (hwordX : area.width * percentX ≤ maxWord) (hwordY : area.height * percentY ≤ maxWord) :
    centered? percentX percentY area =
      some (ofSize (area.x + (area.width - area.width * percentX / 100) / 2)
        (area.y + (area.height - area.height * percentY / 100) / 2)
        (area.width * percentX / 100) (area.height * percentY / 100)) := by
  have hwidth := percent_le area.width hx
  have hheight := percent_le area.height hy
  have hright := harea.right
  have hbottom := harea.bottom
  have hplaceX := word?_of_le (n := area.x + (area.width - area.width * percentX / 100) / 2)
    (by omega)
  have hplaceY := word?_of_le (n := area.y + (area.height - area.height * percentY / 100) / 2)
    (by omega)
  rw [centered?, word?_of_le hwordX, word?_of_le hwordY]
  simp only [Option.bind_eq_bind, Option.bind_some, wordSub?_of_le hwidth,
    wordSub?_of_le hheight, hplaceX, hplaceY]

/-- The box is computed unless one of the products leaves the words. -/
theorem centered?_eq_none_iff (harea : area.Fits) (hx : percentX ≤ 100) (hy : percentY ≤ 100) :
    centered? percentX percentY area = none ↔
      maxWord < area.width * percentX ∨ maxWord < area.height * percentY := by
  by_cases hwordX : area.width * percentX ≤ maxWord
  · by_cases hwordY : area.height * percentY ≤ maxWord
    · rw [centered?_of_le harea hx hy hwordX hwordY]
      exact iff_of_false nofun fun h =>
        h.elim (Nat.not_lt_of_le hwordX) (Nat.not_lt_of_le hwordY)
    · have hbeyond := Nat.lt_of_not_le hwordY
      rw [centered?, word?_of_le hwordX, word?_of_lt hbeyond]
      exact iff_of_true rfl (.inr hbeyond)
  · have hbeyond := Nat.lt_of_not_le hwordX
    rw [centered?, word?_of_lt hbeyond]
    exact iff_of_true rfl (.inl hbeyond)

theorem le_of_centered? (harea : area.Fits) (hx : percentX ≤ 100) (hy : percentY ≤ 100)
    (h : centered? percentX percentY area = some box) :
    area.width * percentX ≤ maxWord ∧ area.height * percentY ≤ maxWord := by
  have hwords : ¬ (maxWord < area.width * percentX ∨ maxWord < area.height * percentY) := by
    rw [← centered?_eq_none_iff harea hx hy, h]
    exact Option.some_ne_none box
  exact ⟨Nat.le_of_not_lt fun hlt => hwords (.inl hlt),
    Nat.le_of_not_lt fun hlt => hwords (.inr hlt)⟩

/-- A box in the middle of an area lies inside of it, also when it is reduced. -/
theorem within_centered? (harea : area.Fits) (hx : percentX ≤ 100) (hy : percentY ≤ 100)
    (h : centered? percentX percentY area = some box) : box.Within area := by
  obtain ⟨hwordX, hwordY⟩ := le_of_centered? harea hx hy h
  have hwidth := percent_le area.width hx
  have hheight := percent_le area.height hy
  have hright := harea.right
  have hbottom := harea.bottom
  rw [centered?_of_le harea hx hy hwordX hwordY] at h
  have hsize := size_ofSize_le (area.x + (area.width - area.width * percentX / 100) / 2)
    (area.y + (area.height - area.height * percentY / 100) / 2)
    (w := area.width * percentX / 100) (h := area.height * percentY / 100) (by omega) (by omega)
  rw [Option.some.inj h] at hsize
  have hplace : box.x = area.x + (area.width - area.width * percentX / 100) / 2 ∧
      box.y = area.y + (area.height - area.height * percentY / 100) / 2 := by
    rw [← Option.some.inj h]
    exact ⟨rfl, rfl⟩
  exact ⟨by omega, by omega, by omega, by omega⟩

/-- The box in the middle is there just when the products are words and the box has no more cells
than a word counts. -/
theorem exists_isCentered_iff (harea : area.Fits) (hx : percentX ≤ 100) (hy : percentY ≤ 100) :
    (∃ box, centered? percentX percentY area = some box ∧
      IsCentered percentX percentY area box) ↔
      area.width * percentX ≤ maxWord ∧ area.height * percentY ≤ maxWord ∧
        area.width * percentX / 100 * (area.height * percentY / 100) ≤ maxWord := by
  have hwidth := percent_le area.width hx
  have hheight := percent_le area.height hy
  have hright := harea.right
  have hbottom := harea.bottom
  constructor
  · rintro ⟨box, hbox, hcentered⟩
    obtain ⟨hwordX, hwordY⟩ := le_of_centered? harea hx hy hbox
    have hcells := cells_ofSize (area.x + (area.width - area.width * percentX / 100) / 2)
      (area.y + (area.height - area.height * percentY / 100) / 2)
      (w := area.width * percentX / 100) (h := area.height * percentY / 100) (by omega) (by omega)
    rw [← Option.some.inj (hbox.symm.trans (centered?_of_le harea hx hy hwordX hwordY)),
      hcentered.width, hcentered.height] at hcells
    exact ⟨hwordX, hwordY, hcells⟩
  · rintro ⟨hwordX, hwordY, hcells⟩
    refine ⟨_, centered?_of_le harea hx hy hwordX hwordY, ?_⟩
    rw [ofSize, if_neg (Nat.not_lt_of_le hcells)]
    constructor
    · rfl
    · rfl
    · constructor <;> dsimp only <;> omega
    · constructor <;> dsimp only <;> omega
    · constructor <;> dsimp only <;> omega

end Rect

namespace TemplateArea

/-- The cursor is in view, but its place on the screen is no word. -/
structure Overflows (box : Rect) (b : TextBuffer) : Prop where
  notAbove : b.scroll ≤ b.row
  notBelow : b.row - b.scroll < textRows box
  place : maxWord < box.x + 1 + word b.column

theorem cursorPosition?_eq_none_iff {box : Rect} (hbox : box.Fits) (b : TextBuffer) :
    cursorPosition? box b = none ↔ Overflows box b := by
  have hbottom := hbox.bottom
  unfold cursorPosition?
  by_cases hhidden : b.row < b.scroll ∨ textRows box ≤ b.row - b.scroll
  · rw [if_pos hhidden]
    refine iff_of_false nofun fun h => ?_
    have habove := h.notAbove
    have hbelow := h.notBelow
    omega
  · have hrow : word? (box.y + 1 + (b.row - b.scroll)) = some (box.y + 1 + (b.row - b.scroll)) := by
      unfold textRows at hhidden
      exact word?_of_le (by omega)
    rw [if_neg hhidden, hrow]
    by_cases hplace : box.x + 1 + word b.column ≤ maxWord
    · rw [word?_of_le hplace]
      exact iff_of_false nofun fun h => absurd h.place (Nat.not_lt_of_le hplace)
    · rw [word?_of_lt (Nat.lt_of_not_le hplace)]
      exact iff_of_true rfl ⟨by omega, by omega, Nat.lt_of_not_le hplace⟩

end TemplateArea

namespace EditorArea
variable {area : Rect}

/-- **The geometry of the screen is right as far as words go:** a box is computed just when both
products are words, and it has its size and is in the middle just when it also has no more cells
than a word counts; the cursor is computed just when its column on the screen is a word, and it is
shown only to the left of the right border. -/
theorem geometry_inWords_iff (harea : area.Fits) {percentX percentY : Nat} (hx : percentX ≤ 100)
    (hy : percentY ≤ 100) (b : TextBuffer) :
    (Rect.centered? percentX percentY area = none ↔
      maxWord < area.width * percentX ∨ maxWord < area.height * percentY) ∧
    ((∃ box, Rect.centered? percentX percentY area = some box ∧
        Rect.IsCentered percentX percentY area box) ↔
      area.width * percentX ≤ maxWord ∧ area.height * percentY ≤ maxWord ∧
        area.width * percentX / 100 * (area.height * percentY / 100) ≤ maxWord) ∧
    (cursorPosition? area b = none ↔ Overflows area b) ∧
    ∀ p, cursorPosition? area b = some (some p) →
      area.x + 1 + gutter + b.column + 1 < area.x + area.width := by
  refine ⟨Rect.centered?_eq_none_iff harea hx hy, Rect.exists_isCentered_iff harea hx hy,
    cursorPosition?_eq_none_iff harea, fun p hp => ?_⟩
  obtain ⟨-, hx, hright, -⟩ := (cursorPosition?_eq_some_iff harea).mp hp
  rwa [hx] at hright

/-- On a screen of 80 columns and 24 rows all is right, with the cursor in the last column. -/
theorem geometry_inWords_smallScreen :
    let area : Rect := ⟨0, 0, 80, 24⟩
    let b := (TextBuffer.ofText (List.replicate 72 'a')).moveEnd
    area.Fits ∧ Rect.centered? 80 70 area = some ⟨8, 4, 64, 16⟩ ∧
    Rect.IsCentered 80 70 area ⟨8, 4, 64, 16⟩ ∧ ¬ Overflows area b ∧
    cursorPosition? area b = some (some ⟨78, 1⟩) ∧ area.x + 1 + gutter + b.column + 1 < 80 := by
  intro area b
  have harea : area.Fits := ⟨by decide, by decide⟩
  obtain ⟨-, hcentered, hcursor, hshown⟩ :=
    geometry_inWords_iff harea (by decide : 80 ≤ 100) (by decide : 70 ≤ 100) b
  have hbox : Rect.centered? 80 70 area = some ⟨8, 4, 64, 16⟩ := by decide +kernel
  have hplace : cursorPosition? area b = some (some ⟨78, 1⟩) := by decide +kernel
  obtain ⟨box, hfound, hmiddle⟩ := hcentered.mpr (by decide)
  obtain rfl := Option.some.inj (hfound.symm.trans hbox)
  have hwords : ¬ Overflows area b := fun h => nomatch hplace.symm.trans (hcursor.mpr h)
  exact ⟨harea, hbox, hmiddle, hwords, hplace, hshown _ hplace⟩

/-- On a screen of 1000 columns there is no box of the compiled program; one of more cells than a
word counts is not in the middle; and there is no place for a cursor beyond the last column. -/
theorem geometry_leavesWords :
    Rect.centered? 80 70 ⟨0, 0, 1000, 50⟩ = none ∧
    Rect.centered? 80 80 ⟨0, 0, 500, 400⟩ = some ⟨50, 40, 286, 228⟩ ∧
    ¬ Rect.IsCentered 80 80 ⟨0, 0, 500, 400⟩ ⟨50, 40, 286, 228⟩ ∧
    cursorPosition? ⟨65480, 0, 50, 24⟩
      (TextBuffer.ofText (List.replicate 50 'a')).moveEnd = none := by
  refine ⟨by decide +kernel, by decide +kernel, fun h => ?_, by decide +kernel⟩
  exact absurd h.width (by decide)

end EditorArea

end ScriptBench
