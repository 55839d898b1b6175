import ScriptBench.Layout.EditorArea
import ScriptBench.Proofs.Layout.Area
import ScriptBench.Proofs.TextBuffer.Movement

/-! The cursor on the screen, and the place in the text under a cell.

Both go through the same corner, the first cell of the text in view: the cursor is as far from it as
its row and its column say, and a cell is at the row and the column that its distance says. So they
undo each other inside the border and to the right of the line numbers, as long as the row and the
column exist, because the cursor goes to no other ones. -/
namespace ScriptBench

namespace TextBuffer
variable {b : TextBuffer} {row column : Nat}

/-- The cursor goes to a row and a column that exist. -/
theorem row_goto (hrow : row < b.lines.length) : (b.goto row column).row = row := by
  simp only [goto, place, TextBuffer.row, List.length_reverse, List.length_take]
  omega

theorem column_goto (hrow : row < b.lines.length)
    (hcolumn : column ≤ (b.lines.getD row []).length) : (b.goto row column).column = column := by
  have hmin : min row (b.lines.length - 1) = row := by omega
  simp only [goto, place, TextBuffer.column, hmin, List.length_take]
  omega

theorem scroll_goto : (b.goto row column).scroll = b.scroll := rfl

end TextBuffer

namespace EditorArea

/-- The cursor's row is one of those that an area has room for. -/
structure InView (area : Rect) (b : TextBuffer) : Prop where
  notAbove : b.scroll ≤ b.row
  notBelow : b.row - b.scroll + 2 < area.height

/-- A cell inside the border of an area and to the right of the line numbers. -/
structure IsText (area : Rect) (p : Position) : Prop where
  left : area.x + 1 + gutter ≤ p.x
  right : p.x + 1 < area.x + area.width
  top : area.y + 1 ≤ p.y
  bottom : p.y + 1 < area.y + area.height

variable {area : Rect} {b : TextBuffer} {p : Position}

theorem not_outOfView_iff :
    ¬ (b.row < b.scroll ∨ area.height - 2 ≤ b.row - b.scroll ∨ maxWord < b.column) ↔
      InView area b ∧ b.column ≤ maxWord := by
  constructor
  · intro h
    exact ⟨⟨by omega, by omega⟩, by omega⟩
  · rintro ⟨⟨habove, hbelow⟩, hcolumn⟩
    omega

/-- The row of the cursor on the screen is a word when it is in view. -/
theorem InView.row_le (hview : InView area b) (harea : area.Fits) :
    area.y + 1 + (b.row - b.scroll) ≤ maxWord := by
  have hbelow := hview.notBelow
  have hbottom := harea.bottom
  omega

/-- The column of the cursor is a word and its row is in view, but its place on the screen is no
word. -/
structure Overflows (area : Rect) (b : TextBuffer) : Prop where
  inView : InView area b
  column : b.column ≤ maxWord
  place : maxWord < area.x + 1 + gutter + b.column

/-- The cursor's place is computed unless it leaves the words. -/
theorem cursorPosition?_eq_none_iff (harea : area.Fits) :
    cursorPosition? area b = none ↔ Overflows area b := by
  unfold cursorPosition?
  by_cases hshown : InView area b ∧ b.column ≤ maxWord
  · rw [if_neg (not_outOfView_iff.mpr hshown), word?_of_le (hshown.1.row_le harea)]
    by_cases hplace : area.x + 1 + gutter + b.column ≤ maxWord
    · rw [word?_of_le hplace]
      exact iff_of_false nofun fun h => absurd h.place (Nat.not_lt_of_le hplace)
    · rw [word?_of_lt (Nat.lt_of_not_le hplace)]
      exact iff_of_true rfl ⟨hshown.1, hshown.2, Nat.lt_of_not_le hplace⟩
  · rw [if_pos (Decidable.of_not_not (mt not_outOfView_iff.mp hshown))]
    exact iff_of_false nofun fun h => hshown ⟨h.inView, h.column⟩

/-- The cursor is shown where it is, if that is to the left of the right border. -/
theorem cursorPosition?_eq_some_iff (harea : area.Fits) :
    cursorPosition? area b = some (some p) ↔
      InView area b ∧ p.x = area.x + 1 + gutter + b.column ∧
        p.x + 1 < area.x + area.width ∧ p.y = area.y + 1 + (b.row - b.scroll) := by
  obtain ⟨x, y⟩ := p
  have hright := harea.right
  unfold cursorPosition?
  by_cases hshown : InView area b ∧ b.column ≤ maxWord
  · rw [if_neg (not_outOfView_iff.mpr hshown), word?_of_le (hshown.1.row_le harea),
      harea.right_eq, and_iff_right hshown.1]
    dsimp only
    by_cases hplace : area.x + 1 + gutter + b.column ≤ maxWord
    · rw [word?_of_le hplace]
      simp only [Option.bind_eq_bind, Option.bind_some, Option.some.injEq]
      split
      · refine iff_of_false nofun fun h => ?_
        omega
      · rw [Option.some.injEq, Position.mk.injEq]
        omega
    · rw [word?_of_lt (Nat.lt_of_not_le hplace)]
      refine iff_of_false nofun fun h => ?_
      omega
  · rw [if_pos (Decidable.of_not_not (mt not_outOfView_iff.mp hshown))]
    refine iff_of_false nofun fun h => hshown ⟨h.1, ?_⟩
    dsimp only at h
    omega

/-- An area that shows a cursor has columns and rows inside its border. -/
theorem size_of_cursorPosition? (h : cursorPosition? area b = some (some p)) :
    2 < area.width ∧ 2 < area.height := by
  unfold cursorPosition? at h
  split at h
  · cases h
  · simp only [Option.bind_eq_bind, Option.bind_eq_some_iff, word?_eq_some_iff] at h
    obtain ⟨x, ⟨-, rfl⟩, y, -, hplace⟩ := h
    split at hplace
    · cases hplace
    · rename_i hrow hcolumn
      unfold Rect.right at hcolumn
      omega

theorem corner?_of_le (area : Rect) (hx : area.x + 1 + gutter ≤ maxWord)
    (hy : area.y + 1 ≤ maxWord) : corner? area = some ⟨area.x + 1 + gutter, area.y + 1⟩ := by
  rw [corner?, word?_of_le hx, word?_of_le hy]
  rfl

/-- The place in the text under a cell of text. -/
theorem bufferPosition?_of_isText (harea : area.Fits) (hp : IsText area p) :
    bufferPosition? area b p =
      some (some (b.scroll + (p.y - (area.y + 1)), p.x - (area.x + 1 + gutter))) := by
  obtain ⟨hleft, hright, htop, hbottom⟩ := hp
  have hfits := harea.right
  have hends := harea.bottom
  have hcorner := corner?_of_le area (by omega) (by omega)
  have hinside : ¬ (p.y < area.y + 1 ∨ area.bottom - 1 ≤ p.y) := by
    rw [harea.bottom_eq]
    omega
  rw [bufferPosition?, hcorner]
  exact congrArg some (if_neg hinside)

/-- Under the cell that shows the cursor is the cursor's own place. -/
theorem bufferPosition?_cursorPosition? (harea : area.Fits)
    (h : cursorPosition? area b = some (some p)) :
    IsText area p ∧ bufferPosition? area b p = some (some (b.row, b.column)) := by
  obtain ⟨hview, hx, hright, hy⟩ := (cursorPosition?_eq_some_iff harea).mp h
  have hbelow := hview.notBelow
  have htext : IsText area p := ⟨by omega, hright, by omega, by omega⟩
  refine ⟨htext, ?_⟩
  rw [bufferPosition?_of_isText harea htext, hx, hy, Nat.add_sub_cancel_left,
    Nat.add_sub_cancel_left, Nat.add_sub_cancel' hview.notAbove]

/-- A cursor that goes to the place under a cell is shown in that cell. -/
theorem cursorPosition?_goto (harea : area.Fits) (hp : IsText area p) {row column : Nat}
    (h : bufferPosition? area b p = some (some (row, column))) (hrow : row < b.lines.length)
    (hcolumn : column ≤ (b.lines.getD row []).length) :
    cursorPosition? area (b.goto row column) = some (some p) := by
  rw [bufferPosition?_of_isText harea hp] at h
  obtain ⟨hy, hx⟩ := Prod.mk.inj (Option.some.inj (Option.some.inj h))
  obtain ⟨hleft, hright, htop, hbottom⟩ := hp
  have hview : InView area (b.goto row column) := by
    constructor
    all_goals
      rw [TextBuffer.row_goto hrow, TextBuffer.scroll_goto]
      omega
  rw [cursorPosition?_eq_some_iff harea, TextBuffer.row_goto hrow, TextBuffer.scroll_goto,
    TextBuffer.column_goto hrow hcolumn]
  exact ⟨hview, by omega, hright, by omega⟩

/-- **The cursor and the mouse agree:** under the cell that shows the cursor is the cursor's own
place, and a cursor that goes to the place under a cell is shown in that cell. -/
theorem cursor_mouse_inverse (harea : area.Fits) (b : TextBuffer) :
    (area.x + 1 + gutter + b.column ≤ maxWord → ∃ shown, cursorPosition? area b = some shown ∧
      ∀ p, shown = some p →
        IsText area p ∧ bufferPosition? area b p = some (some (b.row, b.column))) ∧
    ∀ p, IsText area p → ∃ place, bufferPosition? area b p = some (some place) ∧
      (place.1 < b.lines.length → place.2 ≤ (b.lines.getD place.1 []).length →
        cursorPosition? area (b.goto place.1 place.2) = some (some p)) := by
  constructor
  · intro hcolumn
    have hresult : cursorPosition? area b ≠ none := fun hnone =>
      Nat.not_lt_of_le hcolumn ((cursorPosition?_eq_none_iff harea).mp hnone).place
    obtain ⟨shown, hshown⟩ := Option.ne_none_iff_exists'.mp hresult
    refine ⟨shown, hshown, ?_⟩
    rintro p rfl
    exact bufferPosition?_cursorPosition? harea hshown
  · intro p hp
    exact ⟨_, bufferPosition?_of_isText harea hp,
      cursorPosition?_goto harea hp (bufferPosition?_of_isText harea hp)⟩

/-- Three lines, of which the first is out of view, and the cursor at the end of the second one. -/
def scrolledDown : TextBuffer :=
  { (TextBuffer.ofText ['a', '\n', 'é', '€', '\n', 'b']).goto 1 2 with scroll := 1 }

/-- Columns are counted in characters, and the letters of the line have two and three bytes. -/
theorem cursor_mouse_inverse_scrolledDown :
    let area : Rect := ⟨3, 2, 12, 4⟩
    area.Fits ∧ area.x + 1 + gutter + scrolledDown.column ≤ maxWord ∧
    cursorPosition? area scrolledDown = some (some ⟨11, 3⟩) ∧
    bufferPosition? area scrolledDown ⟨11, 3⟩ = some (some (1, 2)) ∧
    bufferPosition? area scrolledDown ⟨10, 4⟩ = some (some (2, 1)) ∧
    cursorPosition? area (scrolledDown.goto 2 1) = some (some ⟨10, 4⟩) := by
  intro area
  have harea : area.Fits := ⟨by decide, by decide⟩
  have hcolumn : area.x + 1 + gutter + scrolledDown.column ≤ maxWord := by decide +kernel
  have hcursor : cursorPosition? area scrolledDown = some (some ⟨11, 3⟩) := by decide +kernel
  have hmouse : bufferPosition? area scrolledDown ⟨10, 4⟩ = some (some (2, 1)) := by
    decide +kernel
  obtain ⟨hplace, hcell⟩ := cursor_mouse_inverse harea scrolledDown
  obtain ⟨shown, hshown, hunder⟩ := hplace hcolumn
  obtain rfl := Option.some.inj (hshown.symm.trans hcursor)
  obtain ⟨place, hfound, hgoto⟩ := hcell ⟨10, 4⟩ ⟨by decide, by decide, by decide, by decide⟩
  obtain rfl := Option.some.inj (Option.some.inj (hfound.symm.trans hmouse))
  exact ⟨harea, hcolumn, hcursor, (hunder _ rfl).2, hmouse,
    hgoto (by decide +kernel) (by decide +kernel)⟩

end EditorArea

end ScriptBench
