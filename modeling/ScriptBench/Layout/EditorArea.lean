import ScriptBench.Layout.Rect
import ScriptBench.TextBuffer

/-! Where the text of an editor is on the screen: inside the border, to the right
of the line numbers, from the first row in view on.

The functions have a result as long as no coordinate leaves the words; what is not
in view is a result, namely none. -/
namespace ScriptBench.EditorArea

/-- The width of the line numbers. -/
def gutter : Nat := 5

/-- Where the cursor is on the screen, if it is in view. -/
def cursorPosition? (area : Rect) (b : TextBuffer) : Option (Option Position) :=
  if b.row < b.scroll ∨ area.height - 2 ≤ b.row - b.scroll ∨ maxWord < b.column then some none
  else do
    let x ← word? (area.x + 1 + gutter + b.column)
    let y ← word? (area.y + 1 + (b.row - b.scroll))
    some (if area.right - 1 ≤ x then none else some ⟨x, y⟩)

/-- The first cell of the text. -/
def corner? (area : Rect) : Option Position := do
  let y ← word? (area.y + 1)
  let x ← word? (area.x + 1 + gutter)
  some ⟨x, y⟩

/-- The row and the column in characters at a place on the screen, if it is not above
or below the text. -/
def bufferPosition? (area : Rect) (b : TextBuffer) (p : Position) :
    Option (Option (Nat × Nat)) := do
  let corner ← corner? area
  some (if p.y < corner.y ∨ area.bottom - 1 ≤ p.y then none
    else some (b.scroll + (p.y - corner.y), p.x - corner.x))

end ScriptBench.EditorArea
