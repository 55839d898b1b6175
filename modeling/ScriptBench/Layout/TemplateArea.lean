import ScriptBench.Layout.Rect
import ScriptBench.TextBuffer

/-! Where the template is edited: a box in the middle of the screen, with a few
rows below the text for what is wrong with it and for the keys. -/
namespace ScriptBench.TemplateArea

/-- The box on a screen. -/
def box? (screen : Rect) : Option Rect := Rect.centered? 70 80 screen

/-- How many lines of the template are in view: the rest of the box is its border,
an empty line, the flaw and the keys. -/
def textRows (box : Rect) : Nat := box.height - 5

/-- Where the cursor is on the screen, if it is in view. Its column is cut to a word. -/
def cursorPosition? (box : Rect) (b : TextBuffer) : Option (Option Position) :=
  if b.row < b.scroll ∨ textRows box ≤ b.row - b.scroll then some none
  else do
    let x ← word? (box.x + 1 + word b.column)
    let y ← word? (box.y + 1 + (b.row - b.scroll))
    some (if box.right - 1 ≤ x then none else some ⟨x, y⟩)

end ScriptBench.TemplateArea
