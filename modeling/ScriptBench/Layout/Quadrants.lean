import ScriptBench.Layout.PaneOffset

/-! The four panes: editors on the left and their outputs on the right, the stack
elements above and the witness script below. -/
namespace ScriptBench

inductive Divider where
  | column
  | row
deriving DecidableEq, Repr

structure Quadrants where
  stackEditor : Rect
  stackOutput : Rect
  witnessEditor : Rect
  witnessOutput : Rect
deriving DecidableEq, Repr

namespace Quadrants

def split (area : Rect) (o : PaneOffset) : Quadrants :=
  let (top, bottom) := area.splitRows o.rows.1
  let (stackEditor, stackOutput) := top.splitColumns o.columns.1
  let (witnessEditor, witnessOutput) := bottom.splitColumns o.columns.1
  { stackEditor, stackOutput, witnessEditor, witnessOutput }

/-- Whether a coordinate is on either side of a border that begins at `border`. The
largest word has none behind it, so that there is no result for it. -/
def touches? (coordinate border : Nat) : Option Bool := do
  let next ← word? (coordinate + 1)
  some (border ≤ next && coordinate ≤ border)

/-- The divider at a place, if there is one; where both meet, the one between the
columns. -/
def dividerAt? (q : Quadrants) (p : Position) : Option (Option Divider) := do
  if ← touches? p.x q.stackOutput.x then
    some (some .column)
  else if ← touches? p.y q.witnessEditor.y then
    some (some .row)
  else
    some none

end Quadrants

end ScriptBench
