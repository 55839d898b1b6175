import ScriptBench.Completion
import ScriptBench.Frame.Theme
import ScriptBench.Hover
import ScriptBench.Screen.Box

/-! The boxes at the cursor: the suggestions for the word before it, and what is
known about the word under it. -/
namespace ScriptBench

/-- The place of a box around lines, as large as they are, inside `bounds`. Their
lengths and their number are cut to words. -/
def Popup.box? (anchor : Position) (bounds : Rect) (content : List Line) : Option Rect := do
  let width ← word? (word ((content.map List.length).max?.getD 0) + 2)
  let height ← word? (word content.length + 2)
  Rect.anchored? anchor width height bounds

def Popup.layers? (border : Color) (anchor : Position) (bounds : Rect) (content : List Line) :
    Option (List Layer) := do
  let area ← Popup.box? anchor bounds content
  some (Layer.clear area ::
    Box.layers { area, border := .inked border, ground := .papered Theme.popup } content)

namespace CompletionPopup

/-- How many suggestions are in view. -/
def maxRows : Nat := 8

/-- The first suggestion in view, so that the selected one is in view. -/
def firstRow (selected : Nat) : Nat := selected - (maxRows - 1)

/-- A text with spaces up to a width. -/
def padded (width : Nat) (t : Text) : Text := t ++ List.replicate (width - t.length) ' '

def itemText (labelWidth : Nat) (s : Suggestion) : Text :=
  (if s.isSnippet then '⎘' else ' ') :: ' ' :: padded labelWidth s.label.toList ++ [' ']

def itemStyle (isSelected : Bool) : Style :=
  if isSelected then (Style.inkOn .black Theme.primary).strong else .inked Theme.text

def itemLines (items : List Suggestion) (selected : Nat) : List Line :=
  let first := firstRow selected
  let visible := (items.drop first).take maxRows
  let labelWidth := (visible.map (·.label.length)).max?.getD 0
  visible.mapIdx fun i s => (itemStyle (first + i == selected)).line (itemText labelWidth s)

/-- What is said about the selected suggestion. -/
def docLines (items : List Suggestion) (selected : Nat) : List Line :=
  match (items[selected]?.bind (·.doc)).filter (!·.isEmpty) with
  | some doc => [{ Style.inked Theme.muted with italic := true }.write doc]
  | none => []

def layers? (anchor : Position) (bounds : Rect) (items : List Suggestion) (selected : Nat) :
    Option (List Layer) :=
  if items.isEmpty then some []
  else
    Popup.layers? Theme.border anchor bounds (itemLines items selected ++ docLines items selected)

end CompletionPopup

namespace HoverPopup

def textStyle (isStrong : Bool) : Style :=
  if isStrong then (Style.inked Theme.opcode).strong else .inked Theme.text

/-- A text whose parts between pairs of stars are strong; the stars and the marks
around code are left out. -/
def marked (isStrong : Bool) : Text → Line
  | [] => []
  | '*' :: '*' :: rest => marked (!isStrong) rest
  | c :: rest =>
    if c = '\x60' then marked isStrong rest else ⟨c, textStyle isStrong⟩ :: marked isStrong rest

def layers? (anchor : Position) (bounds : Rect) (h : Hover) : Option (List Layer) :=
  Popup.layers? Theme.secondary anchor bounds (h.contents.map (marked false ·.toList))

end HoverPopup

end ScriptBench
