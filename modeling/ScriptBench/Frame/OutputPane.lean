import ScriptBench.Evaluation
import ScriptBench.Frame.Theme
import ScriptBench.Screen.Box

/-! The pane beside an editor: the stack after each of its lines, in the same rows.

The elements are shown bottom first. The stack in the editor's current line is
also shown in hexadecimal. -/
namespace ScriptBench

structure OutputPane where
  title : String
  snapshots : List Snapshot
  /-- How many lines the editor has. -/
  lineCount : Nat
  /-- The line that failed, counted from one, and the message. -/
  failure : Option (Nat × String)
  /-- The stack that the first line begins with, when it is to be shown. -/
  carried : Option (List Element)
  /-- The editor's current line, when the editor is focused. -/
  cursorRow : Option Nat
  /-- The first line in view. -/
  scroll : Nat

namespace OutputPane

/-- Elements with spaces between them, in colours that alternate. -/
def elementLine : (colour other : Color) → List Element → Line
  | _, _, [] => []
  | colour, _, [e] => (Style.inked colour).write e.display
  | colour, other, e :: rest =>
    (Style.inked colour).write e.display ++ Style.plain.write " " ++ elementLine other colour rest

def stackLine (es : List Element) : Line := elementLine Theme.element Theme.otherElement es

/-- The bytes of an element in hexadecimal. -/
def elementHex (e : Element) : String := if e.bytes.isEmpty then "(empty)" else e.bytes.hex

def hexLine (es : List Element) : Line :=
  (Style.inked Theme.muted).write (" hex: " ++ " ".intercalate (es.map elementHex) ++ " ")

/-- The stack that is carried in, between brackets. -/
def carriedLine (es : List Element) : Line :=
  (Style.inked Theme.muted).write " [" ++ stackLine es ++ (Style.inked Theme.muted).write "] "

/-- A snapshot; the one in the current line stands out, unless the stack is empty. -/
def snapshotLine (isCurrent : Bool) : Snapshot → Line
  | .stack [] => (Style.inked Theme.muted).write "(empty stack)"
  | s =>
    let l := stackLine s.elements
    if isCurrent then l.map (·.onto (.papered Theme.currentLine)) else l

/-- The line with index `row`. -/
def row (o : OutputPane) (row : Nat) : Line :=
  match o.failure.filter (·.1 == row + 1) with
  | some (_, message) => Theme.failed.write s!" {message} "
  | none =>
    match o.snapshots[row]? with
    | some s => snapshotLine (o.cursorRow == some row) s
    | none => []

/-- The lines from the first one in view on, as many as `height`. -/
def rows (o : OutputPane) (height : Nat) : List Line :=
  (((List.range (max o.lineCount o.snapshots.length)).drop o.scroll).take height).map o.row

/-- The stack after the current line, if that line was executed. -/
def currentStack? (o : OutputPane) : Option (List Element) :=
  (o.cursorRow.bind (o.snapshots[·]?)).bind fun s => if s.isBlank then none else some s.elements

def layers (o : OutputPane) (area : Rect) : List Layer :=
  Box.layers
    { area
      border := Theme.paneBorder false
      title := Line.title o.title
      note := (o.carried.map carriedLine).getD []
      footer := (o.currentStack?.map hexLine).getD [] }
    (o.rows area.height)

end OutputPane

end ScriptBench
