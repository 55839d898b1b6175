import ScriptBench.Frame.Theme
import ScriptBench.Opcode
import ScriptBench.Screen.Box
import ScriptBench.TextBuffer
import ScriptBench.Token.Scan

/-! The pane of an editor: numbered lines, coloured by their tokens. -/
namespace ScriptBench.EditorPane

/-- The style of an identifier, by what it is in the rule set. -/
def wordStyle (r : RuleSet) (word : Text) : Style :=
  match r.opcode? (String.ofList word) with
  | some o =>
    if r.disables o.byte then { Style.inked Theme.disabledOpcode with crossedOut := true }
    else (Style.inked Theme.opcode).strong
  | none => .inked Theme.text

def tokenStyle (r : RuleSet) (t : Token) : Style :=
  match t.kind with
  | .identifier => wordStyle r t.text
  | .hexLiteral => .inked Theme.hex
  | .integer => .inked Theme.number
  | .pushDelimiter | .evaluationDelimiter => .inked Theme.delimiter
  | .string => .inked Theme.string
  | .comment => { Style.inked Theme.muted with italic := true }
  | .whitespace => .plain
  | .invalid => { Style.inked Theme.error with underlined := true }

/-- A line coloured by its tokens. -/
def highlight (r : RuleSet) (tokens : List Token) : Line :=
  tokens.flatMap fun t => (tokenStyle r t).line t.text

theorem highlight_text (r : RuleSet) (tokens : List Token) :
    (highlight r tokens).map (·.char) = Token.line tokens := by
  simp [highlight, Token.line, Style.line, List.map_flatMap, Function.comp_def]

/-- A number at the right of four columns, and a space. -/
def lineNumber (n : Nat) : Text :=
  let digits := (toString n).toList
  List.replicate (4 - digits.length) ' ' ++ digits ++ [' ']

/-- How a line stands out. -/
inductive Emphasis where
  | failed
  | current
  | none
deriving DecidableEq, Repr

/-- A line that failed stands out as such even when the cursor is in it. -/
def emphasis (isFailed isCurrent : Bool) : Emphasis :=
  if isFailed then .failed else if isCurrent then .current else .none

def Emphasis.numberStyle : Emphasis → Style
  | failed => (Style.inked Theme.error).strong
  | current => (Style.inked Theme.secondary).strong
  | none => .inked Theme.muted

def Emphasis.apply : Emphasis → Line → Line
  | failed, l => l.map fun c => { c with style := Theme.failed }
  | current, l => l.map (·.under (.papered Theme.currentLine))
  | none, l => l

/-- The line with index `row`, numbered from one. -/
def numbered (row : Nat) (e : Emphasis) (l : Line) : Line :=
  e.numberStyle.line (lineNumber (row + 1)) ++ e.apply l

/-- The lines from the first one in view on; `failed` counts from one. -/
def rows (r : RuleSet) (b : TextBuffer) (failed : Option Nat) (focused : Bool) : List Line :=
  ((Token.document b.lines).mapIdx fun row tokens =>
    numbered row (emphasis (failed == some (row + 1)) (focused && row == b.row))
      (highlight r tokens)).drop b.scroll

def layers (r : RuleSet) (area : Rect) (title : String) (b : TextBuffer) (failed : Option Nat)
    (focused : Bool) : List Layer :=
  Box.layers { area, border := Theme.paneBorder focused, title := Line.title title }
    ((rows r b failed focused).take area.height)

end ScriptBench.EditorPane
