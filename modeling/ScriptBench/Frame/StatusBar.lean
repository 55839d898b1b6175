import ScriptBench.Evaluation
import ScriptBench.Frame.Theme
import ScriptBench.RuleSet
import ScriptBench.Screen

/-! The status bar: the rule set and what the evaluation came to on the left, the
keys on the right. -/
namespace ScriptBench

structure StatusBar where
  rules : RuleSet
  message : String
  failure : Option FailedLine
  /-- Whether an edit is waiting to be evaluated. -/
  pending : Bool
  hasTemplate : Bool

namespace StatusBar

/-- The colour behind the rule set. -/
def stateColor (b : StatusBar) : Color :=
  if b.failure.isSome then Theme.error else if b.pending then Theme.secondary else Theme.primary

def bar : Style := .papered Theme.currentLine

def barText (c : Color) : Style := .inkOn c Theme.currentLine

def messageLine (b : StatusBar) : Line :=
  match b.failure with
  | some f => (barText Theme.error).write s!" Line {f.line}: {f.message} "
  | none => (barText Theme.text).write s!" {b.message} "

def leftLine (b : StatusBar) : Line :=
  (Style.inkOn .black b.stateColor).strong.write s!" {b.rules.name} " ++
    (barText Theme.muted).write " | " ++ b.messageLine

def separator : Line := (barText Theme.muted).write "│"

/-- The keys and what they do. -/
def bindings : List (String × String) := [
  ("Tab", "pane"),
  ("^B", "compile"),
  ("^T", "template"),
  ("^←↑↓→", "resize"),
  ("^␣", "complete"),
  ("F1", "hover"),
  ("^Q", "quit")]

def binding (keyName action : String) : Line :=
  Theme.key.write s!" {keyName} " ++ (barText Theme.text).write s!" {action} "

def keysLine : Line :=
  (separator ++ (barText Theme.text).write " ").intercalate
    (bindings.map fun (keyName, action) => binding keyName action)

/-- What shows that a template is in force. -/
def templateLine : Line :=
  separator ++ (Style.inkOn .black Theme.success).strong.write " TX "

def rightLine (b : StatusBar) : Line := keysLine ++ if b.hasTemplate then templateLine else []

def layers (b : StatusBar) (area : Rect) : List Layer :=
  let (left, right) := area.splitColumns 50
  [ Layer.tint area bar,
    Layer.lines left [b.leftLine],
    Layer.lineAtRight right b.rightLine.length b.rightLine ]

end StatusBar

end ScriptBench
