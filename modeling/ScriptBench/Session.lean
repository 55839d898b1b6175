import ScriptBench.Completion
import ScriptBench.Debouncer
import ScriptBench.Evaluation
import ScriptBench.Hover
import ScriptBench.Layout.EditorArea
import ScriptBench.Layout.Quadrants
import ScriptBench.Template.Json

/-! An editing session: two editors, what their last committed lines evaluate to,
and what is open over them.

An edit is committed once typing has paused; until then the session shows the
result of the lines before it, without their failure. -/
namespace ScriptBench

inductive Modal where
  | compile
  | template
deriving DecidableEq, Repr

/-- The runnable lines of both panes. -/
structure PaneLines where
  stack : List Text
  witness : List Text
deriving DecidableEq, Repr

/-- An open list of suggestions: the word it is for, and the one that is selected. -/
structure CompletionList where
  typed : Text
  selected : Nat
deriving DecidableEq, Repr

/-- The areas of the last frame drawn, which the mouse points into. -/
structure View where
  panes : Rect
  quadrants : Quadrants
deriving DecidableEq, Repr

/-- The areas on a screen: its last row is the status bar, and the panes have the rest. -/
def View.ofScreen (screen : Rect) (o : PaneOffset) : View :=
  let panes : Rect := { screen with height := screen.height - 1 }
  ⟨panes, Quadrants.split panes o⟩

/-- What the status bar says. -/
inductive Status where
  | evaluated (lines : Nat)
  | failed (line : Nat)
  | compiled
  | noSuggestions
  | templateApplied
  | templateCleared
deriving DecidableEq, Repr

def Status.message : Status → String
  | evaluated lines => s!"Evaluated {lines} line(s)"
  | failed line => s!"Failed at line {line}"
  | compiled => "Compiled"
  | noSuggestions => "No suggestions"
  | templateApplied => "Transaction template applied"
  | templateCleared => "Transaction template cleared"

/-- What the status bar says after an evaluation. -/
def Evaluation.status (e : Evaluation) : Status :=
  match e.failure with
  | some f => .failed f.line
  | none => .evaluated e.executed

structure Session where
  /-- The machine that every evaluation runs on. -/
  machine : Machine
  stackEditor : TextBuffer
  witnessEditor : TextBuffer
  /-- The lines of the last committed edit. -/
  lines : PaneLines
  evaluation : Evaluation
  /-- The lines of the edits since. -/
  debouncer : Debouncer PaneLines
  template : Option Template
  templateEditor : TextBuffer
  templateFlaw : Option Template.Flaw
  focus : Pane
  modal : Option Modal
  offset : PaneOffset
  dragging : Option Divider
  view : Option View
  completion : Option CompletionList
  hover : Option Hover
  quit : Bool
  status : Status
deriving DecidableEq, Repr

namespace PaneLines

def ofBuffers (stack witness : TextBuffer) : PaneLines :=
  ⟨SourceLine.ofText stack.text, SourceLine.ofText witness.text⟩

/-- Evaluates both panes on a machine, and leaves the machine behind. -/
def evaluateOn (l : PaneLines) (m : Machine) (template : Option Template) : Evaluation × Machine :=
  m.evaluate l.stack l.witness template

end PaneLines

def Pane.other : Pane → Pane
  | .stackElements => .witnessScript
  | .witnessScript => .stackElements

namespace Session

/-- A session that has evaluated the texts it starts with. -/
def start (r : RuleSet) (stack witness : Text) (template : Option Template) : Session :=
  let stackEditor := TextBuffer.ofText stack
  let witnessEditor := TextBuffer.ofText witness
  let lines := PaneLines.ofBuffers stackEditor witnessEditor
  let result := lines.evaluateOn (Machine.new r) template
  { machine := result.2, stackEditor, witnessEditor, lines
    evaluation := result.1
    debouncer := Debouncer.new Debouncer.standardDelay
    template
    templateEditor := TextBuffer.empty
    templateFlaw := none
    focus := .stackElements
    modal := none
    offset := PaneOffset.centre
    dragging := none
    view := none
    completion := none
    hover := none
    quit := false
    status := result.1.status }

def rules (s : Session) : RuleSet := s.machine.rules

/-- The lines of both editors as they stand. -/
def currentLines (s : Session) : PaneLines := PaneLines.ofBuffers s.stackEditor s.witnessEditor

def focusedEditor (s : Session) : TextBuffer :=
  match s.focus with
  | .stackElements => s.stackEditor
  | .witnessScript => s.witnessEditor

def updateFocused (s : Session) (f : TextBuffer → TextBuffer) : Session :=
  match s.focus with
  | .stackElements => { s with stackEditor := f s.stackEditor }
  | .witnessScript => { s with witnessEditor := f s.witnessEditor }

def suggestions (s : Session) (typed : Text) : List Suggestion :=
  Suggestion.suggest (Suggestion.all s.rules) typed

def closePopups (s : Session) : Session := { s with completion := none, hover := none }

/-! ### Evaluating -/

/-- Evaluates the committed lines. -/
def evaluate (s : Session) : Session :=
  let result := s.lines.evaluateOn s.machine s.template
  { s with machine := result.2, evaluation := result.1, status := result.1.status }

def commit (s : Session) (lines : PaneLines) : Session := { s with lines }.evaluate

/-- Takes up what the debouncer lets go. -/
def release (s : Session) (r : Option PaneLines × Debouncer PaneLines) : Session :=
  match r.1 with
  | some lines => { s with debouncer := r.2 }.commit lines
  | none => { s with debouncer := r.2 }

/-- Commits an edit whose time has come. -/
def tick (s : Session) (now : Nat) : Session := s.release (s.debouncer.poll now)

/-- Commits an edit without waiting. -/
def flush (s : Session) : Session := s.release s.debouncer.flush

/-- What follows every change to an editor's text. -/
def edited (s : Session) (now : Nat) : Session :=
  { s with
    evaluation := { s.evaluation with failure := none }
    hover := none
    debouncer := s.debouncer.schedule s.currentLines now }

/-! ### Suggestions and hovers -/

/-- Opens, narrows or closes the list for the word before the cursor, which has to
be at least `least` bytes long. -/
def refreshCompletion (s : Session) (least : Nat) : Session :=
  let typed := s.focusedEditor.typed
  if least ≤ typed.size && !(s.suggestions typed).isEmpty then
    let selected := match s.completion with
      | some c => if c.typed = typed then c.selected else 0
      | none => 0
    { s with completion := some ⟨typed, selected⟩ }
  else { s with completion := none }

/-- Typing opens the list from two characters on. -/
def typingLeast : Nat := 2

/-- Asking for the list opens it from one character on. -/
def askingLeast : Nat := 1

/-- Accepts the selected suggestion, or asks for the list when it is not open. -/
def complete (s : Session) (now : Nat) : Session :=
  match s.completion with
  | none =>
    let s := s.refreshCompletion askingLeast
    if s.completion.isNone then { s with status := .noSuggestions } else s
  | some c =>
    let closed := { s with completion := none }
    match (s.suggestions c.typed)[c.selected]? with
    | some item =>
      (closed.updateFocused (·.applyCompletion (Expansion.ofSnippet item.body.toList))).edited now
    | none => closed

def toggleHover (s : Session) : Session :=
  match s.hover with
  | some _ => { s with hover := none }
  | none =>
    let b := s.focusedEditor
    { s with
      completion := none
      hover := some (Hover.ofPosition s.rules b.lines b.row b.byteColumn) }

/-! ### Modals -/

def openCompile (s : Session) : Session :=
  { s.flush.closePopups with modal := some .compile, status := .compiled }

def openTemplate (s : Session) : Session :=
  { s.closePopups with
    templateEditor := TextBuffer.ofText (s.template.getD Template.blank).pretty
    templateFlaw := none
    modal := some .template }

def applyTemplate (s : Session) : Session :=
  match Template.parse s.templateEditor.text with
  | .ok t =>
    { ({ s with template := some t, templateFlaw := none, modal := none }.flush).evaluate with
      status := .templateApplied }
  | .error flaw => { s with templateFlaw := some flaw }

def clearTemplate (s : Session) : Session :=
  { ({ s with template := none, modal := none }.flush).evaluate with status := .templateCleared }

end Session

end ScriptBench
