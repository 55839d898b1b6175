import ScriptBench.Frame.EditorPane
import ScriptBench.Frame.Modal
import ScriptBench.Frame.OutputPane
import ScriptBench.Frame.Popup
import ScriptBench.Frame.StatusBar
import ScriptBench.Session.Event

/-! What a session looks like on a screen, once it is laid out there. -/
namespace ScriptBench

/-- A screen and where its cursor is, if it is shown. -/
structure Frame where
  screen : Screen
  cursor : Option Position
deriving DecidableEq, Repr

namespace Session

/-- The line of a pane that failed, counted from one. -/
def failedLineIn (s : Session) (pane : Pane) : Option Nat :=
  (s.evaluation.failedPaneLine.filter (·.1 = pane)).map (·.2)

def failureIn (s : Session) (pane : Pane) : Option (Nat × String) := do
  some (← s.failedLineIn pane, ← s.evaluation.message)

/-- The current row of an editor that is focused. -/
def cursorRowIn (s : Session) (pane : Pane) (b : TextBuffer) : Option Nat :=
  if s.focus = pane then some b.row else none

def stackOutput (s : Session) : OutputPane where
  title := "Stack Elements Output"
  snapshots := s.evaluation.stackPane
  lineCount := s.stackEditor.lines.length
  failure := s.failureIn .stackElements
  carried := none
  cursorRow := s.cursorRowIn .stackElements s.stackEditor
  scroll := s.stackEditor.scroll

def witnessOutput (s : Session) : OutputPane where
  title := "Witness Script Output"
  snapshots := s.evaluation.witnessPane
  lineCount := s.witnessEditor.lines.length
  failure := s.failureIn .witnessScript
  carried := some s.evaluation.firstStack
  cursorRow := s.cursorRowIn .witnessScript s.witnessEditor
  scroll := s.witnessEditor.scroll

def statusBar (s : Session) : StatusBar where
  rules := s.rules
  message := s.status.message
  failure := s.evaluation.failure
  pending := s.debouncer.isPending
  hasTemplate := s.template.isSome

/-- The panes and the status bar. -/
def paneLayers (s : Session) (v : View) (statusArea : Rect) : List Layer :=
  EditorPane.layers s.rules v.quadrants.stackEditor "Stack Elements" s.stackEditor
      (s.failedLineIn .stackElements) (s.focus = .stackElements) ++
    EditorPane.layers s.rules v.quadrants.witnessEditor "Witness Script" s.witnessEditor
      (s.failedLineIn .witnessScript) (s.focus = .witnessScript) ++
    s.stackOutput.layers v.quadrants.stackOutput ++
    s.witnessOutput.layers v.quadrants.witnessOutput ++
    s.statusBar.layers statusArea

def focusedArea (s : Session) (v : View) : Rect :=
  match s.focus with
  | .stackElements => v.quadrants.stackEditor
  | .witnessScript => v.quadrants.witnessEditor

/-- Where the cursor of the focused editor is, if it is in view. -/
def editorCursor? (s : Session) (v : View) : Option (Option Position) :=
  EditorArea.cursorPosition? (s.focusedArea v) s.focusedEditor

/-- What is open at the cursor, if the cursor is in view. -/
def popupLayers? (s : Session) (v : View) : Option (List Layer) := do
  match ← s.editorCursor? v, s.completion, s.hover with
  | none, _, _ => some []
  | some anchor, some c, _ =>
    CompletionPopup.layers? anchor v.panes (s.suggestions c.typed) c.selected
  | some anchor, none, some h => HoverPopup.layers? anchor v.panes h
  | some _, none, none => some []

/-- What is open over the panes. -/
def overlay? (s : Session) (v : View) (screen : Rect) : Option (List Layer) :=
  match s.modal with
  | some .compile => CompileModal.layers? s.rules screen s.evaluation
  | some .template =>
    TemplateModal.layers? screen s.templateEditor (s.templateFlaw.map (·.message))
  | none => s.popupLayers? v

/-- The cursor is in what has the keys; the compiled program has none. -/
def cursor? (s : Session) (v : View) (screen : Rect) : Option (Option Position) :=
  match s.modal with
  | some .compile => some none
  | some .template => do TemplateArea.cursorPosition? (← TemplateArea.box? screen) s.templateEditor
  | none => s.editorCursor? v

/-- A session that has been laid out on a screen, as it is drawn there. Where a coordinate
of it is no word, nothing is drawn and the program ends. -/
def frame? (s : Session) (width height : Nat) : Option Frame := do
  let screen := Rect.ofSize 0 0 width height
  let view := View.ofScreen screen s.offset
  let statusArea : Rect := ⟨0, screen.height - 1, screen.width, min screen.height 1⟩
  let overlay ← s.overlay? view screen
  let cursor ← s.cursor? view screen
  some
    { screen := (Screen.blank screen.width screen.height).draw
        (s.paneLayers view statusArea ++ overlay)
      cursor }

/-! ### Running to the end -/

/-- Whether the program goes on after a press: it looks for a divider, and if there is
none for the text of the editor under the mouse. -/
def outlivesPress (v : View) (p : Position) : Bool :=
  match v.quadrants.dividerAt? p with
  | none => false
  | some (some _) => true
  | some none => (editorAt? v p).all fun e => (EditorArea.corner? e.2).isSome

/-- Whether the program goes on after an event. It ends where a coordinate that it
computes is no word: in a press of the mouse, or when a frame is drawn. -/
def outlives (s : Session) : Event → Bool
  | .mouse .press p =>
    match s.view, s.modal with
    | some v, none => outlivesPress v p
    | _, _ => true
  | .draw width height => ((s.layOut width height).frame? width height).isSome
  | _ => true

/-- The session after an event that it outlives. -/
def step? (s : Session) (e : Event) : Option Session :=
  if s.outlives e then some (s.step e) else none

/-- The session after a sequence of events, if it outlives all of them. -/
def run? (s : Session) (events : List Event) : Option Session := events.foldlM step? s

end Session

end ScriptBench
