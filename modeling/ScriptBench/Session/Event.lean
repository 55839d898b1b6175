import ScriptBench.Layout.TemplateArea
import ScriptBench.Session

/-! What happens to a session: keys, the mouse, the passing of time, and the frames drawn. -/
namespace ScriptBench

inductive Key where
  | char (c : Char)
  | enter
  | esc
  | tab
  | backTab
  | backspace
  | delete
  | left
  | right
  | up
  | down
  | home
  | toEnd
  | null
  | f1
  | other
deriving DecidableEq, Repr

inductive MouseAction where
  | press
  | drag
  | release
  | scrollUp
  | scrollDown
  | other
deriving DecidableEq, Repr

inductive Event where
  | key (k : Key) (ctrl : Bool) (now : Nat)
  | mouse (action : MouseAction) (place : Position)
  | tick (now : Nat)
  | flush
  | draw (width height : Nat)
deriving DecidableEq, Repr

namespace Session

/-! ### Keys -/

/-- The movement of the cursor that a key asks for. -/
def movement? : Key → Option (TextBuffer → TextBuffer)
  | .left => some TextBuffer.moveLeft
  | .right => some TextBuffer.moveRight
  | .up => some TextBuffer.moveUp
  | .down => some TextBuffer.moveDown
  | .home => some TextBuffer.moveHome
  | .toEnd => some TextBuffer.moveEnd
  | _ => none

/-- How far a key moves a divider, in percentage points. -/
def resizeStep : Int := 2

/-- Keys that go with control, outside of modals. -/
def controlKey (s : Session) (k : Key) (now : Nat) : Session :=
  match k with
  | .char 'b' => s.openCompile
  | .char 't' => s.openTemplate
  | .char ' ' => s.complete now
  | .left => { s with offset := s.offset.shift (-resizeStep) 0 }
  | .right => { s with offset := s.offset.shift resizeStep 0 }
  | .up => { s with offset := s.offset.shift 0 (-resizeStep) }
  | .down => { s with offset := s.offset.shift 0 resizeStep }
  | _ => s

/-- The selection above the one at `selected` of `count`, the last one above the first. -/
def selectAbove (selected count : Nat) : Nat :=
  if selected = 0 then count - 1 else selected - 1

/-- The selection below the one at `selected` of `count`, the first one below the last. -/
def selectBelow (selected count : Nat) : Nat :=
  if count ≤ selected + 1 then 0 else selected + 1

/-- The keys that an open list of suggestions takes for itself. -/
def listKey? (s : Session) (k : Key) : Option Session :=
  match s.completion with
  | none => none
  | some c =>
    let count := (s.suggestions c.typed).length
    let select (selected : Nat) : Session := { s with completion := some { c with selected } }
    match k with
    | .up => some (select (selectAbove c.selected count))
    | .down => some (select (selectBelow c.selected count))
    | .esc => some { s with completion := none }
    | _ => none

/-- Changes the focused editor's text and keeps the list of suggestions up with it. -/
def edit (s : Session) (f : TextBuffer → TextBuffer) (now : Nat) : Session :=
  ((s.updateFocused f).edited now).refreshCompletion typingLeast

/-- Keys in an editor. -/
def editorKey (s : Session) (k : Key) (now : Nat) : Session :=
  match movement? k with
  | some move => (s.updateFocused move).closePopups
  | none =>
    match k with
    | .esc => { s with hover := none }
    -- Some terminals send this for a space with control.
    | .null => s.complete now
    | .f1 => s.toggleHover
    | .tab | .backTab => { s.closePopups with focus := s.focus.other }
    | .enter => ({ s with completion := none }.updateFocused TextBuffer.newline).edited now
    | .backspace => s.edit TextBuffer.backspace now
    | .delete => s.edit TextBuffer.delete now
    | .char c => s.edit (·.insertChar c) now
    | _ => s

def compileKey (s : Session) (k : Key) (ctrl : Bool) : Session :=
  if k = .esc ∨ k = .enter ∨ (ctrl = true ∧ k = .char 'b') then { s with modal := none } else s

/-- What a key does to the text of the template. -/
def templateEdit? (k : Key) : Option (TextBuffer → TextBuffer) :=
  match movement? k with
  | some move => some move
  | none =>
    match k with
    | .enter => some (·.insert ['\n'])
    | .tab => some (·.insert [' ', ' '])
    | .backspace => some TextBuffer.backspace
    | .delete => some TextBuffer.delete
    | .char c => some (·.insert [c])
    | _ => none

def templateKey (s : Session) (k : Key) (ctrl : Bool) : Session :=
  if k = .esc then { s with modal := none, templateFlaw := none }
  else if ctrl then
    match k with
    | .char 's' => s.applyTemplate
    | .char 'd' => s.clearTemplate
    | _ => s
  else match templateEdit? k with
    | some f => { s with templateEditor := f s.templateEditor }
    | none => s

def handleKey (s : Session) (k : Key) (ctrl : Bool) (now : Nat) : Session :=
  if ctrl && (k = .char 'q' || k = .char 'c') then { s with quit := true }
  else match s.modal with
    | some .compile => s.compileKey k ctrl
    | some .template => s.templateKey k ctrl
    | none =>
      if ctrl then s.controlKey k now
      else (s.listKey? k).getD (s.editorKey k now)

/-! ### Mouse -/

/-- The editor at a place, with its area. -/
def editorAt? (v : View) (p : Position) : Option (Pane × Rect) :=
  if v.quadrants.stackEditor.contains p then some (.stackElements, v.quadrants.stackEditor)
  else if v.quadrants.witnessEditor.contains p then
    some (.witnessScript, v.quadrants.witnessEditor)
  else none

/-- Focuses the editor in `area` and puts its cursor where the mouse is, if that is in
its text. -/
def click (s : Session) (pane : Pane) (area : Rect) (p : Position) : Session :=
  { s with focus := pane }.closePopups.updateFocused fun b =>
    match EditorArea.bufferPosition? area b p with
    | some (some (row, column)) => b.goto row column
    | _ => b

/-- Takes hold of the divider under the mouse, or else clicks into an editor. Where it is
not known whether there is a divider, the program ends (`outlives`) and nothing changes. -/
def press (s : Session) (v : View) (p : Position) : Session :=
  match v.quadrants.dividerAt? p with
  | none => s
  | some (some d) => { s with dragging := some d }
  | some none =>
    match editorAt? v p with
    | some (pane, area) => s.click pane area p
    | none => s

def drag (s : Session) (v : View) (p : Position) : Session :=
  match s.dragging with
  | some .column => { s with offset := s.offset.dragColumn p.x v.panes }
  | some .row => { s with offset := s.offset.dragRow p.y v.panes }
  | none => s

/-- The mouse acts on the last frame drawn, and not at all under a modal. -/
def handleMouse (s : Session) (action : MouseAction) (p : Position) : Session :=
  match s.view, s.modal with
  | some v, none =>
    match action with
    | .press => s.press v p
    | .drag => s.drag v p
    | .release => { s with dragging := none }
    | .scrollUp => s.updateFocused TextBuffer.moveUp
    | .scrollDown => s.updateFocused TextBuffer.moveDown
    | .other => s
  | _, _ => s

/-! ### Frames -/

/-- Lays the panes out on a screen and scrolls every editor to its cursor, that of the
template if its box has a place. -/
def layOut (s : Session) (width height : Nat) : Session :=
  let screen := Rect.ofSize 0 0 width height
  let view := View.ofScreen screen s.offset
  { s with
    view := some view
    stackEditor := s.stackEditor.scrollToCursor (view.quadrants.stackEditor.height - 2)
    witnessEditor := s.witnessEditor.scrollToCursor (view.quadrants.witnessEditor.height - 2)
    templateEditor :=
      match s.modal, TemplateArea.box? screen with
      | some .template, some box => s.templateEditor.scrollToCursor (TemplateArea.textRows box)
      | _, _ => s.templateEditor }

/-- The session after an event. -/
def step (s : Session) : Event → Session
  | .key k ctrl now => s.handleKey k ctrl now
  | .mouse action p => s.handleMouse action p
  | .tick now => s.tick now
  | .flush => s.flush
  | .draw width height => s.layOut width height

/-- The session after a sequence of events. -/
def run (s : Session) (events : List Event) : Session := events.foldl step s

end Session

end ScriptBench
