import ScriptBench.Proofs.TextBuffer.Movement

/-! What events do to what is evaluated.

Of a session, the core is what an evaluation depends on and what it leaves: the lines
of the editors, those that were committed last and those that wait, the template, the
machine, the result, and which modal is open. Most events move a cursor, a divider or
a popup and keep the core. The others are few: an edit, a commit, opening or closing a
modal, and another template. `step_core` says so once, for every event. -/
namespace ScriptBench.Session

structure Core where
  /-- The lines of both editors as they stand. -/
  current : PaneLines
  /-- The lines of the last committed edit. -/
  committed : PaneLines
  debouncer : Debouncer PaneLines
  template : Option Template
  machine : Machine
  evaluation : Evaluation
  modal : Option Modal

def core (s : Session) : Core where
  current := s.currentLines
  committed := s.lines
  debouncer := s.debouncer
  template := s.template
  machine := s.machine
  evaluation := s.evaluation
  modal := s.modal

namespace Core

def evaluate (c : Core) : Core :=
  let result := c.committed.evaluateOn c.machine c.template
  { c with machine := result.2, evaluation := result.1 }

/-- Commits the lines that wait, if there are any. -/
def flush (c : Core) : Core :=
  match c.debouncer.pending with
  | some (_, lines) => { c with debouncer := c.debouncer.cancel, committed := lines }.evaluate
  | none => c

/-- An edit leaves other lines in the editors; they wait, and the failure is not shown. -/
def edited (c : Core) (lines : PaneLines) (now : Nat) : Core :=
  { c with
    current := lines
    evaluation := { c.evaluation with failure := none }
    debouncer := c.debouncer.schedule lines now }

/-- Another template, or none, closes the modal and is evaluated with at once. -/
def supplied (c : Core) (template : Option Template) : Core :=
  { c with template, modal := none }.flush.evaluate

/-- Everything an event can do to the core. -/
inductive Step (c : Core) : Core → Prop where
  | keep : Step c c
  | edit (lines : PaneLines) (now : Nat) (noModal : c.modal = none) : Step c (c.edited lines now)
  | flush : Step c c.flush
  | openCompile : Step c { c.flush with modal := some .compile }
  | openTemplate : Step c { c with modal := some .template }
  | close : Step c { c with modal := none }
  | supply (template : Option Template) : Step c (c.supplied template)

theorem Step.of_eq {c d : Core} (h : d = c) : c.Step d := h ▸ .keep

end Core

variable {s : Session}

/-! ### The editors -/

theorem core_updateFocused {f : TextBuffer → TextBuffer} (hf : ∀ b, (f b).lines = b.lines)
    (s : Session) : (s.updateFocused f).core = s.core := by
  unfold updateFocused
  cases s.focus <;>
    simp only [core, currentLines, PaneLines.ofBuffers, TextBuffer.text, hf]

/-- Changing the focused editor and scheduling its lines is an edit of the core. -/
theorem core_edited (f : TextBuffer → TextBuffer) (s : Session) (now : Nat) :
    ((s.updateFocused f).edited now).core = s.core.edited (s.updateFocused f).currentLines now := by
  unfold updateFocused
  cases s.focus <;> rfl

theorem step_edited (hmodal : s.modal = none) (f : TextBuffer → TextBuffer) (now : Nat) :
    s.core.Step ((s.updateFocused f).edited now).core := by
  rw [core_edited]
  exact .edit _ now hmodal

/-! ### Committing -/

theorem core_flush (s : Session) : s.flush.core = s.core.flush := by
  obtain ⟨_, _, _, _, _, ⟨delay, pending⟩⟩ := s
  cases pending <;> rfl

theorem step_tick (s : Session) (now : Nat) : s.core.Step (s.tick now).core := by
  unfold tick Debouncer.poll
  split
  · have hflush : s.core.Step s.core.flush := .flush
    rwa [← core_flush] at hflush
  · exact .keep

/-! ### Suggestions -/

theorem core_refreshCompletion (s : Session) (least : Nat) :
    (s.refreshCompletion least).core = s.core := by
  unfold refreshCompletion
  dsimp only
  split <;> rfl

theorem core_toggleHover (s : Session) : s.toggleHover.core = s.core := by
  unfold toggleHover
  split <;> rfl

theorem step_complete (hmodal : s.modal = none) (now : Nat) :
    s.core.Step (s.complete now).core := by
  unfold complete
  split
  · apply Core.Step.of_eq
    dsimp only
    split
    · exact core_refreshCompletion s _
    · exact core_refreshCompletion s _
  · dsimp only
    split
    · exact step_edited (s := { s with completion := none }) hmodal _ now
    · exact .keep

/-! ### Modals -/

theorem step_openCompile (s : Session) : s.core.Step s.openCompile.core := by
  have hcore : s.openCompile.core = { s.core.flush with modal := some .compile } := by
    rw [← core_flush]
    rfl
  rw [hcore]
  exact .openCompile

theorem step_supply (s : Session) (template : Option Template) {t : Session}
    (ht : t.core = { s.core with template, modal := none }) :
    s.core.Step t.flush.evaluate.core := by
  have hcore : t.flush.evaluate.core = s.core.supplied template := by
    rw [Core.supplied, ← ht, ← core_flush]
    rfl
  rw [hcore]
  exact .supply template

theorem step_applyTemplate (s : Session) : s.core.Step s.applyTemplate.core := by
  unfold applyTemplate
  split
  · rename_i t _
    exact step_supply s (some t) rfl
  · exact .keep

theorem step_clearTemplate (s : Session) : s.core.Step s.clearTemplate.core :=
  step_supply s none rfl

/-! ### Keys -/

theorem step_controlKey (hmodal : s.modal = none) (k : Key) (now : Nat) :
    s.core.Step (s.controlKey k now).core := by
  unfold controlKey
  split
  · exact step_openCompile s
  · exact .openTemplate
  · exact step_complete hmodal now
  all_goals exact .keep

theorem core_listKey {k : Key} {t : Session} (h : s.listKey? k = some t) : t.core = s.core := by
  unfold listKey? at h
  split at h
  · cases h
  · dsimp only at h
    split at h <;> cases h <;> rfl

theorem step_edit (hmodal : s.modal = none) (f : TextBuffer → TextBuffer) (now : Nat) :
    s.core.Step (s.edit f now).core := by
  unfold edit
  rw [core_refreshCompletion]
  exact step_edited hmodal f now

theorem step_editorKey (hmodal : s.modal = none) (k : Key) (now : Nat) :
    s.core.Step (s.editorKey k now).core := by
  unfold editorKey
  split
  · rename_i move hmove
    exact .of_eq (core_updateFocused (lines_movement hmove) s)
  · split
    · exact .keep
    · exact step_complete hmodal now
    · exact .of_eq (core_toggleHover s)
    · exact .keep
    · exact .keep
    · exact step_edited (s := { s with completion := none }) hmodal _ now
    · exact step_edit hmodal _ now
    · exact step_edit hmodal _ now
    · exact step_edit hmodal _ now
    · exact .keep

theorem step_templateKey (s : Session) (k : Key) (ctrl : Bool) :
    s.core.Step (s.templateKey k ctrl).core := by
  unfold templateKey
  split
  · exact .close
  · split
    · split
      · exact step_applyTemplate s
      · exact step_clearTemplate s
      · exact .keep
    · split <;> exact .keep

theorem step_compileKey (s : Session) (k : Key) (ctrl : Bool) :
    s.core.Step (s.compileKey k ctrl).core := by
  unfold compileKey
  split
  · exact .close
  · exact .keep

theorem step_handleKey (s : Session) (k : Key) (ctrl : Bool) (now : Nat) :
    s.core.Step (s.handleKey k ctrl now).core := by
  unfold handleKey
  split
  · exact .keep
  · split
    · exact step_compileKey s k ctrl
    · exact step_templateKey s k ctrl
    · rename_i hmodal
      split
      · exact step_controlKey hmodal k now
      · cases hlist : s.listKey? k with
        | some t => exact .of_eq (core_listKey hlist)
        | none => exact step_editorKey hmodal k now

/-! ### The mouse and frames -/

theorem core_click (s : Session) (pane : Pane) (area : Rect) (p : Position) :
    (s.click pane area p).core = s.core := by
  unfold click
  rw [core_updateFocused]
  · rfl
  · intro b
    split
    · exact b.lines_goto ..
    · rfl

theorem core_press (s : Session) (v : View) (p : Position) : (s.press v p).core = s.core := by
  unfold press
  split
  · rfl
  · rfl
  · split
    · exact core_click ..
    · rfl

theorem core_drag (s : Session) (v : View) (p : Position) : (s.drag v p).core = s.core := by
  unfold drag
  split <;> rfl

theorem core_handleMouse (s : Session) (action : MouseAction) (p : Position) :
    (s.handleMouse action p).core = s.core := by
  unfold handleMouse
  split
  · split
    · exact core_press ..
    · exact core_drag ..
    · rfl
    · exact core_updateFocused TextBuffer.lines_moveUp s
    · exact core_updateFocused TextBuffer.lines_moveDown s
    · rfl
  · rfl

theorem core_layOut (s : Session) (width height : Nat) : (s.layOut width height).core = s.core := by
  simp only [core, layOut, currentLines, PaneLines.ofBuffers, TextBuffer.text,
    TextBuffer.lines_scrollToCursor]

/-- Every event is a step of the core. -/
theorem step_core (s : Session) (e : Event) : s.core.Step (s.step e).core := by
  cases e with
  | key k ctrl now => exact step_handleKey s k ctrl now
  | mouse action p => exact .of_eq (core_handleMouse s action p)
  | tick now => exact step_tick s now
  | flush =>
    have hflush : s.core.Step s.core.flush := .flush
    rwa [← core_flush] at hflush
  | draw width height => exact .of_eq (core_layOut s width height)

end ScriptBench.Session
