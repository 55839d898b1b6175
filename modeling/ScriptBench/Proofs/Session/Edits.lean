import ScriptBench.Proofs.TextBuffer.Bounds

/-! What events do to the editors.

Whatever happens in a session, each editor is edited or left alone: `step_edits` says so for
every event, so that what all edits keep, such as lines without line feeds, holds of the
editors of every session. -/
namespace ScriptBench.Session

/-- The editor of a pane. -/
def editor (s : Session) : Pane → TextBuffer
  | .stackElements => s.stackEditor
  | .witnessScript => s.witnessEditor

/-- Each editor comes from the one before by edits. -/
def Edits (s t : Session) : Prop := ∀ pane, ∃ edits, t.editor pane = (s.editor pane).run edits

variable {s t u : Session}

theorem Edits.of_editor (h : t.editor = s.editor) : s.Edits t := fun _ => ⟨[], by rw [h]; rfl⟩

theorem Edits.trans (hst : s.Edits t) (htu : t.Edits u) : s.Edits u := by
  intro pane
  obtain ⟨first, hfirst⟩ := hst pane
  obtain ⟨second, hsecond⟩ := htu pane
  refine ⟨first ++ second, ?_⟩
  rw [hsecond, hfirst, TextBuffer.run, TextBuffer.run, TextBuffer.run, List.foldl_append]

/-! ### The editors -/

theorem edits_updateFocused {f : TextBuffer → TextBuffer} (hf : ∀ b, ∃ edits, f b = b.run edits)
    (s : Session) : s.Edits (s.updateFocused f) := by
  intro pane
  have hkept : ∃ edits, s.editor pane = (s.editor pane).run edits := ⟨[], rfl⟩
  have hedited := hf (s.editor pane)
  unfold updateFocused
  cases s.focus <;> cases pane <;> assumption

theorem exists_edits_movement {k : Key} {move : TextBuffer → TextBuffer}
    (h : movement? k = some move) (b : TextBuffer) : ∃ edits, move b = b.run edits := by
  unfold movement? at h
  split at h <;> cases h
  · exact ⟨[.left], rfl⟩
  · exact ⟨[.right], rfl⟩
  · exact ⟨[.up], rfl⟩
  · exact ⟨[.down], rfl⟩
  · exact ⟨[.home], rfl⟩
  · exact ⟨[.toEnd], rfl⟩

/-! ### Keys -/

theorem editor_flush (s : Session) : s.flush.editor = s.editor := by
  unfold flush release
  split <;> rfl

theorem editor_tick (s : Session) (now : Nat) : (s.tick now).editor = s.editor := by
  unfold tick release
  split <;> rfl

theorem editor_refreshCompletion (s : Session) (least : Nat) :
    (s.refreshCompletion least).editor = s.editor := by
  unfold refreshCompletion
  dsimp only
  split <;> rfl

theorem editor_toggleHover (s : Session) : s.toggleHover.editor = s.editor := by
  unfold toggleHover
  split <;> rfl

theorem edits_complete (s : Session) (now : Nat) : s.Edits (s.complete now) := by
  unfold complete
  split
  · apply Edits.of_editor
    dsimp only
    split <;> exact editor_refreshCompletion s _
  · dsimp only
    split
    · rename_i item _
      exact edits_updateFocused (fun _ => ⟨[.complete item.body.toList], rfl⟩)
        { s with completion := none }
    · exact .of_editor rfl

theorem edits_controlKey (s : Session) (k : Key) (now : Nat) : s.Edits (s.controlKey k now) := by
  unfold controlKey
  split
  · exact .of_editor (editor_flush s)
  · exact .of_editor rfl
  · exact edits_complete s now
  all_goals exact .of_editor rfl

theorem editor_listKey {k : Key} (h : s.listKey? k = some t) : t.editor = s.editor := by
  unfold listKey? at h
  split at h
  · cases h
  · dsimp only at h
    split at h <;> cases h <;> rfl

theorem edits_edit {f : TextBuffer → TextBuffer} (hf : ∀ b, ∃ edits, f b = b.run edits) (s : Session)
    (now : Nat) : s.Edits (s.edit f now) :=
  (edits_updateFocused hf s).trans (.of_editor (editor_refreshCompletion _ _))

theorem edits_editorKey (s : Session) (k : Key) (now : Nat) : s.Edits (s.editorKey k now) := by
  unfold editorKey
  split
  · rename_i move hmove
    exact edits_updateFocused (exists_edits_movement hmove) s
  · split
    · exact .of_editor rfl
    · exact edits_complete s now
    · exact .of_editor (editor_toggleHover s)
    · exact .of_editor rfl
    · exact .of_editor rfl
    · exact edits_updateFocused (fun _ => ⟨[.newline], rfl⟩) { s with completion := none }
    · exact edits_edit (fun _ => ⟨[.backspace], rfl⟩) s now
    · exact edits_edit (fun _ => ⟨[.delete], rfl⟩) s now
    · rename_i c _
      exact edits_edit (fun _ => ⟨[.type c], rfl⟩) s now
    · exact .of_editor rfl

theorem editor_templateKey (s : Session) (k : Key) (ctrl : Bool) :
    (s.templateKey k ctrl).editor = s.editor := by
  unfold templateKey
  split
  · rfl
  · split
    · split
      · unfold applyTemplate
        split
        · exact editor_flush _
        · rfl
      · exact editor_flush _
      · rfl
    · split <;> rfl

theorem editor_compileKey (s : Session) (k : Key) (ctrl : Bool) :
    (s.compileKey k ctrl).editor = s.editor := by
  unfold compileKey
  split <;> rfl

theorem edits_handleKey (s : Session) (k : Key) (ctrl : Bool) (now : Nat) :
    s.Edits (s.handleKey k ctrl now) := by
  unfold handleKey
  split
  · exact .of_editor rfl
  · split
    · exact .of_editor (editor_compileKey s k ctrl)
    · exact .of_editor (editor_templateKey s k ctrl)
    · split
      · exact edits_controlKey s k now
      · cases hlist : s.listKey? k with
        | some t => exact .of_editor (editor_listKey hlist)
        | none => exact edits_editorKey s k now

/-! ### The mouse and frames -/

theorem edits_click (s : Session) (pane : Pane) (area : Rect) (p : Position) :
    s.Edits (s.click pane area p) := by
  refine edits_updateFocused (fun b => ?_) { s with focus := pane }.closePopups
  split
  · exact ⟨[.goto _ _], rfl⟩
  · exact ⟨[], rfl⟩

theorem edits_press (s : Session) (v : View) (p : Position) : s.Edits (s.press v p) := by
  unfold press
  split
  · exact .of_editor rfl
  · exact .of_editor rfl
  · split
    · exact edits_click s _ _ p
    · exact .of_editor rfl

theorem editor_drag (s : Session) (v : View) (p : Position) : (s.drag v p).editor = s.editor := by
  unfold drag
  split <;> rfl

theorem edits_handleMouse (s : Session) (action : MouseAction) (p : Position) :
    s.Edits (s.handleMouse action p) := by
  unfold handleMouse
  split
  · split
    · exact edits_press s _ p
    · exact .of_editor (editor_drag s _ p)
    · exact .of_editor rfl
    · exact edits_updateFocused (fun _ => ⟨[.up], rfl⟩) s
    · exact edits_updateFocused (fun _ => ⟨[.down], rfl⟩) s
    · exact .of_editor rfl
  · exact .of_editor rfl

theorem edits_layOut (s : Session) (width height : Nat) : s.Edits (s.layOut width height)
  | .stackElements => ⟨[.scrollToCursor _], rfl⟩
  | .witnessScript => ⟨[.scrollToCursor _], rfl⟩

/-! ### Every event -/

theorem step_edits (s : Session) (e : Event) : s.Edits (s.step e) := by
  cases e with
  | key k ctrl now => exact edits_handleKey s k ctrl now
  | mouse action p => exact edits_handleMouse s action p
  | tick now => exact .of_editor (editor_tick s now)
  | flush => exact .of_editor (editor_flush s)
  | draw width height => exact edits_layOut s width height

theorem run_edits (s : Session) (events : List Event) : s.Edits (s.run events) := by
  induction events generalizing s with
  | nil => exact .of_editor rfl
  | cons e rest ih => exact (step_edits s e).trans (ih (s.step e))

/-- No line of an editor ever holds a line feed. -/
theorem noFeed_run (r : RuleSet) (stack witness : Text) (template : Option Template)
    (events : List Event) (pane : Pane) :
    (((start r stack witness template).run events).editor pane).NoFeed := by
  obtain ⟨edits, h⟩ := run_edits (start r stack witness template) events pane
  have hstart : ((start r stack witness template).editor pane).NoFeed := by
    cases pane
    · exact TextBuffer.noFeed_ofText stack
    · exact TextBuffer.noFeed_ofText witness
  rw [h]
  exact hstart.run edits

end ScriptBench.Session
