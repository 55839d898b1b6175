import ScriptBench.Session.Event

/-! What stands around the editors.

The places of the dividers, the areas of the last frame and the modal are changed by few keys,
and by none of those that go to an editor: editing, completing and evaluating leave them
alone. -/
namespace ScriptBench.Session

structure Surroundings where
  offset : PaneOffset
  dragging : Option Divider
  view : Option View
  modal : Option Modal

def surroundings (s : Session) : Surroundings := ⟨s.offset, s.dragging, s.view, s.modal⟩

variable {s : Session}

theorem surroundings_updateFocused (s : Session) (f : TextBuffer → TextBuffer) :
    (s.updateFocused f).surroundings = s.surroundings := by
  unfold updateFocused
  cases s.focus <;> rfl

theorem surroundings_release (s : Session) (r : Option PaneLines × Debouncer PaneLines) :
    (s.release r).surroundings = s.surroundings := by
  unfold release
  split <;> rfl

theorem surroundings_refreshCompletion (s : Session) (least : Nat) :
    (s.refreshCompletion least).surroundings = s.surroundings := by
  unfold refreshCompletion
  dsimp only
  split <;> rfl

theorem surroundings_complete (s : Session) (now : Nat) :
    (s.complete now).surroundings = s.surroundings := by
  unfold complete
  split
  · dsimp only
    split
    · exact surroundings_refreshCompletion s _
    · exact surroundings_refreshCompletion s _
  · dsimp only
    split
    · exact surroundings_updateFocused { s with completion := none } _
    · rfl

theorem surroundings_toggleHover (s : Session) : s.toggleHover.surroundings = s.surroundings := by
  unfold toggleHover
  split <;> rfl

theorem surroundings_edit (s : Session) (f : TextBuffer → TextBuffer) (now : Nat) :
    (s.edit f now).surroundings = s.surroundings :=
  (surroundings_refreshCompletion _ _).trans (surroundings_updateFocused s f)

theorem surroundings_editorKey (s : Session) (k : Key) (now : Nat) :
    (s.editorKey k now).surroundings = s.surroundings := by
  unfold editorKey
  split
  · exact surroundings_updateFocused s _
  · split
    · rfl
    · exact surroundings_complete s now
    · exact surroundings_toggleHover s
    · rfl
    · rfl
    · exact surroundings_updateFocused { s with completion := none } _
    · exact surroundings_edit s _ now
    · exact surroundings_edit s _ now
    · exact surroundings_edit s _ now
    · rfl

theorem surroundings_listKey {k : Key} {t : Session} (h : s.listKey? k = some t) :
    t.surroundings = s.surroundings := by
  unfold listKey? at h
  split at h
  · cases h
  · dsimp only at h
    split at h <;> cases h <;> rfl

/-- A key without control goes to the list of suggestions or to the editor. -/
theorem surroundings_plainKey (s : Session) (k : Key) (now : Nat) :
    ((s.listKey? k).getD (s.editorKey k now)).surroundings = s.surroundings := by
  cases hlist : s.listKey? k with
  | some t => exact surroundings_listKey hlist
  | none => exact surroundings_editorKey s k now

theorem surroundings_click (s : Session) (pane : Pane) (area : Rect) (p : Position) :
    (s.click pane area p).surroundings = s.surroundings :=
  surroundings_updateFocused _ _

end ScriptBench.Session
