import ScriptBench.Proofs.Frame.HoverPopup
import ScriptBench.Proofs.Layout.Dragging
import ScriptBench.Proofs.Layout.Overflow
import ScriptBench.Proofs.Session.Selecting

/-! Runs that go to their end.

The program ends where a coordinate that it computes is no word. That happens in a press in the last
column or row that there can be, and when a frame is drawn: where the box of a modal has no place,
or the cursor of the editor that has the keys is too far to the right. It never happens for the
popups, which are short, nor for a press into an editor, as the editors are at the left of the
screen. So a run goes to its end just when nothing of the kind happens on the way, and it is the run
that all other theorems are about then (`start_run?_eq_some_iff`). -/
namespace ScriptBench

/-! ### Presses -/

/-- An event whose sizes are words. -/
def Event.InWords : Event → Prop
  | .draw width height => width ≤ maxWord ∧ height ≤ maxWord
  | _ => True

/-- The editors are at the left of the screen. -/
structure View.AtLeft (v : View) : Prop where
  stackEditor : v.quadrants.stackEditor.x = 0
  witnessEditor : v.quadrants.witnessEditor.x = 0

namespace Session
variable {s t : Session}

theorem area_of_editorAt? {v : View} {p : Position} {e : Pane × Rect} (hv : v.AtLeft)
    (h : editorAt? v p = some e) : e.2.x = 0 ∧ e.2.contains p = true := by
  unfold editorAt? at h
  split at h
  · rename_i hin
    cases h
    exact ⟨hv.stackEditor, hin⟩
  · split at h
    · rename_i hin
      cases h
      exact ⟨hv.witnessEditor, hin⟩
    · cases h

/-- The text under the mouse is always found, as its first cell is not behind the mouse. -/
theorem outlivesPress_iff {v : View} (hv : v.AtLeft) (p : Position) :
    outlivesPress v p = true ↔ ¬ v.quadrants.Overflows p := by
  rw [← Quadrants.dividerAt?_eq_none_iff, outlivesPress]
  cases hd : v.quadrants.dividerAt? p with
  | none => exact iff_of_false nofun fun h => h rfl
  | some d =>
    refine iff_of_true ?_ nofun
    cases d with
    | some _ => rfl
    | none =>
      refine Option.all_eq_true _ _ |>.mpr fun e he => ?_
      obtain ⟨hleft, hin⟩ := area_of_editorAt? hv he
      simp only [Rect.contains, Bool.and_eq_true, decide_eq_true_eq] at hin
      have hend : e.2.bottom ≤ maxWord := Nat.min_le_right ..
      have hrow : word? (e.2.y + 1) = some (e.2.y + 1) := word?_of_le (by omega)
      rw [EditorArea.corner?, hrow, hleft]
      rfl

/-! ### Frames -/

/-- What holds of a session in every run: the dividers are within their limits, the editors of the
last frame at the left of the screen, and what the hover says is short. -/
structure Placed (s : Session) : Prop where
  limited : s.offset.Limited
  left : ∀ v ∈ s.view, v.AtLeft
  short : ∀ h ∈ s.hover, h.Short

/-- A frame of the session has a coordinate that is no word. -/
def Overflows (s : Session) (screen : Rect) : Prop :=
  match s.modal with
  | some .compile => maxWord < screen.width * 80 ∨ maxWord < screen.height * 70
  | some .template =>
    (maxWord < screen.width * 70 ∨ maxWord < screen.height * 80) ∨
      ∃ box, TemplateArea.box? screen = some box ∧ TemplateArea.Overflows box s.templateEditor
  | none =>
    EditorArea.Overflows (s.focusedArea (View.ofScreen screen s.offset)) s.focusedEditor

/-- The screens that frames are drawn on. -/
structure IsScreen (screen : Rect) : Prop where
  x : screen.x = 0
  y : screen.y = 0
  width : screen.width ≤ maxWord
  height : screen.height ≤ maxWord
  cells : screen.width * screen.height ≤ maxWord

theorem isScreen_ofSize {width height : Nat} (hw : width ≤ maxWord) (hh : height ≤ maxWord) :
    IsScreen (Rect.ofSize 0 0 width height) where
  x := rfl
  y := rfl
  width := Nat.le_trans (Rect.size_ofSize_le 0 0 hw hh).1 hw
  height := Nat.le_trans (Rect.size_ofSize_le 0 0 hw hh).2 hh
  cells := Rect.cells_ofSize 0 0 hw hh

variable {screen : Rect}

theorem IsScreen.fits (h : IsScreen screen) : screen.Fits where
  right := by
    rw [h.x, Nat.zero_add]
    exact h.width
  bottom := by
    rw [h.y, Nat.zero_add]
    exact h.height

/-- What is open at the cursor is drawn wherever the cursor is. -/
theorem popupLayers?_eq_none_iff (hs : s.Placed) (hscreen : IsScreen screen) :
    s.popupLayers? (View.ofScreen screen s.offset) = none ↔
      s.editorCursor? (View.ofScreen screen s.offset) = none := by
  unfold popupLayers?
  cases hcursor : s.editorCursor? (View.ofScreen screen s.offset) with
  | none => exact iff_of_true rfl rfl
  | some shown =>
    refine iff_of_false ?_ nofun
    cases shown with
    | none => nofun
    | some anchor =>
      have hroom : anchor.y + 12 ≤ maxWord := by
        obtain ⟨hcolumns, -, -, hanchor⟩ :=
          screen_of_cursor hscreen.x hscreen.y hscreen.cells hs.limited hcursor
        have hhigh := Nat.le_trans (Nat.mul_le_mul_right _ hcolumns) hscreen.cells
        unfold maxWord at *
        omega
      have hsuggestions (c : CompletionList) : ∀ item ∈ s.suggestions c.typed, item.Short :=
        fun item hitem => Suggestion.short_of_mem_all
          (List.mem_filter.mp (Suggestion.mem_filter_of_mem_suggest hitem)).1
      refine Option.isSome_iff_ne_none.mp ?_
      cases hlist : s.completion with
      | some c => exact CompletionPopup.isSome_layers? (hsuggestions c) hroom _ c.selected
      | none =>
        cases hhover : s.hover with
        | some h => exact HoverPopup.isSome_layers? (hs.short h hhover) hroom _
        | none => rfl

theorem editorCursor?_eq_none_iff (hs : s.Placed) (hscreen : IsScreen screen) :
    s.editorCursor? (View.ofScreen screen s.offset) = none ↔
      EditorArea.Overflows (s.focusedArea (View.ofScreen screen s.offset)) s.focusedEditor := by
  have hpanes : (View.ofScreen screen s.offset).panes.Within screen :=
    ⟨Nat.le_refl _, Nat.le_refl _, Nat.le_refl _,
      Nat.add_le_add_left (Nat.sub_le screen.height 1) _⟩
  have hfits := hpanes.fits hscreen.fits
  exact EditorArea.cursorPosition?_eq_none_iff ((within_focusedArea hfits hs.limited).fits hfits)

theorem template_eq_none_iff (hscreen : IsScreen screen) (b : TextBuffer) :
    (TemplateArea.box? screen).bind (TemplateArea.cursorPosition? · b) = none ↔
      (maxWord < screen.width * 70 ∨ maxWord < screen.height * 80) ∨
        ∃ box, TemplateArea.box? screen = some box ∧ TemplateArea.Overflows box b := by
  have hnone := Rect.centered?_eq_none_iff hscreen.fits (by decide : 70 ≤ 100)
    (by decide : 80 ≤ 100)
  rw [← hnone]
  cases hbox : TemplateArea.box? screen with
  | none => exact iff_of_true rfl (.inl hbox)
  | some box =>
    have hwithin := Rect.within_centered? hscreen.fits (by decide) (by decide) hbox
    have hfits := hwithin.fits hscreen.fits
    rw [Option.bind_some, TemplateArea.cursorPosition?_eq_none_iff hfits]
    refine ⟨fun h => .inr ⟨box, rfl, h⟩, fun h => ?_⟩
    obtain hnone | ⟨other, hother, hoverflows⟩ := h
    · exact absurd (hnone.symm.trans hbox) nofun
    · rwa [Option.some.inj hother]

/-- A frame is drawn unless it has a coordinate that is no word. -/
theorem frame?_eq_none_iff (hs : s.Placed) {width height : Nat} (hw : width ≤ maxWord)
    (hh : height ≤ maxWord) :
    s.frame? width height = none ↔ s.Overflows (Rect.ofSize 0 0 width height) := by
  have hscreen := isScreen_ofSize hw hh
  have hparts {v : View} {screen : Rect} {draw : List Layer → Option Position → Frame} :
      (s.overlay? v screen).bind (fun overlay => (s.cursor? v screen).bind fun cursor =>
          some (draw overlay cursor)) = none ↔
        s.overlay? v screen = none ∨ s.cursor? v screen = none := by
    cases s.overlay? v screen <;> cases s.cursor? v screen <;> simp
  refine hparts.trans ?_
  generalize Rect.ofSize 0 0 width height = screen at hscreen
  rw [overlay?, cursor?, Overflows]
  cases s.modal with
  | none =>
    dsimp only
    rw [popupLayers?_eq_none_iff hs hscreen, or_self, editorCursor?_eq_none_iff hs hscreen]
  | some modal =>
    cases modal with
    | compile =>
      dsimp only
      rw [← Rect.centered?_eq_none_iff hscreen.fits (by decide) (by decide), CompileModal.layers?]
      show (CompileModal.box? screen).bind _ = none ∨ _ ↔ CompileModal.box? screen = none
      cases CompileModal.box? screen <;> simp
    | template =>
      dsimp only
      rw [← template_eq_none_iff hscreen, TemplateModal.layers?]
      show (TemplateArea.box? screen).bind _ = none ∨ (TemplateArea.box? screen).bind _ = none ↔ _
      cases TemplateArea.box? screen <;> simp

/-! ### Steps -/

/-- The areas that the mouse points into are those of the last frame. -/
theorem view_step (h : s.offset.Limited) (e : Event) : (s.step e).view = s.view ∨
    ∃ width height, (s.step e).view =
      some (View.ofScreen (Rect.ofSize 0 0 width height) s.offset) := by
  have hstep := step_dividers h e
  have hview (t : Session) : t.view = t.dividers.view := rfl
  generalize hafter : (s.step e).dividers = after at hstep
  rw [hview (s.step e), hafter]
  cases hstep with
  | keep => exact .inl rfl
  | shift => exact .inl rfl
  | press => exact .inl rfl
  | release => exact .inl rfl
  | drag => exact .inl rfl
  | draw width height => exact .inr ⟨width, height, hafter ▸ rfl⟩

theorem limited_step (h : s.offset.Limited) (e : Event) : (s.step e).offset.Limited := by
  have hstep := step_dividers h e
  show (s.step e).dividers.offset.Limited
  generalize (s.step e).dividers = after at hstep
  cases hstep with
  | keep => exact h
  | shift => exact PaneOffset.limited_new _ _
  | press => exact h
  | release => exact h
  | drag _ _ _ _ _ hlimited => exact hlimited
  | draw => exact h

/-- A hover is one for a place in an editor. -/
theorem Popups.Step.short_hover {q : Popups} (hstep : s.popups.Step q)
    (h : ∀ h ∈ s.hover, h.Short) : ∀ h ∈ q.hover, h.Short := by
  have hrefreshed (p : Popups) (least : Nat) : (p.refreshed least).hover = p.hover := by
    unfold refreshed
    split <;> rfl
  cases hstep with
  | keep => exact h
  | close q _ _ hnone =>
    rw [hnone]
    nofun
  | closeList => exact h
  | closeHover => nofun
  | select => exact h
  | ask =>
    rw [hrefreshed]
    exact h
  | write q _ _ hnone =>
    rw [hrefreshed, hnone]
    nofun
  | showHover =>
    intro shown hshown
    cases hshown
    exact Hover.short_ofPosition ..

theorem Placed.step (hs : s.Placed) (e : Event) : (s.step e).Placed := by
  refine ⟨limited_step hs.limited e, ?_, ?_⟩
  · obtain hview | ⟨width, height, hview⟩ := view_step hs.limited e
    · exact hview ▸ hs.left
    · intro v hv
      obtain rfl : _ = v := Option.some.inj (hview.symm.trans hv)
      exact ⟨rfl, rfl⟩
  · cases hwheel : s.wheel? e with
    | none => exact (step_popups hwheel).short_hover hs.short
    | some move =>
      rw [step_wheel hwheel, hover_updateFocused]
      exact hs.short

theorem placed_start (r : RuleSet) (stack witness : Text) (template : Option Template) :
    (start r stack witness template).Placed where
  limited := PaneOffset.limited_centre
  left := nofun
  short := nofun

/-- A coordinate that an event makes the program compute is no word. -/
def LeavesWords (s : Session) : Event → Prop
  | .mouse .press p => ∃ v, s.view = some v ∧ s.modal = none ∧ v.quadrants.Overflows p
  | .draw width height => (s.layOut width height).Overflows (Rect.ofSize 0 0 width height)
  | _ => False

theorem outlives_press_iff (hs : s.Placed) (p : Position) :
    s.outlives (.mouse .press p) = true ↔ ¬ s.LeavesWords (.mouse .press p) := by
  simp only [outlives, LeavesWords]
  cases hview : s.view with
  | none =>
    refine iff_of_true rfl fun h => ?_
    obtain ⟨v, hv, -⟩ := h
    cases hv
  | some v =>
    cases hmodal : s.modal with
    | some modal =>
      refine iff_of_true rfl fun h => ?_
      obtain ⟨w, -, hlistens, -⟩ := h
      cases hlistens
    | none =>
      rw [outlivesPress_iff (hs.left v hview)]
      refine not_congr ⟨fun h => ⟨v, rfl, rfl, h⟩, fun h => ?_⟩
      obtain ⟨w, hw, -, hoverflows⟩ := h
      rwa [Option.some.inj hw]

/-- The program goes on after every event that does not leave the words. -/
theorem outlives_iff (hs : s.Placed) {e : Event} (he : e.InWords) :
    s.outlives e = true ↔ ¬ s.LeavesWords e := by
  cases e with
  | key k ctrl now => exact iff_of_true rfl id
  | tick now => exact iff_of_true rfl id
  | flush => exact iff_of_true rfl id
  | draw width height =>
    have hdrawn : (s.layOut width height).Placed := hs.step (.draw width height)
    show (Option.isSome _) = true ↔ ¬ Overflows _ _
    rw [← frame?_eq_none_iff hdrawn he.1 he.2, Option.isSome_iff_ne_none]
  | mouse action p =>
    cases action with
    | press => exact outlives_press_iff hs p
    | drag => exact iff_of_true rfl id
    | release => exact iff_of_true rfl id
    | scrollUp => exact iff_of_true rfl id
    | scrollDown => exact iff_of_true rfl id
    | other => exact iff_of_true rfl id

/-! ### Whole runs -/

theorem run?_cons (s : Session) (e : Event) (rest : List Event) :
    s.run? (e :: rest) = if s.outlives e then (s.step e).run? rest else none := by
  rw [run?, List.foldlM_cons, step?]
  split <;> rfl

/-- A session outlives each of several events. -/
def OutlivesAll (s : Session) (events : List Event) : Prop :=
  ∀ before e, before ++ [e] <+: events → (s.run before).outlives e = true

theorem outlivesAll_nil (s : Session) : s.OutlivesAll [] := by
  intro before e hbefore
  simp at hbefore

theorem outlivesAll_cons_iff {e : Event} {rest : List Event} :
    s.OutlivesAll (e :: rest) ↔ s.outlives e = true ∧ (s.step e).OutlivesAll rest := by
  refine ⟨fun h => ⟨h [] e (List.prefix_append [e] rest), fun before last hbefore => ?_⟩, ?_⟩
  · exact h (e :: before) last (List.cons_prefix_cons.mpr ⟨rfl, hbefore⟩)
  · intro h before last hbefore
    cases before with
    | nil =>
      obtain ⟨rfl, -⟩ := List.cons_prefix_cons.mp hbefore
      exact h.1
    | cons first before =>
      obtain ⟨rfl, hrest⟩ := List.cons_prefix_cons.mp hbefore
      exact h.2 before last hrest

/-- A run goes to its end when the program outlives every event of it. -/
theorem run?_eq_some_iff {events : List Event} :
    s.run? events = some t ↔ s.OutlivesAll events ∧ s.run events = t := by
  induction events generalizing s with
  | nil => exact Option.some_inj.trans (and_iff_right (outlivesAll_nil s)).symm
  | cons e rest ih =>
    rw [run?_cons, outlivesAll_cons_iff]
    by_cases he : s.outlives e = true
    · rw [if_pos he, and_iff_right he]
      exact ih
    · rw [if_neg he]
      exact iff_of_false nofun fun h => he h.1.1

theorem Placed.run (hs : s.Placed) (events : List Event) : (s.run events).Placed := by
  induction events generalizing s with
  | nil => exact hs
  | cons e rest ih => exact ih (hs.step e)

/-- **A run goes to its end just when no event on the way leaves the words**, and ends where every
other theorem about runs says. -/
theorem start_run?_eq_some_iff (r : RuleSet) (stack witness : Text) (template : Option Template)
    {events : List Event} (hevents : ∀ e ∈ events, e.InWords) :
    let s := start r stack witness template
    s.run? events = some t ↔
      (∀ before e, before ++ [e] <+: events → ¬ (s.run before).LeavesWords e) ∧
        s.run events = t := by
  intro s
  have hs := placed_start r stack witness template
  rw [run?_eq_some_iff]
  refine and_congr_left fun _ => forall_congr' fun before => forall_congr' fun e => ?_
  refine forall_congr' fun hprefix => outlives_iff (hs.run before) (hevents e ?_)
  exact hprefix.subset (List.mem_append_right before List.mem_cons_self)

end Session

end ScriptBench
