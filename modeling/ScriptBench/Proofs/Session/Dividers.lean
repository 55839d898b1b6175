import Mathlib.Data.List.Induction
import ScriptBench.Proofs.Layout.Offset
import ScriptBench.Proofs.Session.Popups
import ScriptBench.Proofs.Session.Surroundings

/-! Which divider moves with the mouse.

A divider is held from the press of the button on it up to the next press or release. The
session remembers by itself which one it drags, and its memory is that of the button as long
as it hears of every press and release. It does not always: under a modal the mouse is not
listened to, and a press beside the dividers does not end a drag. After such a slip a divider
moves that nobody holds; without one, the mouse moves the divider that is held and no other
(`run_drags`). -/
namespace ScriptBench

/-- Whether an event presses or releases the button of the mouse. -/
def Event.isButton : Event → Bool
  | .mouse .press _ => true
  | .mouse .release _ => true
  | _ => false

namespace Session

/-! ### What is dragged -/

/-- Of a session, where the dividers are and which one is dragged. -/
structure Dividers where
  offset : PaneOffset
  dragging : Option Divider
  view : Option View

def dividers (s : Session) : Dividers := ⟨s.offset, s.dragging, s.view⟩

/-- The divider under a place, in the areas of the last frame drawn. -/
def dividerUnder? (s : Session) (p : Position) : Option Divider :=
  (s.view.bind (·.quadrants.dividerAt? p)).join

variable {s t : Session}

theorem dividers_of_surroundings (h : t.surroundings = s.surroundings) :
    t.dividers = s.dividers :=
  congrArg (fun a : Surroundings => Dividers.mk a.offset a.dragging a.view) h

theorem dividers_flush (s : Session) : s.flush.dividers = s.dividers :=
  dividers_of_surroundings (surroundings_release s _)

theorem dividers_applyTemplate (s : Session) : s.applyTemplate.dividers = s.dividers := by
  unfold applyTemplate
  split
  · rename_i t _
    exact dividers_flush { s with template := some t, templateFlaw := none, modal := none }
  · rfl

theorem dividers_clearTemplate (s : Session) : s.clearTemplate.dividers = s.dividers :=
  dividers_flush { s with template := none, modal := none }

theorem dividers_templateKey (s : Session) (k : Key) (ctrl : Bool) :
    (s.templateKey k ctrl).dividers = s.dividers := by
  unfold templateKey
  split
  · rfl
  · split
    · split
      · exact dividers_applyTemplate s
      · exact dividers_clearTemplate s
      · rfl
    · split <;> rfl

theorem dividers_compileKey (s : Session) (k : Key) (ctrl : Bool) :
    (s.compileKey k ctrl).dividers = s.dividers := by
  unfold compileKey
  split <;> rfl

/-- A key leaves the dividers alone, or shifts them. -/
theorem dividers_handleKey (s : Session) (k : Key) (ctrl : Bool) (now : Nat) :
    (s.handleKey k ctrl now).dividers = s.dividers ∨
      ∃ dx dy, (s.handleKey k ctrl now).dividers =
        { s.dividers with offset := s.offset.shift dx dy } := by
  unfold handleKey
  split
  · exact .inl rfl
  · split
    · exact .inl (dividers_compileKey s k ctrl)
    · exact .inl (dividers_templateKey s k ctrl)
    · split
      · unfold controlKey
        split
        · exact .inl (dividers_flush s)
        · exact .inl rfl
        · exact .inl (dividers_of_surroundings (surroundings_complete s now))
        · exact .inr ⟨_, _, rfl⟩
        · exact .inr ⟨_, _, rfl⟩
        · exact .inr ⟨_, _, rfl⟩
        · exact .inr ⟨_, _, rfl⟩
        · exact .inl rfl
      · exact .inl (dividers_of_surroundings (surroundings_plainKey s k now))

/-- A press takes hold of the divider under it, and leaves the one that is dragged where there is
none under it. -/
theorem dividers_press (s : Session) (v : View) (p : Position) :
    (s.press v p).dividers =
      { s.dividers with dragging := (v.quadrants.dividerAt? p).join.or s.dragging } := by
  unfold press
  split
  · rename_i hd
    rw [hd]
    rfl
  · rename_i d hd
    rw [hd]
    rfl
  · rename_i hd
    rw [hd]
    split
    · exact dividers_of_surroundings (surroundings_click ..)
    · rfl

/-- A drag moves the divider that is dragged. -/
theorem dividers_drag (h : s.offset.Limited) (v : View) (p : Position) :
    (s.drag v p).dividers = s.dividers ∨
      ∃ d o, s.dragging = some d ∧ (s.drag v p).dividers = { s.dividers with offset := o } ∧
        s.offset.SameBut d o ∧ o.Limited := by
  unfold drag
  split
  · rename_i hd
    obtain ⟨hsame, hlimited⟩ := h.dragColumn p.x v.panes
    exact .inr ⟨.column, _, hd, rfl, hsame, hlimited⟩
  · rename_i hd
    obtain ⟨hsame, hlimited⟩ := h.dragRow p.y v.panes
    exact .inr ⟨.row, _, hd, rfl, hsame, hlimited⟩
  · exact .inl rfl

/-- The session listens to the mouse: a frame has been drawn, and no modal is open. -/
def Listens (s : Session) : Prop := s.view.isSome ∧ s.modal = none

/-- Everything that an event can do to the dividers. -/
inductive Dividers.Step (s : Session) : Event → Dividers → Prop where
  | keep {e : Event} (unheard : e.isButton → ¬ s.Listens) : Step s e s.dividers
  | shift (k : Key) (ctrl : Bool) (now : Nat) (dx dy : Int) :
      Step s (.key k ctrl now) { s.dividers with offset := s.offset.shift dx dy }
  | press (p : Position) (heard : s.Listens) :
      Step s (.mouse .press p) { s.dividers with dragging := (s.dividerUnder? p).or s.dragging }
  | release (p : Position) (heard : s.Listens) :
      Step s (.mouse .release p) { s.dividers with dragging := none }
  | drag (p : Position) (d : Divider) (dragged : s.dragging = some d) (o : PaneOffset)
      (same : s.offset.SameBut d o) (limited : o.Limited) :
      Step s (.mouse .drag p) { s.dividers with offset := o }
  | draw (width height : Nat) (v : View) :
      Step s (.draw width height) { s.dividers with view := some v }

theorem Dividers.Step.of_eq {e : Event} {d : Dividers} (h : d = s.dividers)
    (hunheard : e.isButton → ¬ s.Listens) : Step s e d := h ▸ .keep hunheard

theorem Dividers.step_handleMouse (h : s.offset.Limited) (action : MouseAction) (p : Position) :
    Step s (.mouse action p) (s.handleMouse action p).dividers := by
  unfold handleMouse
  split
  · rename_i v hview hmodal
    have hheard : s.Listens := ⟨Option.isSome_of_eq_some hview, hmodal⟩
    cases action with
    | press =>
      have hunder : s.dividerUnder? p = (v.quadrants.dividerAt? p).join := by
        rw [dividerUnder?, hview]
        rfl
      have hpress := dividers_press s v p
      rw [← hunder] at hpress
      exact hpress ▸ .press p hheard
    | drag =>
      obtain hsame | ⟨d, o, hd, ho, hsame, hlimited⟩ := dividers_drag h v p
      · exact .of_eq hsame nofun
      · exact ho ▸ .drag p d hd o hsame hlimited
    | release => exact .release p hheard
    | scrollUp => exact .of_eq (dividers_of_surroundings (surroundings_updateFocused s _)) nofun
    | scrollDown => exact .of_eq (dividers_of_surroundings (surroundings_updateFocused s _)) nofun
    | other => exact .keep nofun
  · rename_i hunheard
    refine .keep fun _ hheard => ?_
    obtain ⟨v, hview⟩ := Option.isSome_iff_exists.mp hheard.1
    exact hunheard v hview hheard.2

/-- What an event does to the dividers. -/
theorem step_dividers (h : s.offset.Limited) (e : Event) :
    Dividers.Step s e (s.step e).dividers := by
  cases e with
  | key k ctrl now =>
    obtain hsame | ⟨dx, dy, hshift⟩ := dividers_handleKey s k ctrl now
    · exact .of_eq hsame nofun
    · exact hshift ▸ .shift k ctrl now dx dy
  | mouse action p => exact Dividers.step_handleMouse h action p
  | tick now => exact .of_eq (dividers_of_surroundings (surroundings_release s _)) nofun
  | flush => exact .of_eq (dividers_flush s) nofun
  | draw width height => exact .draw width height _

/-- The dividers are within the limits, and one is dragged only once a frame has been drawn. -/
structure Dividers.Sound (d : Dividers) : Prop where
  limited : d.offset.Limited
  drawn : d.dragging.isSome → d.view.isSome

theorem Dividers.Sound.step (h : s.dividers.Sound) {e : Event} {d : Dividers}
    (hstep : Step s e d) : d.Sound := by
  cases hstep with
  | keep => exact h
  | shift => exact ⟨PaneOffset.limited_new _ _, h.drawn⟩
  | press p hheard => exact ⟨h.limited, fun _ => hheard.1⟩
  | release => exact ⟨h.limited, nofun⟩
  | drag p d _ o _ hlimited => exact ⟨hlimited, h.drawn⟩
  | draw => exact ⟨h.limited, fun _ => rfl⟩

theorem Dividers.sound_run (h : s.dividers.Sound) (events : List Event) :
    (s.run events).dividers.Sound := by
  induction events generalizing s with
  | nil => exact h
  | cons e rest ih => exact ih (h.step (step_dividers h.limited e))

/-! ### What is held -/

/-- A divider is held: the last press or release was a press on it. -/
def Held (s : Session) (seen : List Event) (d : Divider) : Prop :=
  ∃ before p after, seen = before ++ .mouse .press p :: after ∧
    (s.run before).dividerUnder? p = some d ∧ ∀ e ∈ after, e.isButton = false

variable {seen : List Event} {d : Divider}

/-- What is held after one more event: what it presses on, or else what was held, if it is
neither a press nor a release. -/
theorem held_append_singleton_iff {e : Event} :
    s.Held (seen ++ [e]) d ↔
      (∃ p, e = .mouse .press p ∧ (s.run seen).dividerUnder? p = some d) ∨
        e.isButton = false ∧ s.Held seen d := by
  constructor
  · rintro ⟨before, p, after, heq, hunder, hafter⟩
    cases after using List.reverseRecOn with
    | nil =>
      obtain ⟨rfl, hlast⟩ := List.append_inj' heq rfl
      exact .inl ⟨p, List.singleton_inj.mp hlast, hunder⟩
    | append_singleton rest last =>
      rw [← List.cons_append, ← List.append_assoc] at heq
      obtain ⟨rfl, hlast⟩ := List.append_inj' heq rfl
      obtain rfl := List.singleton_inj.mp hlast
      exact .inr ⟨hafter e (by simp), before, p, rest, rfl, hunder,
        fun e' he' => hafter e' (List.mem_append_left _ he')⟩
  · rintro (⟨p, rfl, hunder⟩ | ⟨hother, before, p, after, rfl, hunder, hafter⟩)
    · exact ⟨seen, p, [], rfl, hunder, nofun⟩
    · refine ⟨before, p, after ++ [e], by simp, hunder, fun e' he' => ?_⟩
      obtain he' | he' := List.mem_append.mp he'
      · exact hafter e' he'
      · rwa [List.mem_singleton.mp he']

theorem held_press_iff {p : Position} :
    s.Held (seen ++ [.mouse .press p]) d ↔ (s.run seen).dividerUnder? p = some d := by
  simp [held_append_singleton_iff, Event.isButton]

theorem not_held_release {p : Position} : ¬ s.Held (seen ++ [.mouse .release p]) d := by
  simp [held_append_singleton_iff, Event.isButton]

theorem held_other_iff {e : Event} (h : e.isButton = false) :
    s.Held (seen ++ [e]) d ↔ s.Held seen d := by
  rw [held_append_singleton_iff]
  constructor
  · rintro (⟨p, rfl, -⟩ | ⟨-, hheld⟩)
    · cases h
    · exact hheld
  · exact fun hheld => .inr ⟨h, hheld⟩

/-! ### Dragging what is held -/

/-- What the session drags is held. -/
def Follows (s : Session) (seen : List Event) : Prop :=
  ∀ d, (s.run seen).dragging = some d → s.Held seen d

/-- The mouse moves no divider but the one that is held. -/
def DragsHeld (s : Session) (seen : List Event) : Prop :=
  ∀ p, ((s.run seen).step (.mouse .drag p)).offset ≠ (s.run seen).offset →
    ∃ d, s.Held seen d ∧
      (s.run seen).offset.SameBut d ((s.run seen).step (.mouse .drag p)).offset

theorem Follows.dragsHeld (h : s.Follows seen) (hsound : (s.run seen).dividers.Sound) :
    s.DragsHeld seen := by
  intro p hmoved
  have hstep := step_dividers hsound.limited (.mouse .drag p)
  have hoffset (t : Session) : t.offset = t.dividers.offset := rfl
  rw [hoffset (step ..)] at hmoved ⊢
  generalize ((s.run seen).step (.mouse .drag p)).dividers = after at hstep hmoved
  cases hstep with
  | keep => exact (hmoved rfl).elim
  | drag p d hd o hsame => exact ⟨d, h d hd, hsame⟩

/-- The session goes on dragging a divider that is let go: the button is released or pressed
elsewhere under a modal, or it is pressed beside the dividers. -/
def Slips (s : Session) (e : Event) : Prop :=
  ∃ d, s.dragging = some d ∧
    match e with
    | .mouse .press p =>
      s.dividerUnder? p ≠ some d ∧ (s.modal.isSome ∨ s.dividerUnder? p = none)
    | .mouse .release _ => s.modal.isSome
    | _ => False

theorem Slips.isButton {e : Event} (h : s.Slips e) : e.isButton := by
  unfold Slips at h
  obtain ⟨d, -, h⟩ := h
  split at h
  · rfl
  · rfl
  · exact h.elim

theorem not_listens_iff (h : s.view.isSome) : ¬ s.Listens ↔ s.modal.isSome := by
  simp [Listens, h, Option.isSome_iff_ne_none]

/-- The session follows the button after one more event, unless it slips there. -/
theorem follows_append_iff (h : s.Follows seen) (hsound : (s.run seen).dividers.Sound)
    (e : Event) : s.Follows (seen ++ [e]) ↔ ¬ (s.run seen).Slips e := by
  have hstep := step_dividers hsound.limited e
  have hdragging (t : Session) : t.dragging = t.dividers.dragging := rfl
  simp only [Follows, run_append_singleton, hdragging (step ..)]
  generalize ((s.run seen).step e).dividers = after at hstep
  -- An event other than a press or release changes neither what is dragged nor what is held.
  have hsteady (hother : e.isButton = false) (hsame : after.dragging = (s.run seen).dragging) :
      (∀ d, after.dragging = some d → s.Held (seen ++ [e]) d) ↔ ¬ (s.run seen).Slips e := by
    refine iff_of_true (fun d hd => ?_) fun hslips => ?_
    · exact (held_other_iff hother).mpr (h d (hsame ▸ hd))
    · rw [hslips.isButton] at hother
      cases hother
  cases hstep with
  | keep hunheard =>
    have hmodal (hbutton : e.isButton) {d : Divider} (hd : (s.run seen).dragging = some d) :
        (s.run seen).modal.isSome :=
      (not_listens_iff (hsound.drawn (Option.isSome_of_eq_some hd))).mp (hunheard hbutton)
    cases e with
    | mouse action p =>
      cases action with
      | press =>
        simp only [held_press_iff]
        constructor
        · rintro hfollows ⟨d, hd, hbeside, -⟩
          exact hbeside (hfollows d hd)
        · intro hstays d hd
          refine Classical.byContradiction fun hbeside => hstays ?_
          exact ⟨d, hd, hbeside, .inl (hmodal rfl hd)⟩
      | release =>
        constructor
        · rintro hfollows ⟨d, hd, -⟩
          exact not_held_release (hfollows d hd)
        · exact fun hstays d hd => (hstays ⟨d, hd, hmodal rfl hd⟩).elim
      | _ => exact hsteady rfl rfl
    | _ => exact hsteady rfl rfl
  | shift => exact hsteady rfl rfl
  | press p hheard =>
    simp only [held_press_iff]
    constructor
    · rintro hfollows ⟨d, hd, hbeside, hmodal | hnone⟩
      · rw [hheard.2] at hmodal
        cases hmodal
      · refine hbeside (hfollows d ?_)
        rwa [hnone]
    · intro hstays d hd
      cases hunder : (s.run seen).dividerUnder? p with
      | some d' =>
        rw [hunder] at hd
        exact hd
      | none =>
        rw [hunder] at hd
        refine (hstays ⟨d, hd, ?_, .inr hunder⟩).elim
        rw [hunder]
        exact nofun
  | release p hheard =>
    refine iff_of_true nofun ?_
    rintro ⟨d, -, hmodal⟩
    rw [hheard.2] at hmodal
    cases hmodal
  | drag => exact hsteady rfl rfl
  | draw => exact hsteady rfl rfl

theorem follows_run (hsound : s.dividers.Sound) (hstart : s.dragging = none) {events : List Event}
    (hstays : ∀ seen e, seen ++ [e] <+: events → ¬ (s.run seen).Slips e) : s.Follows events := by
  induction events using List.reverseRecOn with
  | nil =>
    intro d hd
    rw [run, List.foldl_nil, hstart] at hd
    cases hd
  | append_singleton seen e ih =>
    have hseen := ih fun before e' hbefore =>
      hstays before e' (hbefore.trans (List.prefix_append seen [e]))
    exact (follows_append_iff hseen (Dividers.sound_run hsound seen) e).mpr
      (hstays seen e (List.prefix_refl _))

theorem Dividers.sound_start (r : RuleSet) (stack witness : Text) (template : Option Template) :
    (start r stack witness template).dividers.Sound :=
  ⟨PaneOffset.limited_centre, nofun⟩

/-- **The session drags the divider that is held, and the mouse moves no other, for as long as
the session does not slip: go on dragging a divider after it is let go.** -/
theorem run_drags (r : RuleSet) (stack witness : Text) (template : Option Template)
    (events : List Event) :
    (∀ seen, seen <+: events →
      (start r stack witness template).Follows seen ∧
        (start r stack witness template).DragsHeld seen) ↔
    ∀ seen e, seen ++ [e] <+: events → ¬ ((start r stack witness template).run seen).Slips e := by
  have hsound := Dividers.sound_start r stack witness template
  constructor
  · intro hdrags seen e hseen
    have hbefore := (hdrags seen ((List.prefix_append ..).trans hseen)).1
    exact (follows_append_iff hbefore (Dividers.sound_run hsound seen) e).mp (hdrags _ hseen).1
  · intro hstays seen hseen
    have hfollows := follows_run hsound rfl fun before e hbefore =>
      hstays before e (hbefore.trans hseen)
    exact ⟨hfollows, hfollows.dragsHeld (Dividers.sound_run hsound seen)⟩

/-- A frame is drawn, and the divider between the columns is dragged to the right. -/
def columnDragged : List Event :=
  [.draw 80 24, .mouse .press ⟨40, 5⟩, .mouse .drag ⟨50, 5⟩]

theorem run_drags_column :
    let s := start RuleSet.standard [] [] none
    (s.run columnDragged).offset = ⟨12, 0⟩ ∧
      ∀ seen, seen <+: columnDragged → s.Follows seen ∧ s.DragsHeld seen := by
  refine ⟨by decide +kernel, (run_drags RuleSet.standard [] [] none columnDragged).mpr ?_⟩
  rintro seen e ⟨rest, hrest⟩ hslips
  have hbutton := hslips.isButton
  obtain ⟨d, hd, -⟩ := hslips
  -- Nothing is dragged up to the press, and no button is pressed or released after it.
  match seen with
  | [] => cases hd
  | [e₁] =>
    rw [(List.cons.inj hrest).1] at hd
    cases hd
  | e₁ :: e₂ :: later =>
    have hmem : e ∈ [Event.mouse .drag ⟨50, 5⟩] := by
      simp only [columnDragged, List.cons_append, List.cons.injEq] at hrest
      rw [← hrest.2.2]
      simp
    rw [List.mem_singleton.mp hmem] at hbutton
    cases hbutton

/-- The button is released under a modal, and pressed again in an editor. -/
def lostRelease : List Event :=
  [.draw 80 24, .mouse .press ⟨40, 5⟩, .key (.char 'b') true 0, .mouse .release ⟨40, 5⟩,
    .key .esc false 0, .mouse .press ⟨10, 5⟩]

/-- After a release that is not heard, the mouse moves a divider though the last press was
beside the dividers. -/
theorem drag_afterLostRelease :
    ¬ (start RuleSet.standard [] [] none).DragsHeld lostRelease := by
  intro hdrags
  have hmoved : (((start RuleSet.standard [] [] none).run lostRelease).step
      (.mouse .drag ⟨50, 5⟩)).offset ≠
      ((start RuleSet.standard [] [] none).run lostRelease).offset := by decide +kernel
  obtain ⟨d, hheld, -⟩ := hdrags ⟨50, 5⟩ hmoved
  have hunder := (@held_press_iff _ lostRelease.dropLast d _).mp hheld
  have hbeside : ((start RuleSet.standard [] [] none).run lostRelease.dropLast).dividerUnder?
      ⟨10, 5⟩ = none := by decide +kernel
  rw [hbeside] at hunder
  cases hunder

end Session
end ScriptBench
