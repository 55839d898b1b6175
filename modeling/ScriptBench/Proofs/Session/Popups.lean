import ScriptBench.Proofs.Machine.History
import ScriptBench.Proofs.TextBuffer.FlatText
import ScriptBench.Proofs.TextBuffer.Movement

/-! What the popups over an editor are about.

A list of suggestions is for the word at the cursor, and a hover for the place of the
cursor. Whatever moves the cursor, changes the text or the focus closes them or makes them
anew, with one exception: the wheel moves the cursor under them. So they fit for as long as
no turn of the wheel takes the cursor to another word or place while they are open, and no
longer. `step_popups` says once, for all other events, what happens to the popups. -/
namespace ScriptBench.Session

/-- The popups, and what they depend on. -/
structure Popups where
  rules : RuleSet
  /-- The word at the cursor. -/
  typed : Text
  /-- The hover for the place of the cursor. -/
  here : Hover
  list : Option CompletionList
  hover : Option Hover

/-- The hover for the place of a buffer's cursor. -/
def hoverIn (s : Session) (b : TextBuffer) : Hover :=
  Hover.ofPosition s.rules b.lines b.row b.byteColumn

def popups (s : Session) : Popups where
  rules := s.rules
  typed := s.focusedEditor.typed
  here := s.hoverIn s.focusedEditor
  list := s.completion
  hover := s.hover

namespace Popups

def suggestions (p : Popups) (typed : Text) : List Suggestion :=
  Suggestion.suggest (Suggestion.all p.rules) typed

/-- The list for the word at the cursor, if it is long enough and has suggestions. -/
def refreshed (p : Popups) (least : Nat) : Popups :=
  if least ≤ p.typed.size && !(p.suggestions p.typed).isEmpty then
    let selected := match p.list with
      | some c => if c.typed = p.typed then c.selected else 0
      | none => 0
    { p with list := some ⟨p.typed, selected⟩ }
  else { p with list := none }

def select (p : Popups) (c : CompletionList) (selected : Nat) : Popups :=
  { p with list := some { c with selected } }

/-- The selection of a list goes one up or one down. -/
def Moves (p : Popups) (c : CompletionList) (selected : Nat) : Prop :=
  let count := (p.suggestions c.typed).length
  selected = selectAbove c.selected count ∨ selected = selectBelow c.selected count

/-- Everything that can happen to the popups when the wheel is not turned. -/
inductive Step (p : Popups) : Popups → Prop where
  | keep : Step p p
  | close (q : Popups) (rules : q.rules = p.rules) (list : q.list = none) (hover : q.hover = none) :
      Step p q
  | closeList : Step p { p with list := none }
  | closeHover : Step p { p with hover := none }
  | select (c : CompletionList) (opened : p.list = some c) (selected : Nat)
      (moved : p.Moves c selected) : Step p (p.select c selected)
  | ask : Step p (p.refreshed askingLeast)
  | write (q : Popups) (rules : q.rules = p.rules) (list : q.list = p.list)
      (hover : q.hover = none) : Step p (q.refreshed typingLeast)
  | showHover : Step p { p with list := none, hover := some p.here }

/-- The popups that are open are for the word and the place of the cursor. -/
structure Fit (p : Popups) : Prop where
  list : ∀ c, p.list = some c → c.typed = p.typed
  hover : ∀ h, p.hover = some h → h = p.here

variable {p q : Popups}

theorem Step.of_eq (h : q = p) : p.Step q := h ▸ .keep

theorem fit_of_none (hlist : p.list = none) (hhover : p.hover = none) : p.Fit where
  list := fun c hc => by
    rw [hlist] at hc
    cases hc
  hover := fun h hh => by
    rw [hhover] at hh
    cases hh

/-- A list that is made anew is for the word at the cursor. -/
theorem fit_refreshed (hhover : ∀ h, p.hover = some h → h = p.here) (least : Nat) :
    (p.refreshed least).Fit := by
  unfold refreshed
  split
  · refine ⟨fun c hc => ?_, hhover⟩
    cases hc
    rfl
  · refine ⟨fun c hc => ?_, hhover⟩
    cases hc

theorem Fit.step (h : p.Fit) (hstep : p.Step q) : q.Fit := by
  cases hstep with
  | keep => exact h
  | close q _ hlist hhover => exact fit_of_none hlist hhover
  | closeList => exact ⟨fun c hc => (Option.some_ne_none c hc.symm).elim, h.hover⟩
  | closeHover => exact ⟨h.list, fun v hv => (Option.some_ne_none v hv.symm).elim⟩
  | select c hc =>
    refine ⟨fun d hd => ?_, h.hover⟩
    cases hd
    exact h.list c hc
  | ask => exact fit_refreshed h.hover askingLeast
  | write q _ _ hhover =>
    refine fit_refreshed (fun v hv => ?_) typingLeast
    rw [hhover] at hv
    cases hv
  | showHover =>
    refine ⟨fun c hc => (Option.some_ne_none c hc.symm).elim, fun v hv => ?_⟩
    cases hv
    rfl

/-- When the cursor moves under the popups, those that are open fit if it is still at their
word and place. -/
theorem Fit.moved_iff (h : p.Fit) {typed : Text} {here : Hover} :
    ({ p with typed, here } : Popups).Fit ↔
      (p.list.isSome → typed = p.typed) ∧ (p.hover.isSome → here = p.here) := by
  constructor
  · intro hmoved
    constructor
    · intro hopen
      obtain ⟨c, hc⟩ := Option.isSome_iff_exists.mp hopen
      exact (hmoved.list c hc).symm.trans (h.list c hc)
    · intro hopen
      obtain ⟨v, hv⟩ := Option.isSome_iff_exists.mp hopen
      exact (hmoved.hover v hv).symm.trans (h.hover v hv)
  · rintro ⟨htyped, hhere⟩
    exact ⟨fun c hc => (h.list c hc).trans (htyped (Option.isSome_of_eq_some hc)).symm,
      fun v hv => (h.hover v hv).trans (hhere (Option.isSome_of_eq_some hv)).symm⟩

end Popups

variable {s : Session}

/-! ### Committing and evaluating -/

theorem popups_evaluate (s : Session) : s.evaluate.popups = s.popups := by
  have hrules : s.evaluate.rules = s.rules := Machine.evaluate_rules ..
  simp only [popups, hoverIn, hrules]
  rfl

theorem popups_release (s : Session) (r : Option PaneLines × Debouncer PaneLines) :
    (s.release r).popups = s.popups := by
  unfold release
  split
  · exact popups_evaluate _
  · rfl

theorem popups_flush (s : Session) : s.flush.popups = s.popups := popups_release s _

/-- Committing, evaluating and reporting leave the popups alone. -/
theorem popups_supplied (s : Session) (status : Status) :
    ({ s.flush.evaluate with status } : Session).popups = s.popups := by
  have hstatus : ({ s.flush.evaluate with status } : Session).popups = s.flush.evaluate.popups :=
    rfl
  rw [hstatus, popups_evaluate, popups_flush]

/-! ### Editing -/

theorem focusedEditor_updateFocused (s : Session) (f : TextBuffer → TextBuffer) :
    (s.updateFocused f).focusedEditor = f s.focusedEditor := by
  unfold updateFocused focusedEditor
  cases s.focus <;> rfl

theorem popups_updateFocused (s : Session) (f : TextBuffer → TextBuffer) :
    (s.updateFocused f).popups =
      { s.popups with typed := (f s.focusedEditor).typed, here := s.hoverIn (f s.focusedEditor) } := by
  unfold updateFocused
  cases hfocus : s.focus <;> simp only [popups, focusedEditor, hfocus] <;> rfl

theorem popups_refreshCompletion (s : Session) (least : Nat) :
    (s.refreshCompletion least).popups = s.popups.refreshed least := by
  have hsuggestions : s.popups.suggestions = s.suggestions := rfl
  have htyped : s.popups.typed = s.focusedEditor.typed := rfl
  rw [refreshCompletion, Popups.refreshed, hsuggestions, htyped]
  dsimp only
  split <;> rfl

theorem rules_updateFocused (s : Session) (f : TextBuffer → TextBuffer) :
    (s.updateFocused f).rules = s.rules :=
  congrArg Popups.rules (popups_updateFocused s f)

theorem completion_updateFocused (s : Session) (f : TextBuffer → TextBuffer) :
    (s.updateFocused f).completion = s.completion :=
  congrArg Popups.list (popups_updateFocused s f)

theorem hover_updateFocused (s : Session) (f : TextBuffer → TextBuffer) :
    (s.updateFocused f).hover = s.hover :=
  congrArg Popups.hover (popups_updateFocused s f)

/-- An edit closes the hover, so nothing is left open when it closes the list. -/
theorem Popups.step_edited (s : Session) (f : TextBuffer → TextBuffer) (now : Nat) :
    s.popups.Step ((({ s with completion := none } : Session).updateFocused f).edited now).popups :=
  .close _ (rules_updateFocused _ f) (completion_updateFocused _ f) rfl

theorem Popups.step_edit (s : Session) (f : TextBuffer → TextBuffer) (now : Nat) :
    s.popups.Step (s.edit f now).popups := by
  rw [edit, popups_refreshCompletion]
  exact .write _ (rules_updateFocused s f) (completion_updateFocused s f) rfl

theorem Popups.step_complete (s : Session) (now : Nat) :
    s.popups.Step (s.complete now).popups := by
  unfold complete
  split
  · have hask : s.popups.Step (s.refreshCompletion askingLeast).popups := by
      rw [popups_refreshCompletion]
      exact .ask
    dsimp only
    split
    · have hstatus (t : Session) : ({ t with status := .noSuggestions } : Session).popups = t.popups :=
        rfl
      rw [hstatus]
      exact hask
    · exact hask
  · dsimp only
    split
    · exact step_edited s _ now
    · exact .closeList

theorem Popups.step_toggleHover (s : Session) : s.popups.Step s.toggleHover.popups := by
  unfold toggleHover
  split
  · exact .closeHover
  · exact .showHover

/-! ### Keys -/

theorem Popups.step_controlKey (s : Session) (k : Key) (now : Nat) :
    s.popups.Step (s.controlKey k now).popups := by
  unfold controlKey
  split
  · have hrules : s.flush.rules = s.rules := congrArg Popups.rules (popups_flush s)
    exact .close _ hrules rfl rfl
  · exact .close _ rfl rfl rfl
  · exact step_complete s now
  all_goals exact .keep

theorem Popups.step_listKey {k : Key} {t : Session} (h : s.listKey? k = some t) :
    s.popups.Step t.popups := by
  unfold listKey? at h
  split at h
  · cases h
  · rename_i c hc
    dsimp only at h
    split at h <;> cases h
    · exact .select c hc _ (.inl rfl)
    · exact .select c hc _ (.inr rfl)
    · exact .closeList

theorem Popups.step_editorKey (s : Session) (k : Key) (now : Nat) :
    s.popups.Step (s.editorKey k now).popups := by
  unfold editorKey
  split
  · exact .close _ (rules_updateFocused s _) rfl rfl
  · split
    · exact .closeHover
    · exact step_complete s now
    · exact step_toggleHover s
    · exact .close _ rfl rfl rfl
    · exact .close _ rfl rfl rfl
    · exact step_edited s _ now
    · exact step_edit s _ now
    · exact step_edit s _ now
    · exact step_edit s _ now
    · exact .keep

theorem popups_applyTemplate (s : Session) : s.applyTemplate.popups = s.popups := by
  unfold applyTemplate
  split
  · exact popups_supplied ..
  · rfl

theorem popups_clearTemplate (s : Session) : s.clearTemplate.popups = s.popups :=
  popups_supplied { s with template := none, modal := none } _

theorem popups_templateKey (s : Session) (k : Key) (ctrl : Bool) :
    (s.templateKey k ctrl).popups = s.popups := by
  unfold templateKey
  split
  · rfl
  · split
    · split
      · exact popups_applyTemplate s
      · exact popups_clearTemplate s
      · rfl
    · split <;> rfl

theorem popups_compileKey (s : Session) (k : Key) (ctrl : Bool) :
    (s.compileKey k ctrl).popups = s.popups := by
  unfold compileKey
  split <;> rfl

theorem Popups.step_handleKey (s : Session) (k : Key) (ctrl : Bool) (now : Nat) :
    s.popups.Step (s.handleKey k ctrl now).popups := by
  unfold handleKey
  split
  · exact .keep
  · split
    · exact .of_eq (popups_compileKey s k ctrl)
    · exact .of_eq (popups_templateKey s k ctrl)
    · split
      · exact step_controlKey s k now
      · cases hlist : s.listKey? k with
        | some t => exact step_listKey hlist
        | none => exact step_editorKey s k now

/-! ### The mouse and frames -/

theorem Popups.step_click (s : Session) (pane : Pane) (area : Rect) (p : Position) :
    s.popups.Step (s.click pane area p).popups :=
  .close _ (rules_updateFocused _ _) (completion_updateFocused _ _) (hover_updateFocused _ _)

theorem Popups.step_press (s : Session) (v : View) (p : Position) :
    s.popups.Step (s.press v p).popups := by
  unfold press
  split
  · exact .keep
  · exact .keep
  · split
    · exact step_click ..
    · exact .keep

theorem popups_drag (s : Session) (v : View) (p : Position) : (s.drag v p).popups = s.popups := by
  unfold drag
  split <;> rfl

/-- What a turn of the wheel does to the cursor. -/
def wheel? (s : Session) (e : Event) : Option (TextBuffer → TextBuffer) :=
  match s.view, s.modal, e with
  | some _, none, .mouse .scrollUp _ => some TextBuffer.moveUp
  | some _, none, .mouse .scrollDown _ => some TextBuffer.moveDown
  | _, _, _ => none

theorem step_wheel {e : Event} {move : TextBuffer → TextBuffer} (h : s.wheel? e = some move) :
    s.step e = s.updateFocused move := by
  unfold wheel? at h
  split at h
  · rename_i hview hmodal
    cases h
    simp [step, handleMouse, hview, hmodal]
  · rename_i hview hmodal
    cases h
    simp [step, handleMouse, hview, hmodal]
  · cases h

theorem Popups.step_handleMouse {action : MouseAction} {p : Position}
    (h : s.wheel? (.mouse action p) = none) : s.popups.Step (s.handleMouse action p).popups := by
  unfold handleMouse
  split
  · rename_i v hview hmodal
    cases action with
    | press => exact step_press s v p
    | drag => exact .of_eq (popups_drag s v p)
    | release => exact .keep
    | scrollUp => simp [wheel?, hview, hmodal] at h
    | scrollDown => simp [wheel?, hview, hmodal] at h
    | other => exact .keep
  · exact .keep

theorem popups_layOut (s : Session) (width height : Nat) :
    (s.layOut width height).popups = s.popups := by
  obtain ⟨stackScroll, hstack⟩ := s.stackEditor.exists_scrollToCursor
    ((View.ofScreen (Rect.ofSize 0 0 width height) s.offset).quadrants.stackEditor.height - 2)
  obtain ⟨witnessScroll, hwitness⟩ := s.witnessEditor.exists_scrollToCursor
    ((View.ofScreen (Rect.ofSize 0 0 width height) s.offset).quadrants.witnessEditor.height - 2)
  simp only [layOut, popups, hoverIn, focusedEditor, hstack, hwitness]
  cases s.focus <;> rfl

/-- Every event other than a turn of the wheel is a step of the popups. -/
theorem step_popups {e : Event} (h : s.wheel? e = none) : s.popups.Step (s.step e).popups := by
  cases e with
  | key k ctrl now => exact Popups.step_handleKey s k ctrl now
  | mouse action p => exact Popups.step_handleMouse h
  | tick now => exact .of_eq (popups_release s _)
  | flush => exact .of_eq (popups_flush s)
  | draw width height => exact .of_eq (popups_layOut s width height)

/-! ### Popups that fit -/

/-- The wheel is turned and takes the cursor to another word while a list is open, or to
another place while a hover is open. -/
def Strays (s : Session) (e : Event) : Prop :=
  ∃ move, s.wheel? e = some move ∧
    (s.completion.isSome ∧ (move s.focusedEditor).typed ≠ s.focusedEditor.typed ∨
      s.hover.isSome ∧ s.hoverIn (move s.focusedEditor) ≠ s.hoverIn s.focusedEditor)

/-- The popups that are open still fit after an event, unless the wheel strays. -/
theorem fit_step_iff (h : s.popups.Fit) (e : Event) : (s.step e).popups.Fit ↔ ¬ s.Strays e := by
  cases hwheel : s.wheel? e with
  | none =>
    have hstays : ¬ s.Strays e := by
      rintro ⟨move, hmove, -⟩
      rw [hwheel] at hmove
      cases hmove
    exact iff_of_true (h.step (step_popups hwheel)) hstays
  | some move =>
    have hstrays : s.Strays e ↔
        s.completion.isSome ∧ (move s.focusedEditor).typed ≠ s.focusedEditor.typed ∨
          s.hover.isSome ∧ s.hoverIn (move s.focusedEditor) ≠ s.hoverIn s.focusedEditor := by
      simp [Strays, hwheel]
    rw [step_wheel hwheel, popups_updateFocused, h.moved_iff, hstrays]
    simp only [not_or, not_and, Classical.not_not]
    rfl

/-! ### Accepting -/

/-- Accepting the selected suggestion puts its expansion where the word of the list was. -/
def AcceptsInPlace (s : Session) : Prop :=
  ∀ c item now, s.completion = some c → (s.suggestions c.typed)[c.selected]? = some item →
    ∃ front ind, s.focusedEditor.flat.before = front ++ c.typed ∧
      let e := Expansion.ofSnippet item.body.toList
      (s.complete now).focusedEditor.flat =
        ⟨front ++ TextBuffer.indented ind e.before,
          TextBuffer.indented ind (e.placeholder ++ e.after) ++ s.focusedEditor.flat.after⟩

theorem focusedEditor_edited (s : Session) (now : Nat) :
    (s.edited now).focusedEditor = s.focusedEditor := rfl

theorem Popups.Fit.acceptsInPlace (h : s.popups.Fit) : s.AcceptsInPlace := by
  intro c item now hc hitem
  obtain ⟨front, ind, hfront, hflat⟩ := s.focusedEditor.exists_flat_applyCompletion
    (Expansion.ofSnippet item.body.toList)
  have htyped : c.typed = s.focusedEditor.typed := h.list c hc
  refine ⟨front, ind, ?_, ?_⟩
  · rw [htyped]
    exact hfront
  · dsimp only
    rw [complete, hc]
    simp only [hitem]
    rw [focusedEditor_edited, focusedEditor_updateFocused]
    exact hflat

/-! ### Whole runs -/

theorem run_append (s : Session) (events later : List Event) :
    s.run (events ++ later) = (s.run events).run later :=
  List.foldl_append

theorem run_append_singleton (s : Session) (events : List Event) (e : Event) :
    s.run (events ++ [e]) = (s.run events).step e := by
  rw [run, List.foldl_append]
  rfl

theorem fit_run (h : s.popups.Fit) {events : List Event}
    (hstays : ∀ seen e, seen ++ [e] <+: events → ¬ (s.run seen).Strays e) :
    (s.run events).popups.Fit := by
  induction events generalizing s with
  | nil => exact h
  | cons e rest ih =>
    have hstep := (fit_step_iff h e).mpr (hstays [] e (List.prefix_append [e] rest))
    refine ih hstep fun seen e' hseen => hstays (e :: seen) e' ?_
    exact List.cons_prefix_cons.mpr ⟨rfl, hseen⟩

theorem fit_start (r : RuleSet) (stack witness : Text) (template : Option Template) :
    (start r stack witness template).popups.Fit :=
  Popups.fit_of_none rfl rfl

/-- **The popups are for the word and the place of the cursor, and a suggestion takes the place
of that word, for as long as the wheel does not take the cursor away under them.** -/
theorem run_popups (r : RuleSet) (stack witness : Text) (template : Option Template)
    (events : List Event) :
    (∀ seen, seen <+: events →
      ((start r stack witness template).run seen).popups.Fit ∧
        ((start r stack witness template).run seen).AcceptsInPlace) ↔
    ∀ seen e, seen ++ [e] <+: events → ¬ ((start r stack witness template).run seen).Strays e := by
  constructor
  · intro hfits seen e hseen
    have hbefore := (hfits seen ((List.prefix_append ..).trans hseen)).1
    have hafter := (hfits (seen ++ [e]) hseen).1
    rw [run_append_singleton] at hafter
    exact (fit_step_iff hbefore e).mp hafter
  · intro hstays seen hseen
    have hfit := fit_run (fit_start r stack witness template) fun before e hbefore =>
      hstays before e (hbefore.trans hseen)
    exact ⟨hfit, hfit.acceptsInPlace⟩

/-- The list opens for a word that is long enough and has a suggestion. -/
theorem refreshCompletion_of_mem {least : Nat} {item : Suggestion}
    (hleast : least ≤ s.focusedEditor.typed.size)
    (hitem : item ∈ s.suggestions s.focusedEditor.typed) (hclosed : s.completion = none) :
    s.refreshCompletion least = { s with completion := some ⟨s.focusedEditor.typed, 0⟩ } := by
  have hsome : (s.suggestions s.focusedEditor.typed).isEmpty = false :=
    List.isEmpty_eq_false_iff.mpr (List.ne_nil_of_mem hitem)
  simp [refreshCompletion, hleast, hsome, hclosed]

theorem mem_suggest {items : List Suggestion} {typed : Text} {item : Suggestion}
    (hmem : item ∈ items) (htyped : typed ≠ []) (hmatch : Suggestion.matchesTyped typed item) :
    item ∈ Suggestion.suggest items typed := by
  rw [Suggestion.suggest, if_neg (by simpa using htyped), List.mem_mergeSort]
  exact List.mem_filter.mpr ⟨hmem, hmatch⟩

theorem handleKey_char (hmodal : s.modal = none) (hclosed : s.completion = none) (c : Char)
    (now : Nat) : s.handleKey (.char c) false now = s.edit (·.insertChar c) now := by
  unfold handleKey
  simp only [hmodal, listKey?, hclosed]
  rfl

/-- A letter is typed above an empty line. -/
def oneLetter : Session :=
  (start RuleSet.standard ['\n'] [] none).run [.draw 80 24, .key (.char 'O') false 0]

/-- Another one makes it a word that has suggestions. -/
def twoLetters : Session := (oneLetter.updateFocused (·.insertChar 'P')).edited 0

theorem twoLetters_list :
    twoLetters.refreshCompletion typingLeast =
      { twoLetters with completion := some ⟨['O', 'P'], 0⟩ } := by
  have htyped : twoLetters.focusedEditor.typed = ['O', 'P'] := by decide +kernel
  have hitem : Suggestion.ofOpcode RuleSet.standard "OP_0" 0 ∈
      twoLetters.suggestions twoLetters.focusedEditor.typed := by
    rw [htyped]
    exact mem_suggest (by decide +kernel) (by decide) (by decide +kernel)
  have hlong : typingLeast ≤ twoLetters.focusedEditor.typed.size := by decide +kernel
  have hlist := refreshCompletion_of_mem hlong hitem (by decide +kernel)
  rwa [htyped] at hlist

/-- A word is typed above an empty line, and a list opens for it. -/
def wordTyped : List Event :=
  [.draw 80 24, .key (.char 'O') false 0, .key (.char 'P') false 0]

theorem run_wordTyped :
    (start RuleSet.standard ['\n'] [] none).run wordTyped =
      { twoLetters with completion := some ⟨['O', 'P'], 0⟩ } := by
  have hrun (s : Session) (e f g : Event) : s.run [e, f, g] = (s.run [e, f]).step g := rfl
  rw [wordTyped, hrun, ← oneLetter]
  exact (handleKey_char (by decide +kernel) (by decide +kernel) 'P' 0).trans twoLetters_list

theorem run_popups_wordTyped :
    let s := (start RuleSet.standard ['\n'] [] none).run wordTyped
    s.completion = some ⟨['O', 'P'], 0⟩ ∧ s.popups.Fit ∧ s.AcceptsInPlace := by
  have hstays : ∀ seen e, seen ++ [e] <+: wordTyped →
      ¬ ((start RuleSet.standard ['\n'] [] none).run seen).Strays e := by
    rintro seen e hseen ⟨move, hwheel, -⟩
    have hmem : e ∈ wordTyped := hseen.mem (by simp)
    simp only [wordTyped, List.mem_cons, List.not_mem_nil, or_false] at hmem
    obtain rfl | rfl | rfl := hmem <;> simp [wheel?] at hwheel
  have hfits := (run_popups RuleSet.standard ['\n'] [] none wordTyped).mpr hstays wordTyped
    (List.prefix_refl wordTyped)
  refine ⟨?_, hfits⟩
  rw [run_wordTyped]

/-- The wheel takes the cursor off the word that the list stays open for. -/
theorem run_wheelUnderList :
    ¬ ((start RuleSet.standard ['\n'] [] none).run
      (wordTyped ++ [.mouse .scrollDown ⟨0, 0⟩])).popups.Fit := by
  have hfit : ({ twoLetters with completion := some ⟨['O', 'P'], 0⟩ } : Session).popups.Fit := by
    rw [← twoLetters_list, popups_refreshCompletion]
    exact Popups.fit_refreshed (fun v hv => by cases hv) typingLeast
  have hmoves : twoLetters.focusedEditor.moveDown.typed ≠ twoLetters.focusedEditor.typed := by
    decide +kernel
  have hview : twoLetters.view.isSome := by decide +kernel
  have hmodal : twoLetters.modal = none := by decide +kernel
  rw [run_append_singleton, run_wordTyped, fit_step_iff hfit, Classical.not_not]
  obtain ⟨v, hv⟩ := Option.isSome_iff_exists.mp hview
  refine ⟨TextBuffer.moveDown, ?_, .inl ⟨rfl, hmoves⟩⟩
  simp [wheel?, hv, hmodal]

end ScriptBench.Session
