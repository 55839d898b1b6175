import ScriptBench.Proofs.Opcode.Table
import ScriptBench.Proofs.Session.Core
import ScriptBench.Proofs.Session.Popups
import ScriptBench.Proofs.Session.Surroundings
import ScriptBench.Proofs.TextBuffer.Typing

/-! Accepting a suggestion for a word that has just been typed.

The suggestion takes the place of the word, and of nothing else: what typing the word closed
stays where it is. So the text is the one before the word was typed, with the suggestion at
the cursor, exactly when the word closed nothing; a bracket leaves another one behind the
suggestion, and the word of a conditional another end of the block below it. -/
namespace ScriptBench

namespace Suggestion

/-- The words of opcodes are suggested for no word in a bracket. -/
theorem filter_all_bracket (r : RuleSet) (w : Text) :
    (all r).filter (matchesTyped ('<' :: w)) = snippets.filter (matchesTyped ('<' :: w)) := by
  rw [all, List.filter_append, List.filter_eq_nil_iff.mpr, List.nil_append]
  intro item hitem hmatch
  obtain ⟨⟨word, byte⟩, hword, rfl⟩ := List.mem_map.mp hitem
  obtain ⟨o, ho, hmem⟩ := RuleSet.exists_of_mem_words hword
  dsimp only [ofOpcode, matchesTyped] at hmatch
  rw [Opcode.toList_of_mem_words (RuleSet.mem_opcodes ho) hmem] at hmatch
  cases hmatch

/-- What is suggested for a word in a bracket is a literal on one line, and the word does not
begin with that of a conditional. -/
theorem literal_of_matchesTyped {item : Suggestion} (hitem : item ∈ snippets) {w : Text}
    (hmatch : matchesTyped ('<' :: w) item = true) :
    '\n' ∉ (Expansion.ofSnippet item.body.toList).text ∧
      ∀ o ∈ FlatText.blockOpeners, ¬ o <+: w := by
  have htable : ∀ item ∈ snippets, (upper item.label.toList).head? = some '<' →
      '\n' ∉ (Expansion.ofSnippet item.body.toList).text ∧
        (upper item.label.toList)[1]? ≠ some 'O' := by decide +kernel
  have hopeners : ∀ o ∈ FlatText.blockOpeners, (upper o).head? = some 'O' := by decide +kernel
  obtain ⟨rest, hrest⟩ := Option.isSome_iff_exists.mp hmatch
  have hlabel : upper item.label.toList = '<' :: (upper w ++ rest) :=
    Text.eq_append_of_stripStart? hrest
  obtain ⟨hline, hsecond⟩ := htable item hitem (by rw [hlabel]; rfl)
  refine ⟨hline, ?_⟩
  rintro o ho ⟨more, rfl⟩
  obtain ⟨tail, htail⟩ := List.head?_eq_some_iff.mp (hopeners o ho)
  refine hsecond ?_
  rw [hlabel, upper, List.map_append, ← upper, htail]
  rfl

theorem mem_filter_of_mem_suggest {items : List Suggestion} {typed : Text} {item : Suggestion}
    (h : item ∈ suggest items typed) : item ∈ items.filter (matchesTyped typed) := by
  unfold suggest at h
  split at h
  · cases h
  · exact List.mem_mergeSort.mp h

theorem literal_of_mem_suggest {r : RuleSet} {item : Suggestion} {w : Text}
    (h : item ∈ suggest (all r) ('<' :: w)) :
    '\n' ∉ (Expansion.ofSnippet item.body.toList).text ∧
      ∀ o ∈ FlatText.blockOpeners, ¬ o <+: w := by
  have hmem := mem_filter_of_mem_suggest h
  rw [filter_all_bracket, List.mem_filter] at hmem
  exact literal_of_matchesTyped hmem.1 hmem.2

end Suggestion

namespace Event

/-- A key without control that neither closes a modal nor breaks a line. -/
def IsPlain (e : Event) : Prop := ∃ k now, e = .key k false now ∧ k ≠ .esc ∧ k ≠ .enter

/-- A key that goes up or down in an open list. -/
def IsArrow (e : Event) : Prop := ∃ now, e = .key .up false now ∨ e = .key .down false now

theorem IsArrow.isPlain {e : Event} (h : e.IsArrow) : e.IsPlain := by
  obtain ⟨now, rfl | rfl⟩ := h
  · exact ⟨.up, now, rfl, nofun, nofun⟩
  · exact ⟨.down, now, rfl, nofun, nofun⟩

end Event

namespace Session

variable {s : Session}

/-! ### Lists of suggestions -/

/-- The selection of an open list is one of its suggestions. -/
def Popups.Selects (p : Popups) : Prop :=
  ∀ c, p.list = some c → c.selected < (p.suggestions c.typed).length

theorem Popups.suggestions_of_rules {p q : Popups} (h : q.rules = p.rules) :
    q.suggestions = p.suggestions := by
  unfold suggestions
  rw [h]

theorem Popups.selects_of_none {p : Popups} (h : p.list = none) : p.Selects := by
  intro c hc
  rw [h] at hc
  cases hc

theorem Popups.Selects.refreshed {p : Popups} (h : p.Selects) (least : Nat) :
    (p.refreshed least).Selects := by
  unfold Popups.refreshed
  split
  · rename_i hopens
    have hsome : 0 < (p.suggestions p.typed).length := by
      rw [Bool.and_eq_true, Bool.not_eq_true', List.isEmpty_eq_false_iff] at hopens
      exact List.length_pos_iff.mpr hopens.2
    rintro c hc
    cases hc
    dsimp only
    -- The selection is kept for the same word, and is the first one for another.
    split
    · rename_i c hlist
      split
      · rename_i htyped
        exact htyped ▸ h c hlist
      · exact hsome
    · exact hsome
  · exact selects_of_none rfl

theorem Popups.Selects.step {p q : Popups} (h : p.Selects) (hstep : p.Step q) : q.Selects := by
  cases hstep with
  | keep => exact h
  | close q _ hlist _ => exact selects_of_none hlist
  | closeList => exact selects_of_none rfl
  | closeHover => exact h
  | select c hc selected hmoves =>
    rintro c' hc'
    cases hc'
    have hbound := h c hc
    change selected < (p.suggestions c.typed).length
    obtain rfl | rfl := hmoves
    · unfold selectAbove
      split <;> omega
    · unfold selectBelow
      split <;> omega
  | ask => exact h.refreshed askingLeast
  | write q hrules hlist _ =>
    refine Selects.refreshed (fun c hc => ?_) typingLeast
    rw [suggestions_of_rules hrules]
    exact h c (hlist ▸ hc)
  | showHover => exact selects_of_none rfl

theorem selects_step (h : s.popups.Selects) (e : Event) : (s.step e).popups.Selects := by
  cases hwheel : s.wheel? e with
  | none => exact h.step (step_popups hwheel)
  | some move =>
    rw [step_wheel hwheel, popups_updateFocused]
    exact h

/-- No list is open under a modal. -/
def ListsAlone (s : Session) : Prop := s.modal.isSome → s.completion = none

theorem modal_of_surroundings {t : Session} (h : t.surroundings = s.surroundings) :
    t.modal = s.modal :=
  congrArg Surroundings.modal h

theorem completion_of_popups {t : Session} (h : t.popups = s.popups) :
    t.completion = s.completion :=
  congrArg Popups.list h

/-- With no modal open, there is nothing that a list is open under. -/
theorem listsAlone_of_modal (h : s.modal = none) : s.ListsAlone := by
  intro hmodal
  rw [h] at hmodal
  cases hmodal

theorem listsAlone_controlKey (hmodal : s.modal = none) (k : Key) (now : Nat) :
    (s.controlKey k now).ListsAlone := by
  unfold controlKey
  split
  · exact fun _ => rfl
  · exact fun _ => rfl
  · exact listsAlone_of_modal ((modal_of_surroundings (surroundings_complete s now)).trans hmodal)
  all_goals exact listsAlone_of_modal hmodal

theorem ListsAlone.handleKey (h : s.ListsAlone) (k : Key) (ctrl : Bool) (now : Nat) :
    (s.handleKey k ctrl now).ListsAlone := by
  unfold Session.handleKey
  split
  · exact h
  · split
    · rename_i hmodal
      have hclosed : s.completion = none := h (by rw [hmodal]; rfl)
      exact fun _ => (completion_of_popups (popups_compileKey s k ctrl)).trans hclosed
    · rename_i hmodal
      have hclosed : s.completion = none := h (by rw [hmodal]; rfl)
      exact fun _ => (completion_of_popups (popups_templateKey s k ctrl)).trans hclosed
    · rename_i hmodal
      split
      · exact listsAlone_controlKey hmodal k now
      · exact listsAlone_of_modal
          ((modal_of_surroundings (surroundings_plainKey s k now)).trans hmodal)

theorem ListsAlone.handleMouse (h : s.ListsAlone) (action : MouseAction) (p : Position) :
    (s.handleMouse action p).ListsAlone := by
  by_cases hmodal : s.modal = none
  · have hcore : (s.handleMouse action p).modal = s.modal :=
      congrArg Core.modal (core_handleMouse s action p)
    exact listsAlone_of_modal (hcore.trans hmodal)
  · unfold Session.handleMouse
    split
    · rename_i hnone
      exact absurd hnone hmodal
    · exact h

theorem ListsAlone.step (h : s.ListsAlone) (e : Event) : (s.step e).ListsAlone := by
  have hrelease (r : Option PaneLines × Debouncer PaneLines) : (s.release r).ListsAlone := by
    rw [ListsAlone, modal_of_surroundings (surroundings_release s r),
      completion_of_popups (popups_release s r)]
    exact h
  cases e with
  | key k ctrl now => exact h.handleKey k ctrl now
  | mouse action p => exact h.handleMouse action p
  | tick now => exact hrelease _
  | flush => exact hrelease _
  | draw width height => exact h

/-- In every session, no list is open under a modal, and the selection of an open list is one of
its suggestions. -/
theorem run_lists (r : RuleSet) (stack witness : Text) (template : Option Template)
    (events : List Event) :
    ((start r stack witness template).run events).ListsAlone ∧
      ((start r stack witness template).run events).popups.Selects := by
  have hstart : (start r stack witness template).ListsAlone ∧
      (start r stack witness template).popups.Selects :=
    ⟨fun _ => rfl, Popups.selects_of_none rfl⟩
  generalize start r stack witness template = s at hstart ⊢
  induction events generalizing s with
  | nil => exact hstart
  | cons e rest ih => exact ih (s.step e) ⟨hstart.1.step e, selects_step hstart.2 e⟩

/-! ### Typing and choosing -/

/-- Typing characters one by one, each at its time. -/
def typing (keys : List (Char × Nat)) : List Event := keys.map fun k => .key (.char k.1) false k.2

theorem focusedEditor_refreshCompletion (s : Session) (least : Nat) :
    (s.refreshCompletion least).focusedEditor = s.focusedEditor := by
  unfold refreshCompletion
  dsimp only
  split <;> rfl

theorem focusedEditor_edit (s : Session) (f : TextBuffer → TextBuffer) (now : Nat) :
    (s.edit f now).focusedEditor = f s.focusedEditor :=
  (focusedEditor_refreshCompletion _ _).trans (focusedEditor_updateFocused s f)

/-- A list that an edit leaves open is for the word at the cursor. -/
theorem typed_of_edit {f : TextBuffer → TextBuffer} {now : Nat} {c : CompletionList}
    (h : (s.edit f now).completion = some c) : c.typed = (s.edit f now).focusedEditor.typed := by
  have hfit : (s.edit f now).popups.Fit := by
    rw [edit, popups_refreshCompletion]
    exact Popups.fit_refreshed (fun v hv => by cases hv) typingLeast
  exact hfit.list c h

theorem step_char (h : s.modal = none) (c : Char) (now : Nat) :
    s.step (.key (.char c) false now) = s.edit (·.insertChar c) now := by
  have hlist : s.listKey? (.char c) = none := by
    unfold listKey?
    split <;> rfl
  simp only [step, handleKey, h, hlist]
  rfl

/-- A plain key neither opens nor closes a modal. -/
theorem modal_step_plain {e : Event} (he : e.IsPlain) : (s.step e).modal = s.modal := by
  obtain ⟨k, now, rfl, hesc, henter⟩ := he
  simp only [step, handleKey, Bool.false_and, Bool.false_eq_true, if_false]
  split
  · simp [compileKey, hesc, henter]
  · unfold templateKey
    rw [if_neg hesc, if_neg Bool.false_ne_true]
    split <;> rfl
  · exact modal_of_surroundings (surroundings_plainKey s k now)

theorem modal_run_plain {events : List Event} (h : ∀ e ∈ events, e.IsPlain) :
    (s.run events).modal = s.modal := by
  induction events generalizing s with
  | nil => rfl
  | cons e rest ih =>
    have hrest := ih (s := s.step e) fun e' he' => h e' (List.mem_cons_of_mem _ he')
    exact hrest.trans (modal_step_plain (h e List.mem_cons_self))

theorem isPlain_of_mem_typing {keys : List (Char × Nat)} {e : Event} (h : e ∈ typing keys) :
    e.IsPlain := by
  obtain ⟨k, -, rfl⟩ := List.mem_map.mp h
  exact ⟨.char k.1, k.2, rfl, nofun, nofun⟩

/-- Typing goes to the focused editor. -/
theorem run_typing (h : s.modal = none) (keys : List (Char × Nat)) :
    (s.run (typing keys)).modal = none ∧
      (s.run (typing keys)).focusedEditor =
        (keys.map Prod.fst).foldl TextBuffer.insertChar s.focusedEditor := by
  induction keys generalizing s with
  | nil => exact ⟨h, rfl⟩
  | cons k rest ih =>
    have hedit : (s.edit (·.insertChar k.1) k.2).modal = none :=
      (modal_of_surroundings (surroundings_edit s _ _)).trans h
    have hrest := ih hedit
    rw [focusedEditor_edit, ← step_char h] at hrest
    exact hrest

/-- The arrows move the selection of an open list; without one they move the cursor, and no list
is open after that. -/
theorem step_arrow {e : Event} (he : e.IsArrow) (h : s.modal = none) {c : CompletionList}
    (hopen : (s.step e).completion = some c) :
    ∃ c', s.completion = some c' ∧ c'.typed = c.typed ∧
      (s.step e).focusedEditor = s.focusedEditor := by
  obtain ⟨now, rfl | rfl⟩ := he
  all_goals
    simp only [step, handleKey, h] at hopen ⊢
    cases hlist : s.completion with
    | none =>
      simp [listKey?, hlist, editorKey, movement?, closePopups] at hopen
    | some c' =>
      simp only [listKey?, hlist] at hopen ⊢
      cases hopen
      exact ⟨c', rfl, rfl, rfl⟩

theorem run_arrows {arrows : List Event} (harrows : ∀ e ∈ arrows, e.IsArrow) (h : s.modal = none)
    {c : CompletionList} (hopen : (s.run arrows).completion = some c) :
    (s.run arrows).modal = none ∧ (s.run arrows).focusedEditor = s.focusedEditor ∧
      ∃ c', s.completion = some c' ∧ c'.typed = c.typed := by
  induction arrows generalizing s with
  | nil => exact ⟨h, rfl, c, hopen, rfl⟩
  | cons e rest ih =>
    have he := harrows e List.mem_cons_self
    have hstep : (s.step e).modal = none := (modal_step_plain he.isPlain).trans h
    obtain ⟨hmodal, heditor, c', hc', htyped⟩ :=
      ih (fun e' he' => harrows e' (List.mem_cons_of_mem _ he')) hstep hopen
    obtain ⟨c'', hc'', htyped', heditor'⟩ := step_arrow he h hc'
    exact ⟨hmodal, heditor.trans heditor', c'', hc'', htyped'.trans htyped⟩

/-- A list that is open after typing is for the word at the cursor. -/
theorem typed_of_typing {keys : List (Char × Nat)} (hkeys : keys ≠ []) (h : s.modal = none)
    {c : CompletionList} (hopen : (s.run (typing keys)).completion = some c) :
    c.typed = (s.run (typing keys)).focusedEditor.typed := by
  cases keys using List.reverseRecOn with
  | nil => exact absurd rfl hkeys
  | append_singleton front k =>
    have hrun : s.run (typing (front ++ [k])) =
        (s.run (typing front)).edit (·.insertChar k.1) k.2 := by
      rw [← step_char (run_typing h front).1, ← run_append_singleton, typing, List.map_append]
      rfl
    rw [hrun] at hopen ⊢
    exact typed_of_edit hopen

/-- Control and space accept the selected suggestion. -/
theorem focusedEditor_accept (h : s.modal = none) {c : CompletionList}
    (hopen : s.completion = some c) {item : Suggestion}
    (hitem : (s.suggestions c.typed)[c.selected]? = some item) (now : Nat) :
    (s.step (.key (.char ' ') true now)).focusedEditor =
      s.focusedEditor.applyCompletion (Expansion.ofSnippet item.body.toList) := by
  have hstep : s.step (.key (.char ' ') true now) = s.complete now := by
    simp only [step, handleKey, h]
    rfl
  rw [hstep, complete, hopen]
  simp only [hitem]
  rw [focusedEditor_edited, focusedEditor_updateFocused]
  rfl

end Session

namespace TextBuffer

/-- A word that a suggestion is for is typed as one: with a bracket in front of it or without,
and opening no block in the bracket. -/
theorem isTyped_of_mem_suggest {r : RuleSet} {b : TextBuffer} {item : Suggestion}
    (h : item ∈ Suggestion.suggest (Suggestion.all r) b.typed) : IsTyped b.typed := by
  obtain ⟨front, word, -, hword, htyped⟩ := b.exists_typed
  have hisWord : word.IsWord := by
    intro c hc
    rw [← List.mem_reverse, hword] at hc
    exact List.all_eq_true.mp List.all_takeWhile c hc
  rw [htyped] at h ⊢
  split
  · rename_i hbracket
    rw [if_pos hbracket] at h
    exact .inr ⟨word, rfl, hisWord, (Suggestion.literal_of_mem_suggest h).2⟩
  · exact .inl hisWord

end TextBuffer

namespace Session

variable {s : Session}

/-- Typing a word, choosing from its list and accepting, with no modal open. -/
theorem accept_typing (h : s.modal = none) (hbefore : s.focusedEditor.before.EndsApart)
    {keys : List (Char × Nat)} {arrows : List Event} (harrows : ∀ e ∈ arrows, e.IsArrow)
    {t : Session} (ht : t = s.run (typing keys ++ arrows)) {selected : Nat}
    (hopen : t.completion = some ⟨keys.map Prod.fst, selected⟩) {item : Suggestion}
    (hitem : (t.suggestions (keys.map Prod.fst))[selected]? = some item) (now : Nat) :
    TextBuffer.IsTyped (keys.map Prod.fst) ∧
      (t.step (.key (.char ' ') true now)).focusedEditor.text =
        (s.focusedEditor.closing (keys.map Prod.fst)).spliced s.focusedEditor.line
          (Expansion.ofSnippet item.body.toList) := by
  have hmem := List.mem_of_getElem? hitem
  have hkeys : keys ≠ [] := by
    rintro rfl
    cases hmem
  rw [ht, run_append] at hopen
  obtain ⟨htyping, hedited⟩ := run_typing h keys
  obtain ⟨hmodal, heditor, c, hc, hlist⟩ := run_arrows harrows htyping hopen
  rw [← run_append, ← ht] at hmodal heditor hopen
  -- The list is for the word at the cursor, and so the keys have typed one word.
  have htyped := typed_of_typing hkeys h hc
  rw [hlist] at htyped
  dsimp only at htyped
  have hword : TextBuffer.IsTyped (keys.map Prod.fst) := by
    rw [htyped]
    exact TextBuffer.isTyped_of_mem_suggest (htyped ▸ hmem)
  refine ⟨hword, ?_⟩
  rw [focusedEditor_accept hmodal hopen hitem, heditor, hedited]
  refine TextBuffer.text_applyCompletion_typed hbefore hword (hedited ▸ htyped.symm) fun hhead => ?_
  obtain ⟨w, hw⟩ := List.head?_eq_some_iff.mp hhead
  rw [hw] at hmem
  exact (Suggestion.literal_of_mem_suggest hmem).1

/-- **Accepting a suggestion for a word that has just been typed** puts the suggestion where the
word was typed and leaves what the word closed. It gives the text from before the word with the
suggestion at the cursor, and nothing else, exactly if the word has no bracket and opens no
block. -/
theorem run_accepts (r : RuleSet) (stack witness : Text) (template : Option Template)
    (events : List Event) (keys : List (Char × Nat)) (arrows : List Event) (selected now : Nat) :
    let s := (start r stack witness template).run events
    let b := s.focusedEditor
    let p := keys.map Prod.fst
    let t := s.run (typing keys ++ arrows)
    b.before.EndsApart → (∀ e ∈ arrows, e.IsArrow) → t.completion = some ⟨p, selected⟩ →
      ∃ item, (t.suggestions p)[selected]? = some item ∧
        let e := Expansion.ofSnippet item.body.toList
        let accepted := (t.step (.key (.char ' ') true now)).focusedEditor
        accepted.text = (b.closing p).spliced b.line e ∧
          (accepted.text = b.spliced b.line e ↔ p.head? ≠ some '<' ∧ ¬ b.OpensBlock p) := by
  intro s b p t hbefore harrows hopen
  have hrun : t = (start r stack witness template).run (events ++ (typing keys ++ arrows)) :=
    (run_append ..).symm
  obtain ⟨halone, hselects⟩ := hrun ▸ run_lists r stack witness template _
  -- Under a modal no list would be open after the typing, which leaves the modal as it is.
  have hmodal : s.modal = none := by
    have hsame : t.modal = s.modal := modal_run_plain fun e he =>
      (List.mem_append.mp he).elim isPlain_of_mem_typing fun he => (harrows e he).isPlain
    rw [← hsame]
    refine Option.not_isSome_iff_eq_none.mp fun hsome => ?_
    rw [halone hsome] at hopen
    cases hopen
  obtain ⟨item, hitem⟩ : ∃ item, (t.suggestions p)[selected]? = some item :=
    ⟨_, List.getElem?_eq_getElem (hselects _ hopen)⟩
  obtain ⟨hword, haccepted⟩ := accept_typing hmodal hbefore harrows rfl hopen hitem now
  refine ⟨item, hitem, haccepted, ?_⟩
  rw [haccepted]
  exact TextBuffer.spliced_closing_iff hword _ _

/-- A word that closes nothing gives way to its suggestion, and that is all. -/
theorem run_accepts_word :
    let s := (start RuleSet.standard ['\n'] [] none).run [.draw 80 24]
    let b := s.focusedEditor
    let t := s.run (typing [('O', 0), ('P', 0)] ++ [])
    b.before = [] ∧ t.completion = some ⟨['O', 'P'], 0⟩ ∧
      ∃ item, (t.suggestions ['O', 'P'])[0]? = some item ∧
        (t.step (.key (.char ' ') true 0)).focusedEditor.text =
          b.spliced b.line (Expansion.ofSnippet item.body.toList) := by
  have hbefore : ((start RuleSet.standard ['\n'] [] none).run
      [.draw 80 24]).focusedEditor.before = [] := by decide +kernel
  have hplain : ¬ ((start RuleSet.standard ['\n'] [] none).run
      [.draw 80 24]).focusedEditor.OpensBlock ['O', 'P'] := by decide +kernel
  have hkeys : wordTyped = [.draw 80 24] ++ (typing [('O', 0), ('P', 0)] ++ []) := rfl
  have hopen := congrArg Session.completion run_wordTyped
  rw [hkeys, run_append] at hopen
  obtain ⟨item, hitem, -, hiff⟩ := run_accepts RuleSet.standard ['\n'] [] none [.draw 80 24]
    [('O', 0), ('P', 0)] [] 0 0 (by rw [hbefore]; exact nofun) nofun hopen
  exact ⟨hbefore, hopen, item, hitem, hiff.mpr ⟨by decide, hplain⟩⟩

/-- A bracket is typed into an empty editor. -/
def bracketOpened : Session := (start RuleSet.standard [] [] none).run (typing [('<', 0)])

/-- A digit makes it a word that has suggestions. -/
def bracketTyped : Session := (bracketOpened.updateFocused (·.insertChar '0')).edited 0

theorem suggest_bracketTyped :
    Suggestion.suggest (Suggestion.all RuleSet.standard) ['<', '0'] =
      [Suggestion.snippets[3], Suggestion.snippets[2]] := by
  have hmatching : Suggestion.snippets.filter (Suggestion.matchesTyped ['<', '0']) =
      [Suggestion.snippets[2], Suggestion.snippets[3]] := by decide +kernel
  have horder : Suggestion.before Suggestion.snippets[2] Suggestion.snippets[3] = false := by
    decide +kernel
  rw [Suggestion.suggest, if_neg (by decide), Suggestion.filter_all_bracket, hmatching]
  simp [List.mergeSort, List.MergeSort.Internal.splitInTwo, horder]

theorem run_bracketTyped :
    (start RuleSet.standard [] [] none).run (typing [('<', 0), ('0', 0)]) =
      { bracketTyped with completion := some ⟨['<', '0'], 0⟩ } := by
  have htyped : bracketTyped.focusedEditor.typed = ['<', '0'] := by decide +kernel
  have hrules : bracketTyped.rules = RuleSet.standard := by decide +kernel
  have hitem : Suggestion.snippets[3] ∈
      bracketTyped.suggestions bracketTyped.focusedEditor.typed := by
    rw [htyped, suggestions, hrules, suggest_bracketTyped]
    exact List.mem_cons_self
  have hlist := @refreshCompletion_of_mem bracketTyped typingLeast _ (by rw [htyped]; decide) hitem
    (by decide +kernel)
  rw [htyped] at hlist
  have hkeys : typing [('<', 0), ('0', 0)] = typing [('<', 0)] ++ [.key (.char '0') false 0] := rfl
  rw [hkeys, run_append_singleton, ← bracketOpened, step_char (by decide +kernel)]
  exact hlist

/-- Another bracket is left behind the suggestion. -/
theorem accept_bracketTyped :
    let s := start RuleSet.standard [] [] none
    let t := s.run (typing [('<', 0), ('0', 0)])
    ∃ item, t.completion = some ⟨['<', '0'], 0⟩ ∧ (t.suggestions ['<', '0'])[0]? = some item ∧
      s.focusedEditor.spliced s.focusedEditor.line (Expansion.ofSnippet item.body.toList) =
        "<0b00000001>".toList ∧
      (t.step (.key (.char ' ') true 0)).focusedEditor.text = "<0b00000001>>".toList := by
  intro s t
  have ht : t = { bracketTyped with completion := some ⟨['<', '0'], 0⟩ } := run_bracketTyped
  have hopen : t.completion = some ⟨['<', '0'], 0⟩ := by rw [ht]
  have hitem : (t.suggestions ['<', '0'])[0]? = some Suggestion.snippets[3] := by
    have hrules : t.rules = RuleSet.standard := by
      rw [ht]
      decide +kernel
    rw [suggestions, hrules, suggest_bracketTyped]
    rfl
  refine ⟨_, hopen, hitem, by decide +kernel, ?_⟩
  rw [focusedEditor_accept (by rw [ht]; decide +kernel) hopen hitem, ht]
  decide +kernel

end Session
end ScriptBench
