import Mathlib.Data.List.Induction
import ScriptBench.Proofs.Text.Strip
import ScriptBench.Proofs.TextBuffer.FlatText
import ScriptBench.Proofs.TextBuffer.Rows

/-! What typing a word leaves around it.

Of the openers of pairs, only the words of the two conditionals are words throughout; so a
word that is typed after something else closes a pair exactly when it is one of those two, or
has been on the way. A bracket in front of the word closes at once. What closes a pair stays
behind the cursor, or on the line below, when the word is completed. -/
namespace ScriptBench

namespace Text

/-- A word as it is completed: letters, digits and underscores. -/
def IsWord (w : Text) : Prop := ∀ c ∈ w, TextBuffer.isCompletionChar c = true

/-- A word that is typed after the text is not the rest of another one. -/
def EndsApart (t : Text) : Prop := ∀ c ∈ t.getLast?, TextBuffer.isCompletionChar c = false

theorem isWord_iff {w : Text} : w.IsWord ↔ w.all TextBuffer.isCompletionChar = true :=
  List.all_eq_true.symm

variable {t u v w : Text}

theorem EndsApart.eq_nil {more : Text} (h : (t ++ more).EndsApart) (hmore : more.IsWord) :
    more = [] := by
  cases more using List.reverseRecOn with
  | nil => rfl
  | append_singleton front c =>
    have hc := h c (by rw [← List.append_assoc]; exact List.getLast?_concat)
    rw [hmore c (by simp)] at hc
    cases hc

/-- There is one word at the end of a text. -/
theorem append_word_inj (ht : t.EndsApart) (hu : u.EndsApart) (hv : v.IsWord) (hw : w.IsWord)
    (h : t ++ v = u ++ w) : t = u ∧ v = w := by
  rcases List.append_eq_append_iff.mp h with ⟨more, rfl, rfl⟩ | ⟨more, rfl, rfl⟩
  · obtain rfl := hu.eq_nil fun c hc => hv c (List.mem_append_left _ hc)
    simp
  · obtain rfl := ht.eq_nil fun c hc => hw c (List.mem_append_left _ hc)
    simp

end Text

namespace ClosingPair

/-- The openers end in a character that is not one of words, or are words of opcodes, that are
left alone in strings and comments. -/
theorem opener_cases {p : ClosingPair} (h : p ∈ all) :
    (∃ c, p.opener.getLast? = some c ∧ TextBuffer.isCompletionChar c = false) ∨
      p.opener.IsWord ∧ isOpcode p.opener = true ∧ .string ∈ p.notIn ∧ .comment ∈ p.notIn := by
  have htable : ∀ p ∈ all, p.opener.getLast?.any (!TextBuffer.isCompletionChar ·) = true ∨
      p.opener.all TextBuffer.isCompletionChar = true ∧ isOpcode p.opener = true ∧
        .string ∈ p.notIn ∧ .comment ∈ p.notIn := by decide +kernel
  refine (htable p h).imp (fun hlast => ?_) (fun hword => ⟨Text.isWord_iff.mpr hword.1, hword.2⟩)
  simpa [Option.any_eq_true] using hlast

variable {before w : Text} {state : LexState}

theorem startsWord_iff : startsWord before = true ↔ before.EndsApart := by
  unfold startsWord Text.EndsApart TextBuffer.isCompletionChar
  cases before.getLast? <;> simp

/-- After a word that has been typed, a pair is closed exactly if the word is its opener and
does not stand in a string or comment. -/
theorem closes_word_iff {p : ClosingPair} (hp : p ∈ all) (hbefore : before.EndsApart)
    (hw : w.IsWord) (hne : w ≠ []) :
    (Text.stripEnd? p.opener (before ++ w)).any (p.applies · state) = true ↔
      p.opener = w ∧ context? before state = none := by
  have hlast := List.getLast?_eq_some_getLast hne
  generalize w.getLast hne = last at hlast
  have hword := hw last (List.mem_of_getLast? hlast)
  rw [Option.any_eq_true]
  obtain ⟨c, hc, hother⟩ | ⟨hopener, hopcode, hstring, hcomment⟩ := opener_cases hp
  · refine iff_of_false ?_ ?_
    · rintro ⟨front, hfront, -⟩
      have hends := congrArg List.getLast? (Text.eq_append_of_stripEnd? hfront)
      rw [List.getLast?_append, List.getLast?_append, hlast, hc] at hends
      cases hends
      rw [hother] at hword
      cases hword
    · rintro ⟨rfl, -⟩
      rw [hlast] at hc
      cases hc
      rw [hother] at hword
      cases hword
  · have hcontext : (context? before state).any (p.notIn.contains ·) = false ↔
        context? before state = none := by
      cases context? before state with
      | none => simp
      | some k => cases k <;> simp [hstring, hcomment]
    constructor
    · rintro ⟨front, hfront, happlies⟩
      simp only [applies, hopcode, Bool.and_eq_true, Bool.not_eq_true', Bool.not_true,
        Bool.false_or] at happlies
      obtain ⟨rfl, rfl⟩ := Text.append_word_inj hbefore (startsWord_iff.mp happlies.2) hw hopener
        (Text.eq_append_of_stripEnd? hfront)
      exact ⟨rfl, hcontext.mp happlies.1⟩
    · rintro ⟨rfl, hnone⟩
      refine ⟨before, Text.stripEnd?_append .., ?_⟩
      rw [applies, hcontext.mpr hnone, startsWord_iff.mpr hbefore, Bool.or_true]
      rfl

/-- The openers that are words are closed on a line of their own. -/
theorem closer_of_isWord {p : ClosingPair} (hp : p ∈ all) (hw : p.opener.IsWord) :
    p.opener ∈ FlatText.blockOpeners ∧ p.closesOnNewLine = true ∧
      p.closer.trimStart = "OP_ENDIF".toList := by
  have htable : ∀ p ∈ all, p.opener.all TextBuffer.isCompletionChar = true →
      p.opener ∈ FlatText.blockOpeners ∧ p.closesOnNewLine = true ∧
        p.closer.trimStart = "OP_ENDIF".toList := by decide +kernel
  exact htable p hp (Text.isWord_iff.mp hw)

theorem exists_mem_all {opener : Text} (h : opener ∈ FlatText.blockOpeners) :
    ∃ p ∈ all, p.opener = opener := by
  revert h opener
  decide +kernel

end ClosingPair

namespace TextBuffer

/-- Typing a word opens a block: it begins with the word of a conditional, outside of strings
and comments. -/
def OpensBlock (b : TextBuffer) (w : Text) : Prop :=
  context? b.before b.lineState = none ∧ ∃ o ∈ FlatText.blockOpeners, o <+: w

instance (b : TextBuffer) (w : Text) : Decidable (b.OpensBlock w) :=
  inferInstanceAs (Decidable (context? b.before b.lineState = none ∧
    ∃ o ∈ FlatText.blockOpeners, o <+: w))

/-- Closes a block below the line of the cursor. -/
def closeBlock (b : TextBuffer) : TextBuffer :=
  { b with below := (indent b.before ++ "OP_ENDIF".toList) :: b.below }

variable {b : TextBuffer} {w : Text}

/-! ### Words -/

theorem insertChar_of_isCompletionChar {c : Char} (hc : isCompletionChar c = true)
    (b : TextBuffer) : b.insertChar c = autoClose { b with before := b.before ++ [c] } := by
  have hfeed : c ≠ '\n' := by
    rintro rfl
    cases hc
  have hplain : closesByTyping c = false := by
    have hovertyped : FlatText.overtyped.all (!isCompletionChar ·) = true := by decide +kernel
    refine Bool.eq_false_iff.mpr fun htyped => ?_
    have hother := List.all_eq_true.mp hovertyped c (closesByTyping_iff.mp htyped)
    rw [hc] at hother
    cases hother
  rw [insertChar, if_neg hfeed, hplain]
  rfl

theorem indent_append_of_blank {s : Text} (h : ∀ c ∈ s, Enter.isIndent c = true) (t : Text) :
    indent (s ++ t) = s ++ indent t :=
  List.takeWhile_append_of_pos h

theorem indent_append_of_not_blank {s : Text} (h : ¬ ∀ c ∈ s, Enter.isIndent c = true) (t : Text) :
    indent (s ++ t) = indent s := by
  rw [indent, List.takeWhile_append, if_neg]
  · rfl
  · intro hlength
    rw [← (List.takeWhile_prefix Enter.isIndent).eq_of_length hlength] at h
    exact h (List.all_eq_true.mp List.all_takeWhile)

theorem indent_cons_of_isCompletionChar {c : Char} (h : isCompletionChar c = true) (t : Text) :
    indent (c :: t) = [] := by
  refine List.takeWhile_cons_of_neg fun hblank => ?_
  obtain rfl | rfl : c = ' ' ∨ c = '\t' := by simpa [Enter.isIndent] using hblank
  all_goals cases h

/-- A word has no part in the indentation of its line. -/
theorem indent_append_word (hw : w.IsWord) (hne : w ≠ []) (before after : Text) :
    indent (before ++ w ++ after) = indent before := by
  obtain ⟨c, rest, rfl⟩ := List.exists_cons_of_ne_nil hne
  have hnone := indent_cons_of_isCompletionChar (hw c List.mem_cons_self) (rest ++ after)
  rw [List.append_assoc, List.cons_append]
  by_cases hbefore : ∀ c ∈ before, Enter.isIndent c = true
  · have hall := indent_append_of_blank hbefore []
    rw [List.append_nil] at hall
    rw [indent_append_of_blank hbefore, hnone, hall]
    rfl
  · exact indent_append_of_not_blank hbefore _

/-- The pair that a word closes when its last character has been typed. -/
theorem autoClose_word (hbefore : b.before.EndsApart) (hw : w.IsWord) (hne : w ≠ []) :
    autoClose { b with before := b.before ++ w } =
      if context? b.before b.lineState = none ∧ w ∈ FlatText.blockOpeners then
        { b.closeBlock with before := b.before ++ w }
      else { b with before := b.before ++ w } := by
  have hline : lineState { b with before := b.before ++ w } = b.lineState := rfl
  have hiff {p : ClosingPair} (hp : p ∈ ClosingPair.all) :=
    @ClosingPair.closes_word_iff b.before w b.lineState p hp hbefore hw hne
  unfold autoClose
  simp only [hline]
  cases hpair : ClosingPair.after? (b.before ++ w) b.lineState with
  | none =>
    rw [if_neg]
    rintro ⟨hcontext, hopener⟩
    obtain ⟨p, hp, rfl⟩ := ClosingPair.exists_mem_all hopener
    exact List.find?_eq_none.mp hpair p hp ((hiff hp).mpr ⟨rfl, hcontext⟩)
  | some p =>
    have hp := List.mem_of_find?_eq_some hpair
    obtain ⟨rfl, hcontext⟩ := (hiff hp).mp (List.find?_some hpair :)
    obtain ⟨hopener, hbelow, hcloser⟩ := ClosingPair.closer_of_isWord hp hw
    rw [if_pos ⟨hcontext, hopener⟩]
    simp only [hbelow, hcloser, line, indent_append_word hw hne]
    rfl

/-- No opener goes on as another one. -/
theorem not_opensBlock_of_mem {c : Char} (h : w ++ [c] ∈ FlatText.blockOpeners) :
    ¬ b.OpensBlock w := by
  have hopeners : ∀ o ∈ FlatText.blockOpeners, ∀ o' ∈ FlatText.blockOpeners,
      o <+: o' → o = o' := by decide +kernel
  rintro ⟨-, o, ho, hbegins⟩
  obtain rfl := hopeners o ho _ h (hbegins.trans (List.prefix_append w [c]))
  exact absurd hbegins.length_le (by simp)

theorem opensBlock_append_singleton {c : Char} :
    b.OpensBlock (w ++ [c]) ↔
      b.OpensBlock w ∨ context? b.before b.lineState = none ∧ w ++ [c] ∈ FlatText.blockOpeners := by
  simp only [OpensBlock, List.prefix_concat_iff, ← and_or_left]
  refine and_congr_right fun _ => ?_
  constructor
  · rintro ⟨o, ho, rfl | hbegins⟩
    · exact .inr ho
    · exact .inl ⟨o, ho, hbegins⟩
  · rintro (⟨o, ho, hbegins⟩ | hmem)
    · exact ⟨o, ho, .inr hbegins⟩
    · exact ⟨_, hmem, .inl rfl⟩

/-- The buffer with what typing a word at its cursor closes. -/
def closeWord (b : TextBuffer) (w : Text) : TextBuffer := if b.OpensBlock w then b.closeBlock else b

/-- **Typing a word** puts it before the cursor, and closes a block if it opens one. -/
theorem foldl_insertChar_word (hbefore : b.before.EndsApart) (hw : w.IsWord) :
    w.foldl insertChar b = { b.closeWord w with before := b.before ++ w } := by
  induction w using List.reverseRecOn with
  | nil =>
    have hopens : ¬ b.OpensBlock [] := by
      rintro ⟨-, o, ho, hbegins⟩
      rw [List.prefix_nil.mp hbegins] at ho
      exact absurd ho (by decide)
    rw [closeWord, if_neg hopens, List.append_nil]
    rfl
  | append_singleton w c ih =>
    have hne : w ++ [c] ≠ [] := by simp
    rw [List.foldl_append, ih fun d hd => hw d (List.mem_append_left _ hd), List.foldl_cons,
      List.foldl_nil, insertChar_of_isCompletionChar (hw c (by simp))]
    dsimp only
    rw [List.append_assoc]
    by_cases hopens : b.OpensBlock w
    · -- The block is closed already, and the word goes on past its opener.
      have hmem : w ++ [c] ∉ FlatText.blockOpeners := fun h => not_opensBlock_of_mem h hopens
      have hclosed := autoClose_word (b := b.closeBlock) hbefore hw hne
      rw [if_neg (fun h => hmem h.2)] at hclosed
      have hlonger : b.OpensBlock (w ++ [c]) := opensBlock_append_singleton.mpr (.inl hopens)
      rw [closeWord, closeWord, if_pos hopens, if_pos hlonger]
      exact hclosed
    · have hiff : b.OpensBlock (w ++ [c]) ↔
          context? b.before b.lineState = none ∧ w ++ [c] ∈ FlatText.blockOpeners := by
        rw [opensBlock_append_singleton, or_iff_right hopens]
      rw [closeWord, closeWord, if_neg hopens, autoClose_word hbefore hw hne]
      simp only [hiff]
      split <;> rfl

/-! ### Words in brackets -/

/-- A bracket is closed at once, wherever it stands. -/
theorem insertChar_bracket (b : TextBuffer) :
    b.insertChar '<' = { b with before := b.before ++ ['<'], after := '>' :: b.after } := by
  have hpair : ClosingPair.after? (b.before ++ ['<']) b.lineState = some ⟨['<'], ['>'], []⟩ := by
    refine List.find?_cons_of_pos ?_
    rw [Text.stripEnd?_append]
    simp [ClosingPair.applies, ClosingPair.isOpcode, Text.stripStart?]
  have hline : lineState { b with before := b.before ++ ['<'] } = b.lineState := rfl
  have htyped : b.insertChar '<' = autoClose { b with before := b.before ++ ['<'] } := rfl
  rw [htyped, autoClose]
  simp only [hline, hpair]
  rfl

/-- The buffer with what typing a word, or a bracket and a word, at its cursor closes. -/
def closing (b : TextBuffer) : Text → TextBuffer
  | '<' :: _ => { b with after := '>' :: b.after }
  | w => b.closeWord w

theorem closing_word (hw : w.IsWord) (b : TextBuffer) : b.closing w = b.closeWord w := by
  unfold closing
  split
  · exact absurd (hw '<' List.mem_cons_self) (by decide)
  · rfl

/-- A word that is completed, with a bracket in front of it or without one. A bracketed word
opens no block. -/
def IsTyped (p : Text) : Prop :=
  p.IsWord ∨ ∃ w : Text, p = '<' :: w ∧ w.IsWord ∧ ∀ o ∈ FlatText.blockOpeners, ¬ o <+: w

/-- **Typing a word that is completed** puts it before the cursor, and leaves what it closes. -/
theorem foldl_insertChar (hbefore : b.before.EndsApart) {p : Text} (hp : IsTyped p) :
    p.foldl insertChar b = { b.closing p with before := b.before ++ p } := by
  obtain hw | ⟨w, rfl, hw, hopener⟩ := hp
  · rw [closing_word hw, foldl_insertChar_word hbefore hw]
  · have hapart : (b.before ++ ['<']).EndsApart := by
      intro c hc
      rw [List.getLast?_concat] at hc
      cases hc
      rfl
    have hword := foldl_insertChar_word
      (b := { b with before := b.before ++ ['<'], after := '>' :: b.after }) hapart hw
    rw [closeWord, if_neg (fun h => h.2.elim fun o ho => hopener o ho.1 ho.2)] at hword
    rw [List.foldl_cons, insertChar_bracket, hword, List.append_assoc]
    rfl

/-! ### Completing a word -/

theorem indented_append (ind s t : Text) :
    indented ind (s ++ t) = indented ind s ++ indented ind t :=
  List.flatMap_append

theorem indented_of_not_mem {t : Text} (h : '\n' ∉ t) (ind : Text) : indented ind t = t := by
  unfold indented
  induction t with
  | nil => rfl
  | cons c rest ih =>
    rw [List.mem_cons, not_or] at h
    rw [List.flatMap_cons, ih h.2, if_neg (Ne.symm h.1)]
    rfl

/-- The text that an expansion goes into in place of the word before the cursor. -/
theorem text_applyCompletion {front : Text} (h : b.before = front ++ b.typed) (e : Expansion) :
    (b.applyCompletion e).text =
      (({ b with before := front } : TextBuffer).flat.insert
        (indented (indent (front ++ b.after)) e.text)).text := by
  have hfront : b.before.take (b.before.length - typedLength b.before) = front := by
    have hsplit := List.take_append_drop (b.before.length - typedLength b.before) b.before
    exact List.append_cancel_right (hsplit.trans h)
  rw [text_flat, applyCompletion, hfront, flat_insertAfter, flat_insert]
  simp [FlatText.text, FlatText.insert, FlatText.insertAfter, Expansion.text, indented_append, line]

/-- The text with an expansion at the cursor, which is indented as a line is. -/
def spliced (b : TextBuffer) (line : Text) (e : Expansion) : Text :=
  (b.flat.insert (indented (indent line) e.text)).text

/-- An expansion takes the place of a word that has been typed, and what the word closed stays.
The indentation is that of the line before, unless the bracket changed it, and then there is one
line only. -/
theorem text_applyCompletion_typed (hbefore : b.before.EndsApart) {p : Text} (hp : IsTyped p)
    (htyped : (p.foldl insertChar b).typed = p) {e : Expansion}
    (hline : p.head? = some '<' → '\n' ∉ e.text) :
    ((p.foldl insertChar b).applyCompletion e).text = (b.closing p).spliced b.line e := by
  rw [foldl_insertChar hbefore hp] at htyped ⊢
  have happly := @text_applyCompletion { b.closing p with before := b.before ++ p } b.before
    (by rw [htyped]) e
  rw [happly]
  obtain hw | ⟨w, rfl, -, -⟩ := hp
  · rw [closing_word hw, closeWord]
    split <;> rfl
  · rw [spliced, indented_of_not_mem (hline rfl), indented_of_not_mem (hline rfl)]
    rfl

/-- What typing closes is more text. -/
theorem spliced_closing_iff {p : Text} (hp : IsTyped p) (line : Text) (e : Expansion) :
    (b.closing p).spliced line e = b.spliced line e ↔
      p.head? ≠ some '<' ∧ ¬ b.OpensBlock p := by
  unfold spliced
  generalize indented (indent line) e.text = t
  obtain hw | ⟨w, rfl, -, -⟩ := hp
  · have hhead : p.head? ≠ some '<' := by
      intro h
      exact absurd (hw '<' (List.mem_of_head? h)) (by decide)
    rw [closing_word hw, closeWord, and_iff_right hhead]
    split
    · rename_i hopens
      refine iff_of_false (fun h => ?_) (not_not_intro hopens)
      have hlength := congrArg List.length h
      simp only [FlatText.text, FlatText.insert, flat, closeBlock, List.flatMap_cons,
        List.length_append, List.length_cons] at hlength
      omega
    · rename_i hopens
      exact iff_of_true rfl hopens
  · refine iff_of_false (fun h => ?_) (fun h => h.1 rfl)
    have hlength := congrArg List.length h
    simp only [FlatText.text, FlatText.insert, flat, closing, List.length_append,
      List.length_cons] at hlength
    omega

end TextBuffer
end ScriptBench
