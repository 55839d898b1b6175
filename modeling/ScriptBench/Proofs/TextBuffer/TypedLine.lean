import ScriptBench.Proofs.Editing.Context
import ScriptBench.Proofs.TextBuffer.Typing

/-! What is typed into an empty editor, and what is found there.

A word closes nothing until its letters so far are the word of a conditional, and then it is too
late: the end of the block stays when the word goes on. A text literal closes its bracket and its
quote at once; inside of the quotes only a bracket or `$(` would close, and in the end both closers
are typed over. So the closers are there from the second character on, and the characters of the
text come between them one by one. -/
namespace ScriptBench

/-- Behind an opening quote without a second one is a string. -/
theorem context?_quote {q : Char} (hquote : q = '"' ∨ q = '\'') {t : Text} (hq : q ∉ t) :
    context? ('<' :: q :: t) .root = some .string := by
  have hplain : ∀ c ∈ ['<'], Token.opensInert c = false := List.forall_mem_singleton.mpr rfl
  obtain ⟨state, hstate, hopener, hend, hinside⟩ : ∃ state : LexState, state ≠ .root ∧
      state.opener = [q] ∧ state.end? t = none ∧ state.context? = some .string := by
    have hnone := Token.quoteEnd?_of_not_mem hq
    obtain rfl | rfl := hquote
    · exact ⟨.doubleString, nofun, rfl, hnone, rfl⟩
    · exact ⟨.singleString, nofun, rfl, hnone, rfl⟩
  have hopens : Token.Leads .root (q :: t) (.inside state) := by
    have hleads := Token.Leads.opens hstate (.inside hstate hend)
    rwa [hopener] at hleads
  have hinert : Token.opensInert q = true := by obtain rfl | rfl := hquote <;> rfl
  have hcontext := context?_of_leads (Token.Leads.stretch hplain hinert hopens)
  rw [if_neg (fun h => nomatch h.1)] at hcontext
  exact hcontext.trans hinside

namespace ClosingPair

/-- The openers that close inside of strings are a bracket and `$(`. A quote among the others is
the whole of its opener. -/
theorem opener_inString {p : ClosingPair} (hp : p ∈ all) :
    p.opener = ['<'] ∨ p.opener = ['$', '('] ∨
      .string ∈ p.notIn ∧ ∀ q, q = '"' ∨ q = '\'' → q ∈ p.opener → p.opener = [q] := by
  simp only [all, List.mem_cons, List.not_mem_nil, or_false] at hp
  obtain rfl | rfl | rfl | rfl | rfl | rfl | rfl := hp
  · exact .inl rfl
  · exact .inr (.inl rfl)
  all_goals
    refine .inr (.inr ⟨by decide, ?_⟩)
    rintro q (rfl | rfl) hq <;> revert hq <;> decide +kernel

/-- Inside of a string that has begun after a bracket, no pair is closed. -/
theorem after?_inString {q : Char} (hquote : q = '"' ∨ q = '\'') {t : Text} {c : Char}
    (hq : q ∉ t ++ [c]) (hbracket : c ≠ '<') (heval : ¬ ['$', '('] <:+: t ++ [c]) :
    after? ('<' :: q :: (t ++ [c])) .root = none := by
  refine List.find?_eq_none.mpr fun p hp => ?_
  rw [Option.any_eq_true]
  rintro ⟨front, hfront, happlies⟩
  have hsplit : front ++ p.opener = '<' :: q :: (t ++ [c]) :=
    (Text.eq_append_of_stripEnd? hfront).symm
  -- The opener is behind the quote, unless it is the character typed last.
  have hbehind (hnone : q ∉ p.opener) :
      ∃ u, front = '<' :: q :: u ∧ u ++ p.opener = t ++ [c] := by
    obtain ⟨-, hopener⟩ | ⟨rest, rfl, hrest⟩ := List.append_eq_cons_iff.mp hsplit
    · exact absurd (hopener ▸ by simp) hnone
    · obtain ⟨-, hopener⟩ | ⟨u, rfl, hu⟩ := List.append_eq_cons_iff.mp hrest.symm
      · exact absurd (hopener ▸ by simp) hnone
      · exact ⟨u, rfl, hu.symm⟩
  have hquoted : q ≠ '<' ∧ q ≠ '$' ∧ q ≠ '(' := by
    obtain rfl | rfl := hquote <;> decide
  obtain hopener | hopener | ⟨hstring, hquotes⟩ := opener_inString hp
  · obtain ⟨u, -, hu⟩ := hbehind (by simp [hopener, hquoted])
    rw [hopener] at hu
    exact hbracket (List.singleton_inj.mp (List.append_inj_right' hu rfl)).symm
  · obtain ⟨u, -, hu⟩ := hbehind (by simp [hopener, hquoted])
    rw [hopener] at hu
    exact heval (hu ▸ (List.suffix_append u _).isInfix)
  · have hnone : q ∉ p.opener := by
      intro hmem
      have hlast := congrArg List.getLast? hsplit
      rw [hquotes q hquote hmem, List.getLast?_concat, ← List.cons_append, ← List.cons_append,
        List.getLast?_concat] at hlast
      exact hq (by simp [Option.some.inj hlast])
    obtain ⟨u, rfl, hu⟩ := hbehind hnone
    have hinside := context?_quote hquote (t := u) fun hmem => hq (hu ▸ List.mem_append_left _ hmem)
    simp [applies, hinside, hstring] at happlies

end ClosingPair

namespace TextBuffer

/-! ### Words -/

/-- **Typing a word** puts the word before the cursor and nothing behind it. It is all there is
just when the word does not begin with that of a conditional; when it does, the end of the block
is on a line below. -/
theorem word_alone_iff {w : Text} (hw : w.IsWord) :
    let b := w.foldl insertChar empty
    (b.row = 0 ∧ b.before = w ∧ b.after = []) ∧
      (b.text = w ↔ ¬ ∃ o ∈ FlatText.blockOpeners, o <+: w) ∧
      ((∃ o ∈ FlatText.blockOpeners, o <+: w) → b.lines = [w, "OP_ENDIF".toList]) := by
  intro b
  have hb : b = { empty.closeWord w with before := w } :=
    foldl_insertChar_word (b := empty) (fun c hc => nomatch hc) hw
  have hopens : empty.OpensBlock w ↔ ∃ o ∈ FlatText.blockOpeners, o <+: w :=
    and_iff_right (by decide +kernel)
  rw [← hopens, hb, closeWord]
  by_cases hblock : empty.OpensBlock w
  · rw [if_pos hblock]
    have hlines : ({ empty.closeBlock with before := w } : TextBuffer).lines =
        [w, "OP_ENDIF".toList] := by
      have hline : w ++ [] = w := List.append_nil w
      exact congrArg (· :: ["OP_ENDIF".toList]) hline
    refine ⟨⟨rfl, rfl, rfl⟩, iff_of_false (fun htext => ?_) (not_not_intro hblock), fun _ => hlines⟩
    rw [text, hlines] at htext
    have hlength := congrArg List.length htext
    simp [Text.unlines] at hlength
  · rw [if_neg hblock]
    exact ⟨⟨rfl, rfl, rfl⟩, iff_of_true (List.append_nil w) hblock, fun h => absurd h hblock⟩

/-- The word of a conditional opens no block where it ends another word. -/
theorem word_alone_ending :
    Text.IsWord "MY_OP_IF".toList ∧
      ("MY_OP_IF".toList.foldl insertChar empty).text = "MY_OP_IF".toList := by
  have hword : Text.IsWord "MY_OP_IF".toList := Text.isWord_iff.mpr (by decide +kernel)
  exact ⟨hword, (word_alone_iff hword).2.1.mpr (by decide +kernel)⟩

/-- The word of an opcode that begins with that of a conditional leaves the end of a block. -/
theorem word_leavesEnd :
    Text.IsWord "OP_IFDUP".toList ∧ "OP_IFDUP".toList ∉ FlatText.blockOpeners ∧
      ("OP_IFDUP".toList.foldl insertChar empty).text = "OP_IFDUP\nOP_ENDIF".toList :=
  ⟨Text.isWord_iff.mpr (by decide +kernel), by decide +kernel, by decide +kernel⟩

/-! ### Text literals -/

/-- A literal of which the bracket, the quote and some text have been typed. -/
def halfTyped (q : Char) (t : Text) : TextBuffer :=
  { empty with before := '<' :: q :: t, after := [q, '>'] }

variable {q : Char} {t : Text}

/-- The bracket and the quote are closed at once. -/
theorem insertChar_quote (hquote : q = '"' ∨ q = '\'') :
    (empty.insertChar '<').insertChar q = halfTyped q [] := by
  obtain rfl | rfl := hquote <;> decide +kernel

/-- A character of the text goes between them, and closes nothing. -/
theorem insertChar_halfTyped (hquote : q = '"' ∨ q = '\'') {c : Char} (hq : q ∉ t ++ [c])
    (hfeed : c ≠ '\n') (hbracket : c ≠ '<') (heval : ¬ ['$', '('] <:+: t ++ [c]) :
    (halfTyped q t).insertChar c = halfTyped q (t ++ [c]) := by
  have hnext : ((halfTyped q t).after.head? == some c) = false := by
    have hne : q ≠ c := fun h => hq (by simp [h])
    simpa [halfTyped] using hne
  have hpair : ClosingPair.after? (halfTyped q (t ++ [c])).before
      (halfTyped q (t ++ [c])).lineState = none :=
    ClosingPair.after?_inString hquote hq hbracket heval
  have hclose : autoClose (halfTyped q (t ++ [c])) = halfTyped q (t ++ [c]) := by
    unfold autoClose
    rw [hpair]
  rw [insertChar, if_neg hfeed, hnext, Bool.and_false, if_neg Bool.false_ne_true]
  exact hclose

/-- The text is typed character by character. -/
theorem foldl_insertChar_halfTyped (hquote : q = '"' ∨ q = '\'') (hq : q ∉ t) (hfeed : '\n' ∉ t)
    (hbracket : '<' ∉ t) (heval : ¬ ['$', '('] <:+: t) :
    t.foldl insertChar (halfTyped q []) = halfTyped q t := by
  induction t using List.reverseRecOn with
  | nil => rfl
  | append_singleton t c ih =>
    have hfront := ih (fun h => hq (List.mem_append_left _ h))
      (fun h => hfeed (List.mem_append_left _ h)) (fun h => hbracket (List.mem_append_left _ h))
      (fun h => heval (h.trans (List.prefix_append t [c]).isInfix))
    rw [List.foldl_append, hfront]
    refine insertChar_halfTyped hquote hq ?_ ?_ heval
    · rintro rfl
      exact hfeed (by simp)
    · rintro rfl
      exact hbracket (by simp)

/-- The closers are typed over. -/
theorem insertChar_closers (hquote : q = '"' ∨ q = '\'') (t : Text) :
    ((halfTyped q t).insertChar q).insertChar '>' =
      { empty with before := '<' :: q :: (t ++ [q, '>']) } := by
  have hover {b : TextBuffer} {c : Char} (hc : closesByTyping c = true) (hfeed : c ≠ '\n')
      (hnext : b.after.head? = some c) :
      b.insertChar c = { b with before := b.before ++ [c], after := b.after.tail } := by
    rw [insertChar, if_neg hfeed, hc, hnext, beq_self_eq_true, Bool.and_self, if_pos rfl]
  have htyped : closesByTyping q = true ∧ q ≠ '\n' := by
    obtain rfl | rfl := hquote <;> exact ⟨rfl, by decide⟩
  rw [hover htyped.1 htyped.2 rfl, hover rfl (by decide) rfl]
  simp only [halfTyped, List.cons_append, List.append_assoc, List.nil_append, List.tail_cons]
  rfl

/-- **Typing a text literal** gives the literal on one line, with the cursor at its end: whatever is
closed while it is typed, is typed over. -/
theorem literal_alone (hquote : q = '"' ∨ q = '\'') (hq : q ∉ t) (hfeed : '\n' ∉ t)
    (hbracket : '<' ∉ t) (heval : ¬ ['$', '('] <:+: t) :
    let literal := '<' :: q :: (t ++ [q, '>'])
    let b := literal.foldl insertChar empty
    b.lines = [literal] ∧ b.text = literal ∧ b.row = 0 ∧ b.before = literal ∧ b.after = [] := by
  intro literal b
  have hb : b = { empty with before := literal } :=
    calc b = ((t.foldl insertChar ((empty.insertChar '<').insertChar q)).insertChar q).insertChar
          '>' := List.foldl_append (l := t)
      _ = ((halfTyped q t).insertChar q).insertChar '>' := by
        rw [insertChar_quote hquote, foldl_insertChar_halfTyped hquote hq hfeed hbracket heval]
      _ = { empty with before := literal } := insertChar_closers hquote t
  have hlines : b.lines = [literal] := by
    rw [hb]
    exact congrArg (fun l => [l]) (List.append_nil literal)
  exact ⟨hlines, congrArg Text.unlines hlines, congrArg row hb, congrArg TextBuffer.before hb,
    congrArg TextBuffer.after hb⟩

/-- A text with the other quote, with closers and with openers. -/
def mixedText : Text := "it's 5$ > ) // /** OP_IF".toList

theorem literal_alone_mixed :
    '"' ∉ mixedText ∧ '\n' ∉ mixedText ∧ '<' ∉ mixedText ∧ ¬ ['$', '('] <:+: mixedText ∧
      (('<' :: '"' :: (mixedText ++ ['"', '>'])).foldl insertChar empty).lines =
        ["<\"it's 5$ > ) // /** OP_IF\">".toList] := by
  have hq : '"' ∉ mixedText := by decide +kernel
  have hfeed : '\n' ∉ mixedText := by decide +kernel
  have hbracket : '<' ∉ mixedText := by decide +kernel
  have heval : ¬ ['$', '('] <:+: mixedText := by
    rw [← Text.contains_iff_infix]
    decide +kernel
  exact ⟨hq, hfeed, hbracket, heval, (literal_alone (.inl rfl) hq hfeed hbracket heval).1⟩

end TextBuffer
end ScriptBench
