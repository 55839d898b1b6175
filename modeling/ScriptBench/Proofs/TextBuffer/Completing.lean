import Mathlib.Data.List.Basic
import ScriptBench.Proofs.TextBuffer.Bounds
import ScriptBench.Proofs.TextBuffer.Typing

/-! What a completion makes of the lines.

The expansion goes into the cursor's line in place of the word before the cursor, and its lines
after the first one are indented. Their indentation is read when the word is out: it is the line's
own, unless the word was all that stood between the blanks that the line begins with and a blank
behind the cursor. Then the blanks run together, and that one counts as well. -/
namespace ScriptBench
namespace TextBuffer

/-- What a line becomes when lines go into it between `u` and `v`, those after the first
indented. -/
def splicedLines (u ind v : Text) : List Text → List Text
  | [] => [u ++ v]
  | [l] => [u ++ l ++ v]
  | l :: k :: rest => (u ++ l) :: splicedLines ind ind v (k :: rest)

/-- What stands before the word that is completed. -/
def front (b : TextBuffer) : Text := b.before.take (b.before.length - typedLength b.before)

theorem front_append_typed (b : TextBuffer) : b.front ++ b.typed = b.before :=
  List.take_append_drop ..

/-- The buffer `b'` is `b` with an expansion in place of the word before the cursor: its lines go
into the line of the cursor, and the cursor to where those before its stop end. -/
structure Splices (b : TextBuffer) (e : Expansion) (ind : Text) (b' : TextBuffer) : Prop where
  lines : b'.lines =
    b.above.reverse ++ splicedLines b.front ind b.after e.text.lines ++ b.below
  row : b'.row = b.row + e.before.count '\n'
  before : (splicedLines b.front ind [] e.before.lines).getLast? = some b'.before
  scroll : b'.scroll = b.scroll

/-- The word before the cursor keeps the blanks that its line begins with from a blank behind
the cursor. -/
structure PartsBlanks (b : TextBuffer) : Prop where
  typed : b.typed ≠ []
  front : ∀ c ∈ b.front, Enter.isIndent c = true
  after : ∃ c ∈ b.after.head?, Enter.isIndent c = true

section Lines
variable {u ind v : Text} {ls : List Text}

theorem splicedLines_ne_nil : splicedLines u ind v ls ≠ [] := by
  unfold splicedLines
  split <;> exact List.cons_ne_nil _ _

theorem length_splicedLines (h : ls ≠ []) : (splicedLines u ind v ls).length = ls.length := by
  induction ls generalizing u with
  | nil => exact absurd rfl h
  | cons l rest ih =>
    cases rest with
    | nil => rfl
    | cons k rest =>
      rw [splicedLines, List.length_cons, ih (List.cons_ne_nil k rest)]
      rfl

theorem not_mem_of_mem_splicedLines (hu : '\n' ∉ u) (hind : '\n' ∉ ind) (hv : '\n' ∉ v)
    (hls : ∀ l ∈ ls, '\n' ∉ l) : ∀ l ∈ splicedLines u ind v ls, '\n' ∉ l := by
  induction ls generalizing u with
  | nil => simp [splicedLines, hu, hv]
  | cons l rest ih =>
    rw [List.forall_mem_cons] at hls
    cases rest with
    | nil => simp [splicedLines, hu, hls.1, hv]
    | cons k rest =>
      refine List.forall_mem_cons.mpr ⟨?_, ih hind hls.2⟩
      simp [hu, hls.1]

/-- In the text, the spliced lines are the indented text between the two ends. -/
theorem unlines_splicedLines (hls : ∀ l ∈ ls, '\n' ∉ l) :
    Text.unlines (splicedLines u ind v ls) = u ++ indented ind (Text.unlines ls) ++ v := by
  induction ls generalizing u with
  | nil =>
    rw [splicedLines, Text.unlines, Text.unlines, indented, List.flatMap_nil, List.append_nil]
  | cons l rest ih =>
    rw [List.forall_mem_cons] at hls
    cases rest with
    | nil => rw [splicedLines, Text.unlines, Text.unlines, indented_of_not_mem hls.1]
    | cons k rest =>
      have hspliced : Text.unlines (splicedLines u ind v (l :: k :: rest)) =
          u ++ l ++ '\n' :: Text.unlines (splicedLines ind ind v (k :: rest)) :=
        Text.unlines_cons_of_ne_nil _ splicedLines_ne_nil
      have hlines : Text.unlines (l :: k :: rest) = l ++ '\n' :: Text.unlines (k :: rest) :=
        Text.unlines_cons_of_ne_nil _ (List.cons_ne_nil k rest)
      have hfeed : indented ind ('\n' :: Text.unlines (k :: rest)) =
          '\n' :: (ind ++ indented ind (Text.unlines (k :: rest))) := rfl
      rw [hspliced, ih hls.2, hlines, indented_append, indented_of_not_mem hls.1, hfeed]
      simp only [List.append_assoc, List.cons_append]

/-- A splice of more than one line shows its indentation. -/
theorem splicedLines_inj {ind' : Text} (h : 1 < ls.length) :
    splicedLines u ind v ls = splicedLines u ind' v ls ↔ ind = ind' := by
  refine ⟨fun heq => ?_, fun heq => by rw [heq]⟩
  match ls, h with
  | l :: k :: rest, _ =>
    rw [splicedLines, splicedLines, List.cons_inj_right] at heq
    cases rest with
    | nil =>
      rw [splicedLines, splicedLines, List.singleton_inj, List.append_left_inj] at heq
      exact List.append_cancel_right heq
    | cons m rest =>
      rw [splicedLines, splicedLines, List.cons.injEq] at heq
      exact List.append_cancel_right heq.1

theorem splicedLines_of_length (h : ls.length = 1) (ind' : Text) :
    splicedLines u ind v ls = splicedLines u ind' v ls := by
  obtain ⟨l, rfl⟩ := List.length_eq_one_iff.mp h
  rfl

end Lines

variable {b : TextBuffer}

/-! ### Lines -/

/-- The buffer without the word before the cursor. -/
def withoutTyped (b : TextBuffer) : TextBuffer := { b with before := b.front }

theorem applyCompletion_eq (b : TextBuffer) (e : Expansion) :
    b.applyCompletion e =
      (b.withoutTyped.insert (indented (indent (b.front ++ b.after)) e.before)).insertAfter
        (indented (indent (b.front ++ b.after)) (e.placeholder ++ e.after)) := rfl

theorem NoFeed.withoutTyped (h : b.NoFeed) : b.withoutTyped.NoFeed :=
  ⟨h.above, fun hmem => h.before (List.mem_of_mem_take hmem), h.after, h.below⟩

/-- Lines are spliced between others if the text is spliced between theirs. -/
theorem eq_append_splicedLines {ks above below : List Text} {u ind v t : Text} (hne : ks ≠ [])
    (hks : ∀ l ∈ ks, '\n' ∉ l) (habove : ∀ l ∈ above, '\n' ∉ l)
    (hbelow : ∀ l ∈ below, '\n' ∉ l) (hu : '\n' ∉ u) (hind : '\n' ∉ ind) (hv : '\n' ∉ v)
    (htext : Text.unlines ks =
      above.flatMap (· ++ ['\n']) ++ (u ++ indented ind t ++ v) ++ below.flatMap ('\n' :: ·)) :
    ks = above ++ splicedLines u ind v t.lines ++ below := by
  have htlines : ∀ l ∈ t.lines, '\n' ∉ l := fun _ => Text.not_mem_of_mem_lines
  have hlines : ∀ l ∈ above ++ splicedLines u ind v t.lines ++ below, '\n' ∉ l := by
    intro l hl
    rw [List.mem_append, List.mem_append] at hl
    obtain (hl | hl) | hl := hl
    · exact habove l hl
    · exact not_mem_of_mem_splicedLines hu hind hv htlines l hl
    · exact hbelow l hl
  have hspliced : Text.unlines (splicedLines u ind v t.lines) = u ++ indented ind t ++ v := by
    rw [unlines_splicedLines htlines, Text.unlines_lines]
  have hcons : splicedLines u ind v t.lines ≠ [] := splicedLines_ne_nil
  generalize splicedLines u ind v t.lines = spliced at hlines hspliced hcons ⊢
  obtain ⟨first, rest, rfl⟩ := List.exists_cons_of_ne_nil hcons
  have hunlines : Text.unlines (above ++ first :: rest ++ below) = Text.unlines ks := by
    rw [Text.unlines_cons] at hspliced
    rw [htext, ← hspliced, List.append_assoc above, List.cons_append, Text.unlines_append_cons,
      Text.unlines_cons, List.flatMap_append]
    simp only [List.append_assoc]
  -- Lines without line feeds are the same when their texts are.
  rw [← Text.lines_unlines hne hks, ← hunlines, Text.lines_unlines (by simp) hlines]

theorem lines_applyCompletion (h : b.NoFeed) (e : Expansion) :
    (b.applyCompletion e).lines = b.above.reverse ++
      splicedLines b.front (indent (b.front ++ b.after)) b.after e.text.lines ++ b.below := by
  refine eq_append_splicedLines (lines_ne_nil _) (noFeed_iff.mp (h.applyCompletion e))
    (fun l hl => h.above l (List.mem_reverse.mp hl)) h.below h.withoutTyped.before
    (lineFeed_not_mem_indent _) h.after ?_
  have htext := text_applyCompletion b.front_append_typed.symm e
  rw [text] at htext
  rw [htext]
  simp only [FlatText.text, FlatText.insert, flat, List.append_assoc]

/-! ### The cursor -/

/-- The lines as far as the cursor. -/
def linesToCursor (b : TextBuffer) : List Text := b.above.reverse ++ [b.before]

theorem unlines_linesToCursor (b : TextBuffer) :
    Text.unlines b.linesToCursor = b.flat.before := by
  rw [linesToCursor, Text.unlines_append_cons]
  rfl

theorem NoFeed.linesToCursor (h : b.NoFeed) : ∀ l ∈ b.linesToCursor, '\n' ∉ l := by
  intro l hl
  simp only [TextBuffer.linesToCursor, List.mem_append, List.mem_reverse, List.mem_singleton] at hl
  obtain hl | rfl := hl
  · exact h.above l hl
  · exact h.before

/-- The cursor follows what is inserted. -/
theorem linesToCursor_insert (h : b.NoFeed) {ind : Text} (hind : '\n' ∉ ind) (t : Text) :
    (b.insert (indented ind t)).linesToCursor =
      b.above.reverse ++ splicedLines b.before ind [] t.lines := by
  rw [← List.append_nil (b.above.reverse ++ _)]
  refine eq_append_splicedLines (by simp [linesToCursor]) (h.insert _).linesToCursor
    (fun l hl => h.above l (List.mem_reverse.mp hl)) nofun h.before hind List.not_mem_nil ?_
  rw [unlines_linesToCursor, flat_insert]
  simp only [FlatText.insert, flat, List.append_assoc, List.append_nil, List.flatMap_nil]

theorem linesToCursor_insertAfter (b : TextBuffer) (t : Text) :
    (b.insertAfter t).linesToCursor = b.linesToCursor := by
  obtain ⟨after, below, hafter⟩ := b.exists_insertAfter t
  rw [hafter]
  rfl

theorem length_linesToCursor (b : TextBuffer) : b.linesToCursor.length = b.row + 1 := by
  rw [linesToCursor, List.length_append, List.length_reverse]
  rfl

theorem getLast?_linesToCursor (b : TextBuffer) : b.linesToCursor.getLast? = some b.before :=
  List.getLast?_concat

theorem linesToCursor_applyCompletion (h : b.NoFeed) (e : Expansion) :
    (b.applyCompletion e).linesToCursor =
      b.above.reverse ++
        splicedLines b.front (indent (b.front ++ b.after)) [] e.before.lines := by
  rw [applyCompletion_eq, linesToCursor_insertAfter,
    linesToCursor_insert h.withoutTyped (lineFeed_not_mem_indent _)]
  rfl

theorem scroll_applyCompletion (b : TextBuffer) (e : Expansion) :
    (b.applyCompletion e).scroll = b.scroll := by
  rw [applyCompletion_eq]
  generalize indented (indent (b.front ++ b.after)) e.before = head
  generalize indented (indent (b.front ++ b.after)) (e.placeholder ++ e.after) = tail
  obtain ⟨above, before, hinsert⟩ := b.withoutTyped.exists_insert head
  obtain ⟨after, below, hafter⟩ := (b.withoutTyped.insert head).exists_insertAfter tail
  rw [hafter, hinsert]
  rfl

/-- A completion splices the expansion, indented as the line without the word is. -/
theorem splices_applyCompletion (h : b.NoFeed) (e : Expansion) :
    b.Splices e (indent (b.front ++ b.after)) (b.applyCompletion e) := by
  have hcursor := linesToCursor_applyCompletion h e
  refine ⟨lines_applyCompletion h e, ?_, ?_, scroll_applyCompletion b e⟩
  · have hrow := length_linesToCursor (b.applyCompletion e)
    rw [hcursor, List.length_append, List.length_reverse, length_splicedLines (Text.lines_ne_nil _),
      Text.length_lines, ← Nat.add_assoc] at hrow
    exact (Nat.add_right_cancel hrow).symm
  · have hlast := getLast?_linesToCursor (b.applyCompletion e)
    rw [hcursor, List.getLast?_append_of_ne_nil _ splicedLines_ne_nil] at hlast
    exact hlast

/-! ### The indentation -/

/-- The word that is completed does not begin with a blank. -/
theorem indent_typed_append (h : b.typed ≠ []) (t : Text) : indent (b.typed ++ t) = [] := by
  obtain ⟨front, word, -, hword, htyped⟩ := b.exists_typed
  have hwords : ∀ c ∈ word, isCompletionChar c = true := by
    intro c hc
    rw [← List.mem_reverse, hword] at hc
    exact List.all_eq_true.mp List.all_takeWhile c hc
  rw [htyped] at h ⊢
  split
  · rfl
  · rename_i hmark
    rw [if_neg hmark] at h
    obtain ⟨c, rest, rfl⟩ := List.exists_cons_of_ne_nil h
    exact indent_cons_of_isCompletionChar (hwords c List.mem_cons_self) (rest ++ t)

/-- Without the word, the line keeps its indentation unless the word has parted blanks. -/
theorem indent_front_append_after_iff (b : TextBuffer) :
    indent (b.front ++ b.after) = indent b.line ↔ ¬ b.PartsBlanks := by
  rw [line, ← b.front_append_typed, List.append_assoc]
  by_cases htyped : b.typed = []
  · rw [htyped, List.nil_append]
    exact iff_of_true rfl fun h => h.typed htyped
  by_cases hfront : ∀ c ∈ b.front, Enter.isIndent c = true
  · rw [indent_append_of_blank hfront, indent_append_of_blank hfront, indent_typed_append htyped,
      List.append_cancel_left_eq]
    have hafter : indent b.after = [] ↔ ¬ ∃ c ∈ b.after.head?, Enter.isIndent c = true := by
      cases b.after with
      | nil => simp [indent]
      | cons c rest => cases hc : Enter.isIndent c <;> simp [indent, hc]
    rw [hafter]
    exact not_congr ⟨fun h => ⟨htyped, hfront, h⟩, fun h => h.after⟩
  · rw [indent_append_of_not_blank hfront, indent_append_of_not_blank hfront]
    exact iff_of_true rfl fun h => hfront h.front

/-- An expansion of one line has no indentation, and one of more lines has one. -/
theorem Splices.indent_iff {e : Expansion} {ind ind' : Text} {b' : TextBuffer}
    (h : b.Splices e ind b') : b.Splices e ind' b' ↔ ('\n' ∈ e.text → ind = ind') := by
  have hlength := e.text.length_lines
  constructor
  · intro h' hfeed
    have hpos := List.count_pos_iff.mpr hfeed
    have heq := h.lines.symm.trans h'.lines
    rw [List.append_left_inj, List.append_right_inj] at heq
    exact (splicedLines_inj (by omega)).mp heq
  · intro hind
    by_cases hfeed : '\n' ∈ e.text
    · exact hind hfeed ▸ h
    · have hbefore : '\n' ∉ e.before := fun hmem =>
        hfeed (List.mem_append_left _ (List.mem_append_left _ hmem))
      have hone : e.text.lines.length = 1 := by rw [hlength, List.count_eq_zero_of_not_mem hfeed]
      have hstop : e.before.lines.length = 1 := by
        rw [Text.length_lines, List.count_eq_zero_of_not_mem hbefore]
      exact ⟨splicedLines_of_length hone ind' ▸ h.lines, h.row,
        splicedLines_of_length hstop ind' ▸ h.before, h.scroll⟩

/-- **A completion splices the expansion in place of the word before the cursor.** It indents the
lines as the line was indented, unless the word has parted blanks. -/
theorem applyCompletion_splices (t : Text) (edits : List Edit) (e : Expansion) :
    let b := (ofText t).run edits
    b.before = b.front ++ b.typed ∧
      b.Splices e (indent (b.front ++ b.after)) (b.applyCompletion e) ∧
      (b.Splices e (indent b.line) (b.applyCompletion e) ↔
        ¬ ('\n' ∈ e.text ∧ b.PartsBlanks)) := by
  intro b
  have hsplices := splices_applyCompletion ((noFeed_ofText t).run edits) e
  refine ⟨b.front_append_typed.symm, hsplices, ?_⟩
  rw [hsplices.indent_iff, not_and]
  exact imp_congr_right fun _ => b.indent_front_append_after_iff

/-- A block that is opened at the start of a line, where a blank follows the word, is indented
by that blank. -/
theorem applyCompletion_splices_partedBlanks :
    let b := (ofText "OP_I x".toList).run [.goto 0 4]
    let e := Expansion.ofSnippet "OP_IF\n  $\x7b1\x7d\nOP_ENDIF".toList
    indent b.line = [] ∧
      (b.applyCompletion e).rows =
        ⟨["OP_IF".toList, "   ".toList, " OP_ENDIF x".toList], 1, 3, 0⟩ ∧
      ¬ b.Splices e (indent b.line) (b.applyCompletion e) := by
  intro b e
  have hlines : (b.applyCompletion e).lines ≠
      b.above.reverse ++ splicedLines b.front (indent b.line) b.after e.text.lines ++ b.below := by
    decide +kernel
  refine ⟨?_, ?_, fun h => hlines h.lines⟩ <;> decide +kernel

end TextBuffer

end ScriptBench
