import ScriptBench.Proofs.SourceLine.Surroundings
import ScriptBench.Proofs.Text.Lines
import ScriptBench.Proofs.Token.Tiling
import ScriptBench.Proofs.Token.Uncommented

/-! Runnable lines are their own runnable lines.

A runnable line is without comments, and trimming takes only blanks off it, which turn no
state. So it is scanned again without a comment, and ends in the state that the line it
came from ends in, or outside when that is inside of a comment: the lines below go on as
they did before. -/
namespace ScriptBench.SourceLine
open Token

/-! ### A line -/

/-- Blanks at the ends can be left out. -/
theorem uncommented_trim {state : LexState} {t : Text} (h : Uncommented state t) :
    Uncommented state t.trim ∧ turned state t.trim = turned state t := by
  obtain ⟨lead, trail, hlead, htrail, heq⟩ := Text.exists_append_trim t
  generalize Text.trim t = trimmed at heq
  have hturned {p : Text} (hp : ∀ c ∈ p, Text.isBlank c = true) (s : LexState) : turned s p = s :=
    turned_stretch s fun c hc => opensInert_of_isBlank (hp c hc)
  rw [heq] at h ⊢
  have htrimmed := h.of_append.1.of_append.2
  rw [hturned hlead] at htrimmed
  rw [turned_append, turned_append, hturned hlead, hturned htrail]
  exact ⟨htrimmed, rfl⟩

theorem ofTokens_scan (state : LexState) (t : Text) :
    ofTokens (scan state t).1 = Text.trim (code (steps state t).1) := by
  rw [← code_join]
  rfl

/-- A runnable line is scanned without a comment, to the state that its line ends in. -/
theorem steps_runnable (state : LexState) (t : Text) :
    code (steps (resumed state) (ofTokens (scan state t).1)).1 = ofTokens (scan state t).1 ∧
      (steps (resumed state) (ofTokens (scan state t).1)).2 = resumed (scan state t).2 := by
  obtain ⟨hcode, hending⟩ := uncommented_code state t
  obtain ⟨htrim, hturned⟩ := uncommented_trim hcode
  rw [ofTokens_scan]
  obtain ⟨hkept, hstate⟩ := steps_of_uncommented (resumed_ne_blockComment state) htrim
  exact ⟨hkept, hstate.trans (hturned.trans hending)⟩

theorem isTrimmed_ofTokens (tokens : List Token) : (ofTokens tokens).IsTrimmed :=
  Text.isTrimmed_trim _

theorem ofTokens_runnable (state : LexState) (t : Text) :
    ofTokens (scan (resumed state) (ofTokens (scan state t).1)).1 = ofTokens (scan state t).1 := by
  rw [ofTokens_scan (resumed state), (steps_runnable state t).1]
  exact Text.trim_of_isTrimmed (isTrimmed_ofTokens _)

theorem mem_of_mem_code {ts : List Token} {c : Char} (h : c ∈ code ts) : c ∈ line ts := by
  obtain ⟨t, ht, hc⟩ := List.mem_flatMap.mp h
  exact List.mem_flatMap.mpr ⟨t, List.mem_of_mem_filter ht, hc⟩

theorem length_code_le (ts : List Token) : (code ts).length ≤ (line ts).length := by
  induction ts with
  | nil => exact Nat.le_refl _
  | cons t ts ih =>
    rw [code_cons, line_cons, List.length_append, List.length_append]
    split
    · exact Nat.add_le_add (Nat.zero_le _) ih
    · exact Nat.add_le_add_left ih _

/-- Where everything is kept there is no comment. -/
theorem kind_ne_comment_of_code {ts : List Token} (hne : ∀ t ∈ ts, t.text ≠ [])
    (h : code ts = line ts) : ∀ t ∈ ts, t.kind ≠ .comment := by
  induction ts with
  | nil => exact fun t ht => by cases ht
  | cons t ts ih =>
    rw [List.forall_mem_cons] at hne ⊢
    rw [code_cons, line_cons] at h
    split at h
    · -- A comment would have been left out.
      have hpos := List.length_pos_iff.mpr hne.1
      have hle := length_code_le ts
      have hlength := congrArg List.length h
      simp only [List.length_append, List.length_nil] at hlength
      omega
    · rename_i hkind
      exact ⟨hkind, ih hne.2 (List.append_cancel_left h)⟩

theorem kind_ne_comment_runnable (state : LexState) (t : Text) :
    ∀ u ∈ (scan (resumed state) (ofTokens (scan state t).1)).1, u.kind ≠ .comment := by
  refine kind_ne_comment_of_code (text_ne_nil_of_mem_scan _ _) ?_
  rw [line_scan]
  exact (code_join _).trans (steps_runnable state t).1

/-! ### Lines -/

theorem length_scanLines (state : LexState) (ls : List Text) :
    (scanLines state ls).length = ls.length := by
  induction ls generalizing state with
  | nil => rfl
  | cons l ls ih => rw [scanLines, List.length_cons, List.length_cons, ih]

theorem exists_scan_of_mem {state : LexState} {ls : List Text} {tokens : List Token}
    (h : tokens ∈ scanLines state ls) : ∃ s, ∃ l ∈ ls, tokens = (scan s l).1 := by
  induction ls generalizing state with
  | nil => cases h
  | cons l ls ih =>
    obtain rfl | h := List.mem_cons.mp h
    · exact ⟨state, l, List.mem_cons_self .., rfl⟩
    · obtain ⟨s, k, hk, rfl⟩ := ih h
      exact ⟨s, k, List.mem_cons_of_mem l hk, rfl⟩

/-- Runnable lines that follow one another are scanned without comments, and give themselves. -/
theorem scanLines_runnable (state : LexState) (ls : List Text) :
    let again := scanLines (resumed state) ((scanLines state ls).map ofTokens)
    again.map ofTokens = (scanLines state ls).map ofTokens ∧
      ∀ tokens ∈ again, ∀ u ∈ tokens, u.kind ≠ .comment := by
  induction ls generalizing state with
  | nil => exact ⟨rfl, fun tokens h => by cases h⟩
  | cons l ls ih =>
    obtain ⟨hlines, hcomments⟩ := ih (scan state l).2
    have hstate : (scan (resumed state) (ofTokens (scan state l).1)).2 =
        resumed (scan state l).2 := (steps_runnable state l).2
    simp only [scanLines, List.map_cons, hstate, List.forall_mem_cons]
    exact ⟨congrArg₂ _ (ofTokens_runnable state l) hlines,
      kind_ne_comment_runnable state l, hcomments⟩

/-! ### Texts -/

theorem exists_scan_of_mem_ofText {t l : Text} (h : l ∈ ofText t) :
    ∃ s, ∃ k ∈ t.lines, l = ofTokens (scan s (stripReturn k)).1 := by
  obtain ⟨tokens, htokens, rfl⟩ := List.mem_map.mp h
  obtain ⟨s, line, hline, rfl⟩ := exists_scan_of_mem htokens
  obtain ⟨k, hk, rfl⟩ := List.mem_map.mp hline
  exact ⟨s, k, hk, rfl⟩

theorem isTrimmed_of_mem_ofText {t l : Text} (h : l ∈ ofText t) : l.IsTrimmed := by
  obtain ⟨s, k, -, rfl⟩ := exists_scan_of_mem_ofText h
  exact isTrimmed_ofTokens _

theorem not_mem_of_mem_ofText {t l : Text} (h : l ∈ ofText t) : '\n' ∉ l := by
  obtain ⟨s, k, hk, rfl⟩ := exists_scan_of_mem_ofText h
  intro hmem
  have hcode := Text.mem_of_mem_trim hmem
  have hline := mem_of_mem_code hcode
  rw [line_scan] at hline
  exact Text.not_mem_of_mem_lines hk (mem_of_mem_stripReturn hline)

/-- A trimmed line has no carriage return at its end. -/
theorem stripReturn_of_isTrimmed {t : Text} (h : t.IsTrimmed) : stripReturn t = t := by
  obtain rfl | ⟨t, c, rfl⟩ := List.eq_nil_or_concat t
  · rfl
  · rw [List.concat_eq_append] at h ⊢
    refine stripReturn_concat t fun hc => ?_
    have hlast := h.last c (by simp)
    rw [hc] at hlast
    cases hlast

theorem length_ofText (t : Text) : (ofText t).length = t.count '\n' + 1 := by
  rw [ofText, List.length_map, document, length_scanLines, List.length_map, Text.length_lines]

/-- Runnable lines joined to a text are its lines. -/
theorem lines_unlines_ofText (t : Text) :
    (Text.unlines (ofText t)).lines.map stripReturn = ofText t := by
  have hne : ofText t ≠ [] := List.ne_nil_of_length_eq_add_one (length_ofText t)
  have hreturns : ∀ l ∈ ofText t, stripReturn l = id l := fun l hl =>
    stripReturn_of_isTrimmed (isTrimmed_of_mem_ofText hl)
  rw [Text.lines_unlines hne fun l hl => not_mem_of_mem_ofText hl,
    List.map_congr_left hreturns, List.map_id]

/-- **Runnable lines are as many as the lines of the text, trimmed and without comments,
and they are their own runnable lines.** -/
theorem ofText_runnable (t : Text) :
    (ofText t).length = t.count '\n' + 1 ∧
      (∀ l ∈ ofText t, l.IsTrimmed) ∧
      (∀ tokens ∈ document (ofText t), ∀ u ∈ tokens, u.kind ≠ .comment) ∧
      ofText (Text.unlines (ofText t)) = ofText t := by
  obtain ⟨hlines, hcomments⟩ := scanLines_runnable .root (t.lines.map stripReturn)
  refine ⟨length_ofText t, fun l hl => isTrimmed_of_mem_ofText hl, hcomments, ?_⟩
  rw [ofText, lines_unlines_ofText]
  exact hlines

/-- A comment over two lines, and what looks like one in a string. -/
def commentedLines : Text := "OP_1 /* a\nb */ <'/* c'>".toList

theorem ofText_runnable_commentedLines :
    ofText commentedLines = ["OP_1".toList, "<'/* c'>".toList] ∧
      Text.IsTrimmed "<'/* c'>".toList ∧
      ofText (Text.unlines (ofText commentedLines)) = ofText commentedLines := by
  have hlines : ofText commentedLines = ["OP_1".toList, "<'/* c'>".toList] := by decide +kernel
  obtain ⟨-, htrimmed, -, hagain⟩ := ofText_runnable commentedLines
  exact ⟨hlines, htrimmed _ (by rw [hlines]; simp), hagain⟩

end ScriptBench.SourceLine
