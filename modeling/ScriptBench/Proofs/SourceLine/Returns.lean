import ScriptBench.Proofs.SourceLine.Again
import ScriptBench.Proofs.Token.Uncomment

/-! Carriage returns before line feeds are no part of what is run.

A text gives the same runnable lines however many times its carriage returns are taken off:
one at the end of a line is a blank, which turns no state and is trimmed off. So the lines of
an editor and the text that was read into it are run alike. -/
namespace ScriptBench.SourceLine
open Token

/-- A runnable line is what is left of a line without comments, trimmed. -/
theorem ofTokens_scan_eq (state : LexState) (t : Text) :
    ofTokens (scan state t).1 = Text.trim (uncomment state t).1 := by
  rw [ofTokens_scan, uncomment_eq]

theorem map_ofTokens_scanLines (state : LexState) (ls : List Text) :
    (scanLines state ls).map ofTokens = (uncommentLines state ls).map Text.trim := by
  induction ls generalizing state with
  | nil => rfl
  | cons l ls ih =>
    have hending : (scan state l).2 = (uncomment state l).2 := by
      rw [uncomment_eq]
      rfl
    rw [scanLines, uncommentLines, List.map_cons, List.map_cons, ih, hending, ofTokens_scan_eq]

theorem eq_or_eq_append_return (t : Text) :
    stripReturn t = t ∨ t = stripReturn t ++ ['\r'] := by
  unfold stripReturn
  cases h : Text.stripEnd? ['\r'] t with
  | none => exact .inl rfl
  | some front => exact .inr (Text.eq_append_of_stripEnd? h)

/-- Without its carriage return a line is trimmed to the same and leaves the same state. -/
theorem uncomment_stripReturn (state : LexState) (t : Text) :
    (uncomment state (stripReturn t)).1.trim = (uncomment state t).1.trim ∧
      (uncomment state (stripReturn t)).2 = (uncomment state t).2 := by
  obtain h | h := eq_or_eq_append_return t
  · rw [h]
    exact ⟨rfl, rfl⟩
  · have hextends := uncomment_append_blank (b := '\r') rfl state (stripReturn t)
    rw [← h] at hextends
    refine ⟨?_, hextends.ending.symm⟩
    obtain htext | htext := hextends.text
    · rw [htext]
    · rw [htext, Text.trim_append_blank rfl]

theorem map_trim_uncommentLines_stripReturn (state : LexState) (ls : List Text) :
    (uncommentLines state (ls.map stripReturn)).map Text.trim =
      (uncommentLines state ls).map Text.trim := by
  induction ls generalizing state with
  | nil => rfl
  | cons l ls ih =>
    obtain ⟨htrim, hending⟩ := uncomment_stripReturn state l
    rw [List.map_cons, uncommentLines, uncommentLines, List.map_cons, List.map_cons, htrim,
      hending, ih]

/-- The runnable lines of a text are what is left of its lines, trimmed. -/
theorem ofText_eq (t : Text) : ofText t = (uncommentLines .root t.lines).map Text.trim := by
  rw [ofText, document, map_ofTokens_scanLines, map_trim_uncommentLines_stripReturn]

/-- So are those of the text that lines are joined to. -/
theorem ofText_unlines {ls : List Text} (hne : ls ≠ []) (hfeed : ∀ l ∈ ls, '\n' ∉ l) :
    ofText (Text.unlines ls) = (uncommentLines .root ls).map Text.trim := by
  rw [ofText_eq, Text.lines_unlines hne hfeed]

end ScriptBench.SourceLine
