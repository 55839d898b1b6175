import ScriptBench.CommandLine.Report
import ScriptBench.Proofs.SourceLine.Returns
import ScriptBench.Proofs.TextBuffer.Bounds

/-! What a session begins with is what the report is about.

The report takes its lines from the texts themselves. A session reads the texts into its
editors, which takes off carriage returns, and takes its lines from the text of the editors,
which takes them off again. Both give the same lines, so both evaluate the same. -/
namespace ScriptBench

namespace TextBuffer

theorem lines_ofText (t : Text) : (ofText t).lines = t.lines.map SourceLine.stripReturn :=
  congrArg Rows.lines (rows_ofText t)

/-- The runnable lines of an editor are what is left of its own lines, trimmed. -/
theorem NoFeed.ofText_text {b : TextBuffer} (h : b.NoFeed) :
    SourceLine.ofText b.text = (Token.uncommentLines .root b.lines).map Text.trim :=
  SourceLine.ofText_unlines b.lines_ne_nil (noFeed_iff.mp h)

/-- A text that is read into an editor keeps its runnable lines. -/
theorem ofText_text_ofText (t : Text) : SourceLine.ofText (ofText t).text = SourceLine.ofText t := by
  rw [(noFeed_ofText t).ofText_text, lines_ofText,
    SourceLine.map_trim_uncommentLines_stripReturn, SourceLine.ofText_eq]

end TextBuffer

theorem PaneLines.ofBuffers_ofText (stack witness : Text) :
    PaneLines.ofBuffers (TextBuffer.ofText stack) (TextBuffer.ofText witness) =
      ⟨SourceLine.ofText stack, SourceLine.ofText witness⟩ := by
  rw [PaneLines.ofBuffers, TextBuffer.ofText_text_ofText, TextBuffer.ofText_text_ofText]

/-- **A session begins with the lines and the evaluation that the report is about**, whatever
line endings and characters the texts hold. -/
theorem Session.start_reported (r : RuleSet) (stack witness : Text) (template : Option Template) :
    let s := Session.start r stack witness template
    s.lines = ⟨SourceLine.ofText stack, SourceLine.ofText witness⟩ ∧
      s.evaluation =
        r.evaluate (SourceLine.ofText stack) (SourceLine.ofText witness) template ∧
      Report.check r stack witness template =
        Report.ofEvaluation (s.lines.stack ++ s.lines.witness) s.evaluation := by
  have hlines := PaneLines.ofBuffers_ofText stack witness
  have hevaluation : (start r stack witness template).evaluation =
      r.evaluate (SourceLine.ofText stack) (SourceLine.ofText witness) template := by
    show ((PaneLines.ofBuffers _ _).evaluateOn (Machine.new r) template).1 = _
    rw [hlines]
    rfl
  refine ⟨hlines, hevaluation, ?_⟩
  rw [hevaluation, show (start r stack witness template).lines = _ from hlines]
  rfl

/-- A string goes on over a line that ends in two carriage returns. -/
example : (Session.start .standard "<'a\r\r\nb'>".toList [] none).lines.stack =
    ["<'a".toList, "b'>".toList] := by decide +kernel

end ScriptBench
