import ScriptBench.Proofs.Evaluation.Aligned
import ScriptBench.Proofs.Session.Edits
import ScriptBench.Proofs.Session.Start
import ScriptBench.Proofs.Session.UpToDate

/-! Output stands beside the rows it is of.

The lines of an editor hold no line feeds, so the text that they are joined to has a runnable
line for each row. While no edit waits, the result is that of these lines. A runnable line
is empty where its row, without the comments that begin in it or above it, is blank. -/
namespace ScriptBench

/-- A row with nothing but blanks and comments. -/
def TextBuffer.IsIdle (b : TextBuffer) (row : Nat) : Prop :=
  ∃ left, (Token.uncommentLines .root b.lines)[row]? = some left ∧
    ∀ c ∈ left, Text.isBlank c = true

namespace TextBuffer
variable {b : TextBuffer}

theorem NoFeed.length_ofText_text (h : b.NoFeed) :
    (SourceLine.ofText b.text).length = b.lines.length := by
  rw [h.ofText_text, List.length_map, Token.length_uncommentLines]

/-- A runnable line is empty where its row is idle. -/
theorem NoFeed.isIdle_iff (h : b.NoFeed) (row : Nat) :
    (SourceLine.ofText b.text)[row]? = some [] ↔ b.IsIdle row := by
  rw [h.ofText_text, List.getElem?_map, Option.map_eq_some_iff]
  simp only [Text.trim_eq_nil_iff, IsIdle]

end TextBuffer

namespace Session

theorem linesOf_ofBuffers (s : Session) (pane : Pane) :
    Machine.linesOf s.currentLines.stack s.currentLines.witness pane =
      SourceLine.ofText (s.editor pane).text := by
  cases pane <;> rfl

/-- **Output stays beside its rows**, in every session in which no edit waits: each pane has an
entry for each row of its editor, up to the one that fails, and it is blank where the row has
nothing but blanks and comments. -/
theorem run_aligned (r : RuleSet) (stack witness : Text) (template : Option Template)
    (events : List Event)
    (h : ((start r stack witness template).run events).debouncer.pending = none) :
    let s := (start r stack witness template).run events
    s.evaluation.Aligned (fun pane => (s.editor pane).lines.length)
      (fun pane row => (s.editor pane).IsIdle row) := by
  have hsound := sound_run (sound_start r stack witness template) events
  have hfeed := noFeed_run r stack witness template events
  generalize (start r stack witness template).run events = s at h hsound hfeed
  have hcommitted : s.lines = s.currentLines := hsound.committed h
  have hevaluation : s.evaluation = r.evaluate s.lines.stack s.lines.witness s.template :=
    hsound.exact h
  have haligned := (Machine.new r).aligned_evaluate s.currentLines.stack s.currentLines.witness
    s.template
  simp only [linesOf_ofBuffers, (hfeed _).length_ofText_text, (hfeed _).isIdle_iff] at haligned
  rw [hcommitted] at hevaluation
  show s.evaluation.Aligned _ _
  rw [hevaluation]
  exact haligned

/-- A comment over two lines, and an opcode without operands on a new line below a blank one. -/
def brokenLine : Session :=
  (start .standard "<1> /*\nx*/".toList "OP_ADD".toList none).run
    [.key .tab false 0, .key .enter false 0, .flush]

theorem run_aligned_brokenLine :
    brokenLine.debouncer.pending = none ∧
      brokenLine.evaluation.failedPaneLine = some (.witnessScript, 2) ∧
      brokenLine.evaluation.stackPane.length = 2 ∧ brokenLine.evaluation.witnessPane.length = 1 ∧
      brokenLine.evaluation.Aligned (fun pane => (brokenLine.editor pane).lines.length)
        (fun pane row => (brokenLine.editor pane).IsIdle row) := by
  have hpending : brokenLine.debouncer.pending = none := by decide +kernel
  have hfailed : brokenLine.evaluation.failedPaneLine = some (.witnessScript, 2) := by
    decide +kernel
  have haligned := run_aligned .standard "<1> /*\nx*/".toList "OP_ADD".toList none
    [.key .tab false 0, .key .enter false 0, .flush] hpending
  obtain ⟨hstack, hwitness⟩ := haligned.stops_witness 2 hfailed
  exact ⟨hpending, hfailed, hstack, Nat.succ.inj hwitness, haligned⟩

end Session

end ScriptBench
