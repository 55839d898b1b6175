import ScriptBench.Proofs.Evaluation.Reference

/-! What an evaluation takes from its first pane.

The first pane is run before the second, and the second never goes back behind it. So
the failure of a line of the first pane, the snapshots of that pane, the stack after it
and its bytecode are those of the first run, whatever the second pane holds. -/
namespace ScriptBench

/-- The failure of a line of the first pane. -/
def Evaluation.firstFailure (e : Evaluation) : Option FailedLine :=
  e.failure.filter (·.line ≤ e.boundary)

namespace Machine

/-- A run without a failure has a snapshot a line, and a run with one has fewer. -/
theorem length_snapshots (pushOnly : Bool) (lines : List Text) (m : Machine) :
    ((m.runLines pushOnly lines).failure = none ∧
        (m.runLines pushOnly lines).snapshots.length = lines.length) ∨
      ∃ message, (m.runLines pushOnly lines).failure = some message ∧
        (m.runLines pushOnly lines).snapshots.length < lines.length := by
  induction lines generalizing m with
  | nil => exact .inl ⟨rfl, rfl⟩
  | cons line rest ih =>
    obtain ⟨n, why, hstep⟩ : ∃ n why, m.step pushOnly line = (n, why) := ⟨_, _, rfl⟩
    simp only [runLines, hstep]
    cases why with
    | some message => exact .inr ⟨message, rfl, Nat.succ_pos _⟩
    | none =>
      rcases ih n with ⟨hpassed, hlength⟩ | ⟨message, hfailed, hlength⟩
      · exact .inl ⟨hpassed, congrArg (· + 1) hlength⟩
      · exact .inr ⟨message, hfailed, Nat.succ_lt_succ hlength⟩

theorem length_snapshots_of_passed {pushOnly : Bool} {lines : List Text} {m : Machine}
    (h : (m.runLines pushOnly lines).failure = none) :
    (m.runLines pushOnly lines).snapshots.length = lines.length := by
  rcases length_snapshots pushOnly lines m with ⟨-, hlength⟩ | ⟨message, hfailed, -⟩
  · exact hlength
  · rw [h] at hfailed
    cases hfailed

theorem length_snapshots_of_failed {pushOnly : Bool} {lines : List Text} {m : Machine}
    {message : String} (h : (m.runLines pushOnly lines).failure = some message) :
    (m.runLines pushOnly lines).snapshots.length < lines.length := by
  rcases length_snapshots pushOnly lines m with ⟨hpassed, -⟩ | ⟨message', -, hlength⟩
  · rw [h] at hpassed
    cases hpassed
  · exact hlength

end Machine

/-- What an evaluation has from the run of its first pane. -/
structure Evaluation.Begins (e : Evaluation) (first : Run) : Prop where
  failure : e.firstFailure = first.failedLine 0
  snapshots : e.stackPane = first.snapshots
  stack : e.firstStack = if first.failure.isSome then [] else first.machine.stack
  unlocking : e.unlocking = first.machine.bytecode

namespace Machine
variable {m start : Machine} {stackLines : List Text} {template : Option Template}

/-- A failure of the second pane is none of the first. -/
theorem filter_failedLine_of_passed (second : Run) (count : Nat) :
    (second.failedLine count).filter (·.line ≤ count) = none := by
  cases h : second.failure with
  | none => simp only [Run.failedLine, h, Option.map_none, Option.filter_none]
  | some message =>
    have hline : ¬ count + second.snapshots.length + 1 ≤ count := by omega
    simp only [Run.failedLine, h, Option.map_some, Option.filter_some, decide_eq_false hline,
      Bool.false_eq_true, if_false]

/-- **The first pane is told by its own run**, whatever the second pane holds. -/
theorem begins_evaluate (hstart : m.clear.withTemplate template = start)
    (witnessLines : List Text) :
    (m.evaluate stackLines witnessLines template).1.Begins (start.runLines true stackLines) := by
  cases hf : (start.runLines true stackLines).failure with
  | some message =>
    have hlength := length_snapshots_of_failed hf
    rw [evaluate_of_failed hstart hf]
    refine ⟨?_, ?_, ?_, rfl⟩
    · have hline : 0 + (start.runLines true stackLines).snapshots.length + 1 ≤
          stackLines.length := by omega
      simp only [Evaluation.firstFailure, Run.failedLine, hf, Option.map_some, Option.filter_some,
        decide_eq_true hline, if_true]
    · exact List.take_of_length_le (Nat.le_of_lt hlength)
    · simp only [hf, Option.isSome_some, if_true]
  | none =>
    have hlength := length_snapshots_of_passed hf
    rw [evaluate_of_passed hstart hf witnessLines rfl rfl]
    refine ⟨?_, ?_, ?_, rfl⟩
    · show Option.filter _ (Run.failedLine (start.runLines true stackLines).snapshots.length _) = _
      rw [hlength, filter_failedLine_of_passed]
      simp only [Run.failedLine, hf, Option.map_none]
    · exact List.take_left' hlength
    · simp only [hf, Option.isSome_none, Bool.false_eq_true, if_false]

/-- A line of the first pane fails exactly when its run does. -/
theorem firstFailure_eq_none_iff (hstart : m.clear.withTemplate template = start)
    (witnessLines : List Text) :
    (m.evaluate stackLines witnessLines template).1.firstFailure = none ↔
      (start.runLines true stackLines).failure = none := by
  rw [(begins_evaluate hstart witnessLines).failure, Run.failedLine, Option.map_eq_none_iff]

end Machine

end ScriptBench
