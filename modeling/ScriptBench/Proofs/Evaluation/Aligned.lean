import ScriptBench.Proofs.Evaluation.Panes

/-! Snapshots stand beside the lines they are of.

A pane that does not fail has a snapshot a line, and one that fails has one for each line
before the one that fails; a snapshot is blank where the line is empty. So the numbers that
an evaluation counts with, over both panes, are rows of the panes. -/
namespace ScriptBench

/-- The snapshots of a pane. -/
def Evaluation.pane (e : Evaluation) : Pane → List Snapshot
  | .stackElements => e.stackPane
  | .witnessScript => e.witnessPane

/-- An evaluation stands beside two panes with so many rows, some of them idle. -/
structure Evaluation.Aligned (e : Evaluation) (rows : Pane → Nat) (idle : Pane → Nat → Prop) :
    Prop where
  boundary : e.boundary = rows .stackElements
  /-- The line that fails is one of its pane. -/
  failing : ∀ pane n, e.failedPaneLine = some (pane, n) → 1 ≤ n ∧ n ≤ rows pane
  complete : e.failure = none → ∀ pane, (e.pane pane).length = rows pane
  /-- The snapshots end right before the line that fails. -/
  stops_stack : ∀ n, e.failedPaneLine = some (.stackElements, n) →
    e.stackPane.length + 1 = n ∧ e.witnessPane = []
  stops_witness : ∀ n, e.failedPaneLine = some (.witnessScript, n) →
    e.stackPane.length = rows .stackElements ∧ e.witnessPane.length + 1 = n
  blank : ∀ pane row s, (e.pane pane)[row]? = some s → (s.isBlank = true ↔ idle pane row)

namespace Machine

theorem isBlank_snapshot (m : Machine) (line : Text) :
    (m.snapshot line).isBlank = true ↔ line = [] := by
  cases line with
  | nil => exact ⟨fun _ => rfl, fun _ => rfl⟩
  | cons c line => exact ⟨nofun, nofun⟩

/-- The snapshot of a line is blank where the line is empty. -/
theorem isBlank_iff {pushOnly : Bool} {lines : List Text} {m : Machine} {row : Nat} {s : Snapshot}
    (h : (m.runLines pushOnly lines).snapshots[row]? = some s) :
    s.isBlank = true ↔ lines[row]? = some [] := by
  induction lines generalizing m row with
  | nil => cases h
  | cons line rest ih =>
    obtain ⟨n, why, hstep⟩ : ∃ n why, m.step pushOnly line = (n, why) := ⟨_, _, rfl⟩
    simp only [runLines, hstep] at h
    cases why with
    | some message => cases h
    | none =>
      cases row with
      | zero =>
        obtain rfl := Option.some.inj h
        rw [isBlank_snapshot, List.getElem?_cons_zero, Option.some_inj]
      | succ row => exact ih h

section
variable {m start : Machine} {stackLines : List Text} {template : Option Template}

/-- An evaluation whose first pane fails shows the run of that pane alone. -/
theorem panes_of_failed (hstart : m.clear.withTemplate template = start) {first : Run}
    (hfirst : start.runLines true stackLines = first) {message : String}
    (hf : first.failure = some message) (witnessLines : List Text) :
    let e := (m.evaluate stackLines witnessLines template).1
    e.boundary = stackLines.length ∧ e.stackPane = first.snapshots ∧ e.witnessPane = [] ∧
      e.failure ≠ none ∧
      e.failedPaneLine = some (.stackElements, first.snapshots.length + 1) := by
  subst hfirst
  have hlength := length_snapshots_of_failed hf
  rw [evaluate_of_failed hstart hf]
  refine ⟨rfl, List.take_of_length_le (Nat.le_of_lt hlength),
    List.drop_of_length_le (Nat.le_of_lt hlength), ?_, ?_⟩
  · simp [Run.failedLine, hf]
  · simp only [Evaluation.failedPaneLine, Run.failedLine, hf, Option.map_some, Nat.zero_add]
    rw [if_pos (Nat.succ_le_of_lt hlength)]

/-- An evaluation whose first pane does not fail shows the runs of both panes. -/
theorem panes_of_passed (hstart : m.clear.withTemplate template = start) {first second : Run}
    {witnessLines : List Text} (hfirst : start.runLines true stackLines = first)
    (hsecond : first.machine.runLines false witnessLines = second) (hf : first.failure = none) :
    let e := (m.evaluate stackLines witnessLines template).1
    e.boundary = stackLines.length ∧ e.stackPane = first.snapshots ∧
      e.witnessPane = second.snapshots ∧ (e.failure = none ↔ second.failure = none) ∧
      e.failedPaneLine =
        second.failure.map fun _ => (.witnessScript, second.snapshots.length + 1) := by
  subst hfirst
  have hlength := length_snapshots_of_passed hf
  rw [evaluate_of_passed hstart hf witnessLines rfl hsecond]
  refine ⟨rfl, List.take_left' hlength, List.drop_left' hlength, Option.map_eq_none_iff, ?_⟩
  cases hfailure : second.failure with
  | none => simp only [Evaluation.failedPaneLine, Run.failedLine, hfailure, Option.map_none]
  | some message =>
    simp only [Evaluation.failedPaneLine, Run.failedLine, hfailure, Option.map_some, hlength]
    rw [if_neg (by omega), Nat.add_assoc, Nat.add_sub_cancel_left]

/-- The lines of a pane. -/
def linesOf (stackLines witnessLines : List Text) : Pane → List Text
  | .stackElements => stackLines
  | .witnessScript => witnessLines

theorem aligned_of_failed (hstart : m.clear.withTemplate template = start) {message : String}
    (hf : (start.runLines true stackLines).failure = some message) (witnessLines : List Text) :
    (m.evaluate stackLines witnessLines template).1.Aligned
      (fun pane => (linesOf stackLines witnessLines pane).length)
      (fun pane row => (linesOf stackLines witnessLines pane)[row]? = some []) := by
  have hlength := length_snapshots_of_failed hf
  obtain ⟨hboundary, hstack, hwitness, hfailure, hline⟩ :=
    panes_of_failed hstart rfl hf witnessLines
  generalize (m.evaluate stackLines witnessLines template).1 = e at *
  refine ⟨hboundary, fun pane n hn => ?_, fun hpass => absurd hpass hfailure, fun n hn => ?_,
    fun n hn => ?_, fun pane row s hs => ?_⟩
  · cases hline.symm.trans hn
    exact ⟨Nat.succ_pos _, hlength⟩
  · cases hline.symm.trans hn
    exact ⟨by rw [hstack], hwitness⟩
  · cases hline.symm.trans hn
  · cases pane
    · rw [Evaluation.pane, hstack] at hs
      exact isBlank_iff hs
    · rw [Evaluation.pane, hwitness] at hs
      cases hs

theorem aligned_of_passed (hstart : m.clear.withTemplate template = start)
    (hf : (start.runLines true stackLines).failure = none) (witnessLines : List Text) :
    (m.evaluate stackLines witnessLines template).1.Aligned
      (fun pane => (linesOf stackLines witnessLines pane).length)
      (fun pane row => (linesOf stackLines witnessLines pane)[row]? = some []) := by
  have hlength := length_snapshots_of_passed hf
  have hends := length_snapshots false witnessLines (start.runLines true stackLines).machine
  obtain ⟨hboundary, hstack, hwitness, hnone, hline⟩ := panes_of_passed hstart rfl rfl hf
  generalize (m.evaluate stackLines witnessLines template).1 = e at *
  -- Only a line of the second pane can fail.
  have hfailed (pane : Pane) (n : Nat) (hn : e.failedPaneLine = some (pane, n)) :
      pane = .witnessScript ∧ e.witnessPane.length + 1 = n ∧ n ≤ witnessLines.length := by
    rcases hends with ⟨hpassed, -⟩ | ⟨message, hfailure, hlt⟩
    · rw [hline, hpassed] at hn
      cases hn
    · rw [hline, hfailure] at hn
      cases hn
      exact ⟨rfl, by rw [hwitness], hlt⟩
  refine ⟨hboundary, fun pane n hn => ?_, fun hpass pane => ?_, fun n hn => ?_, fun n hn => ?_,
    fun pane row s hs => ?_⟩
  · obtain ⟨rfl, rfl, hle⟩ := hfailed pane n hn
    exact ⟨Nat.succ_pos _, hle⟩
  · rcases hends with ⟨-, hfull⟩ | ⟨message, hfailure, -⟩
    · cases pane
      · exact (congrArg List.length hstack).trans hlength
      · exact (congrArg List.length hwitness).trans hfull
    · rw [hnone.mp hpass] at hfailure
      cases hfailure
  · cases (hfailed _ n hn).1
  · exact ⟨hstack ▸ hlength, (hfailed _ n hn).2.1⟩
  · cases pane
    · rw [Evaluation.pane, hstack] at hs
      exact isBlank_iff hs
    · rw [Evaluation.pane, hwitness] at hs
      exact isBlank_iff hs

end

/-- An evaluation stands beside the lines of its panes; the empty ones are idle. -/
theorem aligned_evaluate (m : Machine) (stackLines witnessLines : List Text)
    (template : Option Template) :
    (m.evaluate stackLines witnessLines template).1.Aligned
      (fun pane => (linesOf stackLines witnessLines pane).length)
      (fun pane row => (linesOf stackLines witnessLines pane)[row]? = some []) := by
  cases hf : ((m.clear.withTemplate template).runLines true stackLines).failure with
  | some message => exact aligned_of_failed rfl hf witnessLines
  | none => exact aligned_of_passed rfl hf witnessLines

/-! ### Both panes together -/

section
variable (m : Machine) (stackLines witnessLines : List Text) (template : Option Template)

end

end Machine

end ScriptBench
