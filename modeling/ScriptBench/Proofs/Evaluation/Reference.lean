import ScriptBench.Evaluation

/-! The reference semantics of an evaluation.

The program is the lines of both panes, those of the first marked as pushes only.
`fedAll` feeds its lines one after another, whatever goes wrong on the way, and
`errorAt?` says what goes wrong at a line: that it is refused, or the error it
leaves in the machine. An evaluation knows neither: it goes pane by pane and ends
at the first line that fails. `evaluate_refines` says that the two agree. -/
namespace ScriptBench

/-- A line of the program and whether it may only push. -/
structure ProgramLine where
  pushOnly : Bool
  text : Text
deriving DecidableEq, Repr

/-- The lines of both panes; only those of the first are held to pushes. -/
def programLines (stackLines witnessLines : List Text) : List ProgramLine :=
  stackLines.map (⟨true, ·⟩) ++ witnessLines.map (⟨false, ·⟩)

namespace Machine

/-- The machine after a line is fed to it; a refused line leaves it as it was. -/
def fed (m : Machine) (l : ProgramLine) : Machine :=
  match m.feed l.pushOnly l.text with
  | .ok n => n
  | .error _ => m

/-- The machine after the lines that are not empty, fed in order. -/
def fedAll (m : Machine) (ls : List ProgramLine) : Machine :=
  (ls.filter (!·.text.isEmpty)).foldl fed m

/-- Why a line fails: it is refused, or the machine is left with an error. -/
def errorOf? (m : Machine) (l : ProgramLine) : Option String :=
  if l.text.isEmpty then none
  else match m.feed l.pushOnly l.text with
    | .error refusal => some refusal.message
    | .ok n => n.error.map (·.message)

/-- Why the line at index `i` fails when all lines before it have been fed. -/
def errorAt? (m : Machine) (ls : List ProgramLine) (i : Nat) : Option String :=
  ls[i]?.bind ((m.fedAll (ls.take i)).errorOf? ·)

/-! ### Lines one at a time -/

theorem fedAll_append (m : Machine) (a b : List ProgramLine) :
    m.fedAll (a ++ b) = (m.fedAll a).fedAll b := by
  simp only [fedAll, List.filter_append, List.foldl_append]

theorem fedAll_cons (m : Machine) (l : ProgramLine) (ls : List ProgramLine) :
    m.fedAll (l :: ls) = (m.fedAll [l]).fedAll ls :=
  fedAll_append m [l] ls

theorem errorAt?_zero (m : Machine) (l : ProgramLine) (ls : List ProgramLine) :
    m.errorAt? (l :: ls) 0 = m.errorOf? l := rfl

theorem errorAt?_succ (m : Machine) (l : ProgramLine) (ls : List ProgramLine) (i : Nat) :
    m.errorAt? (l :: ls) (i + 1) = (m.fedAll [l]).errorAt? ls i := by
  rw [errorAt?, List.getElem?_cons_succ, List.take_succ_cons, fedAll_cons]
  rfl

theorem errorAt?_of_length_le (m : Machine) {ls : List ProgramLine} {i : Nat}
    (h : ls.length ≤ i) : m.errorAt? ls i = none := by
  rw [errorAt?, List.getElem?_eq_none h, Option.bind_none]

/-- What goes wrong at a line depends on no later line. -/
theorem errorAt?_append (m : Machine) {a b : List ProgramLine} {i : Nat} (h : i < a.length) :
    m.errorAt? (a ++ b) i = m.errorAt? a i := by
  rw [errorAt?, List.getElem?_append_left h, List.take_append_of_le_length (Nat.le_of_lt h)]
  rfl

/-- What an evaluation does with one line. -/
theorem step_eq (m : Machine) (pushOnly : Bool) (line : Text) :
    m.step pushOnly line = (m.fedAll [⟨pushOnly, line⟩], m.errorOf? ⟨pushOnly, line⟩) := by
  cases hl : line.isEmpty
  · cases hf : m.feed pushOnly line <;> simp [step, fedAll, errorOf?, fed, hl, hf]
  · simp [step, fedAll, errorOf?, hl]

end Machine

/-! ### Running to the first line that fails -/

/-- What is recorded of a run of the lines `ls` from `m`: a snapshot of every line
before the first that fails, and that one's number and message. -/
structure Traces (m : Machine) (ls : List ProgramLine) (snapshots : List Snapshot)
    (failure : Option FailedLine) : Prop where
  succeeds : failure = none ↔ ∀ i, m.errorAt? ls i = none
  fails : ∀ f, failure = some f →
    ∃ i, f.line = i + 1 ∧ m.errorAt? ls i = some f.message ∧ ∀ j < i, m.errorAt? ls j = none
  length : snapshots.length = failure.elim ls.length (·.line - 1)
  snapshot : ∀ (i : Nat) (s : Snapshot) (l : ProgramLine), snapshots[i]? = some s →
    ls[i]? = some l →
    s = if l.text.isEmpty then .blank else .stack (m.fedAll (ls.take (i + 1))).stack

namespace Traces
variable {m : Machine} {l : ProgramLine} {ls : List ProgramLine} {snapshots : List Snapshot}
  {failure : Option FailedLine}

/-- Nothing to run. -/
theorem nil : Traces m [] [] none where
  succeeds := ⟨fun _ i => m.errorAt?_of_length_le (Nat.zero_le i), fun _ => rfl⟩
  fails := fun _ h => nomatch h
  length := rfl
  snapshot := fun _ _ _ h => nomatch h

/-- A first line that fails ends the run. -/
theorem stop {message : String} (h : m.errorOf? l = some message) :
    Traces m (l :: ls) [] (some ⟨1, message⟩) where
  succeeds := by
    constructor
    · intro hf
      cases hf
    · intro hall
      rw [← m.errorAt?_zero l ls, hall 0] at h
      cases h
  fails := fun f hf => by
    obtain rfl := Option.some.inj hf
    exact ⟨0, rfl, h, fun j hj => absurd hj (Nat.not_lt_zero j)⟩
  length := rfl
  snapshot := fun _ _ _ h => nomatch h

/-- A first line that does not fail adds its snapshot and moves a later failure on by one. -/
theorem cons (h : m.errorOf? l = none) (t : Traces (m.fedAll [l]) ls snapshots failure) :
    Traces m (l :: ls) ((m.fedAll [l]).snapshot l.text :: snapshots)
      (failure.map fun f => ⟨f.line + 1, f.message⟩) where
  succeeds := by
    rw [Option.map_eq_none_iff, t.succeeds]
    constructor
    · intro hall i
      cases i with
      | zero => exact h
      | succ i => rw [Machine.errorAt?_succ]; exact hall i
    · intro hall i
      rw [← Machine.errorAt?_succ]
      exact hall (i + 1)
  fails := fun f hf => by
    obtain ⟨g, hg, rfl⟩ := Option.map_eq_some_iff.mp hf
    obtain ⟨i, hline, herror, hbefore⟩ := t.fails g hg
    refine ⟨i + 1, by rw [hline], by rw [Machine.errorAt?_succ]; exact herror, fun j hj => ?_⟩
    cases j with
    | zero => exact h
    | succ j => rw [Machine.errorAt?_succ]; exact hbefore j (Nat.lt_of_succ_lt_succ hj)
  length := by
    have hlen := t.length
    cases failure with
    | none => simpa using hlen
    | some f =>
      obtain ⟨i, hline, -⟩ := t.fails f rfl
      simp only [Option.elim_some, Option.map_some, List.length_cons] at hlen ⊢
      omega
  snapshot := fun i s k hs hk => by
    cases i with
    | zero =>
      obtain rfl := Option.some.inj hs
      obtain rfl := Option.some.inj hk
      rfl
    | succ i =>
      rw [List.take_succ_cons, Machine.fedAll_cons]
      exact t.snapshot i s k hs hk

/-- Lines counted from one after `before` lines that did not fail. -/
theorem map_line_add (before : Nat) (f : Option FailedLine) :
    (f.map fun g => FailedLine.mk (before + g.line) g.message).map
        (fun g => FailedLine.mk (g.line + 1) g.message) =
      f.map fun g => FailedLine.mk (before + 1 + g.line) g.message := by
  cases f with
  | none => rfl
  | some g => simp only [Option.map_some, Nat.add_right_comm]

/-- What an evaluation records of the lines of a pane whose run fails. -/
theorem of_failed (pushOnly : Bool) (lines : List Text) (rest : List ProgramLine) (m : Machine)
    {message : String} (h : (m.runLines pushOnly lines).failure = some message) :
    Traces m (lines.map (⟨pushOnly, ·⟩) ++ rest) (m.runLines pushOnly lines).snapshots
      ((m.runLines pushOnly lines).failedLine 0) := by
  induction lines generalizing m with
  | nil => cases h
  | cons line lines ih =>
    simp only [Machine.runLines, Machine.step_eq] at h ⊢
    cases herror : m.errorOf? ⟨pushOnly, line⟩ with
    | some why =>
      exact stop herror
    | none =>
      simp only [herror] at h ⊢
      have t := cons herror (ih _ h)
      simpa only [Run.failedLine, h, Option.map_some, List.length_cons, Nat.zero_add,
        List.map_cons, List.cons_append] using t

/-- A pane whose run does not fail hands its machine on to the lines after it. -/
theorem of_passed (pushOnly : Bool) (lines : List Text) (rest : List ProgramLine) (m : Machine)
    (h : (m.runLines pushOnly lines).failure = none)
    (t : Traces (m.runLines pushOnly lines).machine rest snapshots failure) :
    Traces m (lines.map (⟨pushOnly, ·⟩) ++ rest)
      ((m.runLines pushOnly lines).snapshots ++ snapshots)
      (failure.map fun f => ⟨(m.runLines pushOnly lines).snapshots.length + f.line, f.message⟩) := by
  induction lines generalizing m with
  | nil => simpa [Machine.runLines] using t
  | cons line lines ih =>
    simp only [Machine.runLines, Machine.step_eq] at h t ⊢
    cases herror : m.errorOf? ⟨pushOnly, line⟩ with
    | some why => simp [herror] at h
    | none =>
      simp only [herror] at h t ⊢
      have t' := cons herror (ih _ h t)
      rw [map_line_add] at t'
      simpa only [List.map_cons, List.cons_append, List.length_cons] using t'

/-- What an evaluation records of one pane. -/
theorem of_runLines (pushOnly : Bool) (lines : List Text) (m : Machine) :
    Traces m (lines.map (⟨pushOnly, ·⟩)) (m.runLines pushOnly lines).snapshots
      ((m.runLines pushOnly lines).failedLine 0) := by
  cases h : (m.runLines pushOnly lines).failure with
  | some message => simpa only [List.append_nil] using of_failed pushOnly lines [] m h
  | none =>
    simpa only [List.append_nil, Run.failedLine, h, Option.map_none] using
      of_passed pushOnly lines [] m h nil

end Traces

theorem Machine.runLines_machine (pushOnly : Bool) (lines : List Text) (m : Machine)
    (h : (m.runLines pushOnly lines).failure = none) :
    (m.runLines pushOnly lines).machine = m.fedAll (lines.map (⟨pushOnly, ·⟩)) := by
  induction lines generalizing m with
  | nil => rfl
  | cons line lines ih =>
    simp only [Machine.runLines, Machine.step_eq] at h ⊢
    cases herror : m.errorOf? ⟨pushOnly, line⟩ with
    | some why => simp [herror] at h
    | none =>
      simp only [herror] at h ⊢
      exact (ih _ h).trans (m.fedAll_cons _ _).symm

/-! ### Both panes -/

/-- What the reference semantics says of an evaluation that begins with `m`. -/
structure Evaluation.Refines (e : Evaluation) (m : Machine) (stackLines witnessLines : List Text) :
    Prop where
  traces : Traces m (programLines stackLines witnessLines) e.snapshots e.failure
  boundary : e.boundary = stackLines.length
  firstStack : (∀ i < stackLines.length, m.errorAt? (programLines stackLines witnessLines) i = none) →
    e.firstStack =
      (m.fedAll ((programLines stackLines witnessLines).take stackLines.length)).stack
  firstStack_nil : ∀ i < stackLines.length,
    m.errorAt? (programLines stackLines witnessLines) i ≠ none → e.firstStack = []
  panes : e.stackPane ++ e.witnessPane = e.snapshots

/-- The failure of the second pane, counted on from the first. -/
theorem Run.failedLine_add (before : Nat) (r : Run) :
    ((r.failedLine 0).map fun f => FailedLine.mk (before + f.line) f.message) =
      r.failedLine before := by
  cases h : r.failure with
  | none => simp only [Run.failedLine, h, Option.map_none]
  | some message => simp only [Run.failedLine, h, Option.map_some, Nat.zero_add, Nat.add_assoc]

namespace Machine
variable {m start : Machine} {stackLines : List Text} {template : Option Template}

/-- An evaluation whose first pane fails. -/
theorem evaluate_of_failed (hstart : m.clear.withTemplate template = start) {message : String}
    (hf : (start.runLines true stackLines).failure = some message) (witnessLines : List Text) :
    m.evaluate stackLines witnessLines template =
      ({ snapshots := (start.runLines true stackLines).snapshots
         failure := (start.runLines true stackLines).failedLine 0
         firstStack := []
         boundary := stackLines.length
         unlocking := (start.runLines true stackLines).machine.bytecode
         witness := [] }, (start.runLines true stackLines).machine) := by
  simp only [evaluate, hstart, hf]

/-- An evaluation whose first pane does not fail: the second runs on its machine. -/
theorem evaluate_of_passed (hstart : m.clear.withTemplate template = start)
    (hf : (start.runLines true stackLines).failure = none) (witnessLines : List Text)
    {first second : Run} (hfirst : start.runLines true stackLines = first)
    (hsecond : first.machine.runLines false witnessLines = second) :
    m.evaluate stackLines witnessLines template =
      ({ snapshots := first.snapshots ++ second.snapshots
         failure := second.failedLine first.snapshots.length
         firstStack := first.machine.stack
         boundary := stackLines.length
         unlocking := first.machine.bytecode
         witness := second.machine.bytecode.drop first.machine.bytecode.length },
        second.machine) := by
  subst hfirst hsecond
  simp only [evaluate, hstart, hf]

/-- The first pane fails as a whole exactly where one of its lines does. -/
theorem failure_eq_none_iff (start : Machine) (stackLines witnessLines : List Text) :
    (start.runLines true stackLines).failure = none ↔
      ∀ i < stackLines.length, start.errorAt? (programLines stackLines witnessLines) i = none := by
  have hpane (i : Nat) (hi : i < stackLines.length) :
      start.errorAt? (programLines stackLines witnessLines) i =
        start.errorAt? (stackLines.map (⟨true, ·⟩)) i :=
    start.errorAt?_append (by simpa using hi)
  have hsucceeds := (Traces.of_runLines true stackLines start).succeeds
  rw [Run.failedLine, Option.map_eq_none_iff] at hsucceeds
  rw [hsucceeds]
  constructor
  · intro hall i hi
    rw [hpane i hi, hall i]
  · intro hall i
    by_cases hi : i < stackLines.length
    · rw [← hpane i hi, hall i hi]
    · exact start.errorAt?_of_length_le (by simpa using hi)

/-- **An evaluation is the reference semantics**, whatever the machine was before:
it fails exactly at the first line that is refused or leaves an error, and up to
there it records the stacks of the machine that is fed every line. -/
theorem evaluate_refines (m : Machine) (stackLines witnessLines : List Text)
    (template : Option Template) :
    (m.evaluate stackLines witnessLines template).1.Refines (m.clear.withTemplate template)
      stackLines witnessLines := by
  generalize hstart : m.clear.withTemplate template = start
  have hlines := start.failure_eq_none_iff stackLines witnessLines
  cases hf : (start.runLines true stackLines).failure with
  | some message =>
    rw [evaluate_of_failed hstart hf]
    refine ⟨Traces.of_failed true stackLines _ start hf, rfl, fun hnone => ?_, fun _ _ _ => rfl,
      List.take_append_drop ..⟩
    rw [hlines.mpr hnone] at hf
    cases hf
  | none =>
    have hsecond := Traces.of_runLines false witnessLines (start.runLines true stackLines).machine
    have htraces := Traces.of_passed true stackLines _ start hf hsecond
    rw [Run.failedLine_add] at htraces
    rw [evaluate_of_passed hstart hf witnessLines rfl rfl]
    refine ⟨htraces, rfl, fun _ => ?_, fun i hi herror => ?_, List.take_append_drop ..⟩
    · have htake : (programLines stackLines witnessLines).take stackLines.length =
          stackLines.map (⟨true, ·⟩) := by
        simp [programLines]
      rw [htake, ← runLines_machine true stackLines start hf]
    · exact absurd (hlines.mp hf i hi) herror

end Machine

end ScriptBench
