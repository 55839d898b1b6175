import ScriptBench.Input

/-! Evaluating two panes as one program.

The lines of the first pane only push; those of the second may be any. The stack
is recorded after every line, and the run ends at the first line that fails, so
that a run without failure has one snapshot a line, and a run that fails at line
`n` has `n - 1`. -/
namespace ScriptBench

/-- The stack after a line, bottom first; nothing for an empty line. -/
inductive Snapshot where
  | blank
  | stack (elements : List Element)
deriving DecidableEq, Repr

def Snapshot.elements : Snapshot → List Element
  | blank => []
  | stack es => es

def Snapshot.isBlank : Snapshot → Bool
  | blank => true
  | stack _ => false

/-- The line that failed, counted from one over both panes, and why. -/
structure FailedLine where
  line : Nat
  message : String
deriving DecidableEq, Repr

inductive Pane where
  | stackElements
  | witnessScript
deriving DecidableEq, Repr

structure Evaluation where
  snapshots : List Snapshot
  failure : Option FailedLine
  /-- The stack after the first pane, bottom first; empty when that pane fails. -/
  firstStack : List Element
  /-- How many lines the first pane has. -/
  boundary : Nat
  unlocking : Bytes
  witness : Bytes
deriving DecidableEq, Repr

namespace Evaluation

def stackPane (e : Evaluation) : List Snapshot := e.snapshots.take e.boundary

def witnessPane (e : Evaluation) : List Snapshot := e.snapshots.drop e.boundary

/-- How many lines were executed, the empty ones not counted. -/
def executed (e : Evaluation) : Nat := e.snapshots.countP (!·.isBlank)

/-- The line that failed, counted from one within its pane. -/
def failedPaneLine (e : Evaluation) : Option (Pane × Nat) :=
  e.failure.map fun f =>
    if f.line ≤ e.boundary then (.stackElements, f.line) else (.witnessScript, f.line - e.boundary)

def message (e : Evaluation) : Option String := e.failure.map (·.message)

/-- The whole program. -/
def bytecode (e : Evaluation) : Bytes := e.unlocking ++ e.witness

end Evaluation

/-- What running some lines leaves: a snapshot for each line before the first that
fails, the message of that one, and the machine. -/
structure Run where
  snapshots : List Snapshot
  failure : Option String
  machine : Machine
deriving DecidableEq, Repr

/-- The machine after one line, and the message of the error it is left in. -/
def Machine.step (m : Machine) (pushOnly : Bool) (line : Text) : Machine × Option String :=
  if line.isEmpty then (m, none)
  else match m.feed pushOnly line with
    | .error refusal => (m, some refusal.message)
    | .ok m => (m, m.error.map (·.message))

/-- What is recorded after a line that does not fail. -/
def Machine.snapshot (m : Machine) (line : Text) : Snapshot :=
  if line.isEmpty then .blank else .stack m.stack

/-- Runs lines one after another until one fails. -/
def Machine.runLines (m : Machine) (pushOnly : Bool) : List Text → Run
  | [] => ⟨[], none, m⟩
  | line :: rest =>
    match m.step pushOnly line with
    | (m, some message) => ⟨[], some message, m⟩
    | (m, none) =>
      let tail := m.runLines pushOnly rest
      { tail with snapshots := m.snapshot line :: tail.snapshots }

/-- The failure of a run that is preceded by `before` lines. -/
def Run.failedLine (before : Nat) (r : Run) : Option FailedLine :=
  r.failure.map (⟨before + r.snapshots.length + 1, ·⟩)

/-- Evaluates both panes on a cleared machine, under a template if there is one. -/
def Machine.evaluate (m : Machine) (stackLines witnessLines : List Text)
    (template : Option Template) : Evaluation × Machine :=
  let first := (m.clear.withTemplate template).runLines true stackLines
  match first.failure with
  | some _ =>
    ({ snapshots := first.snapshots
       failure := first.failedLine 0
       firstStack := []
       boundary := stackLines.length
       unlocking := first.machine.bytecode
       witness := [] }, first.machine)
  | none =>
    let second := first.machine.runLines false witnessLines
    ({ snapshots := first.snapshots ++ second.snapshots
       failure := second.failedLine first.snapshots.length
       firstStack := first.machine.stack
       boundary := stackLines.length
       unlocking := first.machine.bytecode
       witness := second.machine.bytecode.drop first.machine.bytecode.length }, second.machine)

/-- Evaluates both panes under a rule set. -/
def RuleSet.evaluate (r : RuleSet) (stackLines witnessLines : List Text)
    (template : Option Template) : Evaluation :=
  ((Machine.new r).evaluate stackLines witnessLines template).1

end ScriptBench
