import ScriptBench.Proofs.Machine.Arithmetic
import ScriptBench.Proofs.Machine.Pushes

/-! Calls followed on the stacks.

While a machine has no error, its outcome is its stacks. In a branch that is run a literal puts
its element on them, and an opcode does to them what its operation does, whatever has been
recorded before. So a program is followed call by call on the stacks alone. -/
namespace ScriptBench

/-- Numbers that arithmetic takes have four bytes at most. -/
theorem Element.size_number_le {n : Int} (h : n.natAbs < 2 ^ 31) : (number n).size ≤ 4 :=
  Number.length_encode_le_iff.mpr h

/-- They are popped as they were pushed. -/
theorem Action.popNumber_number {n : Int} (h : n.natAbs < 2 ^ 31) (main alt : List Element)
    (conditions : List Bool) :
    popNumber ⟨.number n :: main, alt, conditions⟩ = .ok n ⟨main, alt, conditions⟩ := by
  have hpop := reads_popNumber.ok (Element.size_number_le h) main alt conditions
  rwa [Element.bytes, Number.value_encode] at hpop

namespace Machine
variable {m : Machine} {s : Stacks}

/-- A literal that pushes. -/
theorem outcome_push (h : m.outcome = .ok s) (hexecuting : s.executing = true) {l : Literal}
    {e : Element} (hl : l.Pushes e) :
    (m.call (.push l)).outcome = .ok { s with main := e :: s.main } := by
  obtain ⟨hm, rfl⟩ := outcome_ok_iff.mp h
  rw [call_pushes hm hexecuting hl]
  exact outcome_ok_iff.mpr ⟨hm, rfl⟩

/-- A number that arithmetic takes. -/
theorem outcome_number (h : m.outcome = .ok s) (hexecuting : s.executing = true) {n : Int}
    (hn : n.natAbs < 2 ^ 31) :
    (m.call (.push (.number n))).outcome = .ok { s with main := .number n :: s.main } :=
  outcome_push h hexecuting ⟨rfl, Nat.le_trans (Element.size_number_le hn) (by decide)⟩

section
variable {o : Opcode} (h : m.outcome = .ok s) (hexecuting : s.executing = true)
  (ho : o ∈ m.rules.known) (hallowed : o.operation.allowed m.rules = true)
include h hexecuting ho hallowed

/-- An opcode whose operation succeeds. -/
theorem outcome_ok {s' : Stacks} (hrun : o.operation.run m.template s = .ok () s') :
    (m.call (.word o.word)).outcome = .ok s' := by
  obtain ⟨hm, rfl⟩ := outcome_ok_iff.mp h
  rw [call_known hm hexecuting ho hallowed]
  simp only [perform, hrun]
  exact outcome_ok_iff.mpr ⟨hm, rfl⟩

/-- An opcode whose operation fails. -/
theorem outcome_error {fault : Fault} {s' : Stacks}
    (hrun : o.operation.run m.template s = .error fault s') :
    (m.call (.word o.word)).outcome = .error (.opcode o.word fault) := by
  obtain ⟨hm, rfl⟩ := outcome_ok_iff.mp h
  rw [call_known hm hexecuting ho hallowed]
  simp only [perform, hrun]
  exact outcome_error_iff.mpr rfl

/-- An opcode whose operation succeeds under a condition. -/
theorem outcome_ite {p : Prop} [Decidable p] {fault : Fault} {s' s'' : Stacks}
    (hrun : o.operation.run m.template s = if p then .ok () s' else .error fault s'') :
    (m.call (.word o.word)).outcome = if p then .ok s' else .error (.opcode o.word fault) := by
  split at hrun
  · rw [if_pos ‹_›]
    exact outcome_ok h hexecuting ho hallowed hrun
  · rw [if_neg ‹_›]
    exact outcome_error h hexecuting ho hallowed hrun

end

end Machine

end ScriptBench
