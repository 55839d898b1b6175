import Mathlib.Data.List.Forall2
import ScriptBench.Proofs.Machine.Run

/-! Running literals.

A literal that is well formed and not too long is recorded and, where the branch is run,
pushed; any other is an error. So a run of literals in a branch that is run ends without
an error exactly when each of them can be pushed, and then it has put their elements on
the stack one after another and changed nothing else. -/
namespace ScriptBench

/-- A literal that pushes an element: it is well formed, and not too long. -/
structure Literal.Pushes (l : Literal) (e : Element) : Prop where
  element : l.element = .ok e
  size : e.size ≤ Element.maxSize

/-- Literals that each push an element push a list of elements. -/
theorem Literal.exists_pushes_iff {literals : List Literal} :
    (∃ elements, List.Forall₂ Pushes literals elements) ↔ ∀ l ∈ literals, ∃ e, l.Pushes e := by
  induction literals with
  | nil => simp
  | cons l rest ih =>
    rw [List.forall_mem_cons, ← ih]
    constructor
    · rintro ⟨_, hl | ⟨hl, hrest⟩⟩
      exact ⟨⟨_, hl⟩, ⟨_, hrest⟩⟩
    · rintro ⟨⟨e, hl⟩, ⟨elements, hrest⟩⟩
      exact ⟨e :: elements, .cons hl hrest⟩

namespace Machine
variable {m : Machine} {literals : List Literal} {elements : List Element}

/-- The machine with elements pushed, the last of them on top, and their pushes recorded. -/
def pushed (m : Machine) (elements : List Element) : Machine :=
  { m with
    main := elements.reverse ++ m.main
    bytecode := m.bytecode ++ elements.flatMap fun e => Bytecode.push e.bytes }

theorem pushed_nil (m : Machine) : m.pushed [] = m := by
  simp [pushed]

theorem pushed_cons (m : Machine) (e : Element) (rest : List Element) :
    m.pushed (e :: rest) = (m.pushed [e]).pushed rest := by
  simp [pushed]

/-- One literal, in a branch that is run. -/
theorem call_pushes (hm : m.error = none) (hrun : m.executing = true) {l : Literal} {e : Element}
    (h : l.Pushes e) : m.call (.push l) = m.pushed [e] := by
  rw [call_literal hm h.element h.size, if_pos hrun]
  simp [pushed]

/-- The literals of a run push their elements. -/
theorem run_pushes (hm : m.error = none) (hrun : m.executing = true)
    (h : List.Forall₂ Literal.Pushes literals elements) :
    m.run (literals.map .push) = m.pushed elements := by
  induction h generalizing m with
  | nil => exact (pushed_nil m).symm
  | @cons l e _ rest hl _ ih =>
    rw [List.map_cons, run_cons, call_pushes hm hrun hl, pushed_cons m e rest]
    exact ih hm hrun

/-- A literal that leaves no error pushes an element. -/
theorem pushes_of_call {l : Literal} (h : (m.call (.push l)).error = none) :
    ∃ e, l.Pushes e := by
  obtain ⟨-, ⟨_, e, hpush, helement, hsize, -⟩ | ⟨w, _, _, hword, -⟩⟩ := call_cases h
  · cases hpush
    exact ⟨e, helement, hsize⟩
  · cases hword

/-- Where a run of literals ends without an error, each of them pushes an element. -/
theorem exists_pushes (hrun : m.executing = true)
    (h : (m.run (literals.map .push)).error = none) :
    ∃ elements, List.Forall₂ Literal.Pushes literals elements := by
  induction literals generalizing m with
  | nil => exact ⟨[], .nil⟩
  | cons l rest ih =>
    rw [List.map_cons, run_cons] at h
    have hcall := error_of_run h
    obtain ⟨e, hl⟩ := pushes_of_call hcall
    rw [call_pushes (error_of_call hcall) hrun hl] at h
    obtain ⟨elements, hrest⟩ := ih (m := m.pushed [e]) hrun h
    exact ⟨e :: elements, .cons hl hrest⟩

end Machine

end ScriptBench
