import ScriptBench.Proofs.Bytecode.Listing
import ScriptBench.Proofs.Machine.Pushes
import ScriptBench.Proofs.Machine.Related

/-! Programs on top of a stack.

A program that runs without an error never reaches below the elements it has pushed itself:
every opcode counts its operands from the top. So it does the same on top of other elements
and leaves these alone. The depth of the stack is what it could tell them by, and only
`OP_DEPTH` asks for that. -/
namespace ScriptBench

namespace Stacks

/-- The stacks with elements laid under the main one, the top one of them first. -/
def atop (base : List Element) (s : Stacks) : Stacks := { s with main := s.main ++ base }

/-- Stacks, and the same with `base` under the main one. -/
def IsAtop (base : List Element) (s t : Stacks) : Prop := t = s.atop base

/-- A rearrangement reaches no deeper than it has to. -/
theorem rearranged?_append {α : Type} (m : Move) {s s' : List α} (base : List α)
    (h : m.rearranged? s = some s') : m.rearranged? (s ++ base) = some (s' ++ base) := by
  cases m <;>
    rcases s with _ | ⟨_, _ | ⟨_, _ | ⟨_, _ | ⟨_, _ | ⟨_, _ | ⟨_, s⟩⟩⟩⟩⟩⟩ <;>
    cases h <;> rfl

variable {base : List Element}

theorem IsAtop.related_pick (remove : Bool) (n : Int) :
    Action.Related True (IsAtop base) Eq (Action.pick remove n) (Action.pick remove n) := by
  rintro s t rfl
  unfold Action.pick
  by_cases hn : n < 0
  · simp only [if_pos hn]
    exact .excused trivial
  · simp only [if_neg hn]
    cases hs : s.main[n.toNat]? with
    | none => exact .excused trivial
    | some e =>
      have hlt : n.toNat < s.main.length := (List.getElem?_eq_some_iff.mp hs).1
      have htop : (s.atop base).main[n.toNat]? = some e := by
        rw [atop, List.getElem?_append_left hlt, hs]
      simp only [htop]
      refine .ok rfl ?_
      cases remove with
      | false => rfl
      | true =>
        show _ = atop base _
        simp only [atop, if_true, List.eraseIdx_append_of_lt_length hlt]

theorem IsAtop.related_rearrange (m : Move) :
    Action.Related True (IsAtop base) Eq (Action.rearrange m) (Action.rearrange m) := by
  rintro s t rfl
  unfold Action.rearrange
  cases hs : m.rearranged? s.main with
  | none => exact .excused trivial
  | some main =>
    simp only [atop, rearranged?_append m base hs]
    exact .ok rfl rfl

/-- Where an action succeeds, it does the same on top of other elements. -/
theorem IsAtop.respected : Action.Respected True (IsAtop base) Eq where
  -- An action that finds too few elements fails, and nothing is asked of it on top of more.
  bytes := congrArg Element.bytes
  refl := fun _ _ => rfl
  push := by
    rintro a _ rfl s _ rfl
    exact .ok rfl rfl
  pop := by
    rintro s _ rfl
    unfold Action.pop atop
    cases s.main with
    | nil => exact .excused trivial
    | cons e rest => exact .ok rfl rfl
  top := by
    rintro s _ rfl
    unfold Action.top
    cases hs : s.main with
    | nil => exact .excused trivial
    | cons e rest =>
      simp only [atop, hs]
      exact .ok rfl (by rw [IsAtop, atop, hs])
  pick := related_pick
  rearrange := related_rearrange
  toAlt := by
    rintro a _ rfl s _ rfl
    exact .ok rfl rfl
  fromAlt := by
    rintro s _ rfl
    unfold Action.fromAlt
    cases hs : s.alt with
    | nil => exact .excused trivial
    | cons e rest =>
      simp only [atop, hs]
      exact .ok rfl rfl

theorem IsAtop.respectedBlocks : Action.RespectedBlocks True (IsAtop base) where
  executing := by
    rintro s _ rfl
    exact .ok rfl rfl
  openBlock := by
    rintro c s _ rfl
    exact .ok rfl rfl
  turnBlock := by
    rintro s _ rfl
    unfold Action.turnBlock
    cases hs : s.conditions with
    | nil => exact .excused trivial
    | cons c rest =>
      simp only [atop, hs]
      exact .ok rfl rfl
  closeBlock := by
    rintro s _ rfl
    unfold Action.closeBlock
    cases hs : s.conditions with
    | nil => exact .excused trivial
    | cons c rest =>
      simp only [atop, hs]
      exact .ok rfl rfl

/-- An operation that succeeds does the same on top of other elements. -/
theorem runInPlace_atop {t : Option Template} {op : Operation} (hdepth : op ≠ .depth)
    {s s' : Stacks} (h : op.runInPlace t s = .ok () s') :
    op.runInPlace t (s.atop base) = .ok () (s'.atop base) := by
  have hrelated := IsAtop.respected.runInPlace IsAtop.respectedBlocks t op
    (fun hop => absurd hop hdepth) s (s.atop base) rfl
  rw [h] at hrelated
  generalize op.runInPlace t (s.atop base) = result at hrelated ⊢
  cases hrelated with
  | ok _ hatop => rw [hatop]

end Stacks

/-- Only the word `OP_DEPTH` names the depth of the stack. -/
theorem Opcode.ne_depth_of_word {r : RuleSet} {w : String} {o : Opcode} (h : r.opcode? w = some o)
    (hw : w ≠ "OP_DEPTH") : o.operation ≠ .depth := by
  intro hdepth
  obtain ⟨hknown, hword⟩ := RuleSet.mem_of_opcode? h
  have htable : ∀ o ∈ opcodes, o.operation = .depth → o.words = ["OP_DEPTH"] := by decide +kernel
  rw [htable o (RuleSet.mem_opcodes hknown) hdepth, List.mem_singleton] at hword
  exact hw hword

namespace Machine
variable {m : Machine}

/-- The machine with elements pushed before everything it has done. -/
def above (m : Machine) (elements : List Element) : Machine :=
  { m with
    main := m.main ++ elements.reverse
    bytecode := (elements.flatMap fun e => Bytecode.push e.bytes) ++ m.bytecode }

/-- A call without an error does the same on top of other elements. -/
theorem call_above {c : Call} (elements : List Element) (hdepth : c ≠ .word "OP_DEPTH")
    (h : (m.call c).error = none) : (m.above elements).call c = (m.call c).above elements := by
  obtain ⟨hm, ⟨l, e, rfl, hl, hsize, hcall⟩ | ⟨w, o, s, rfl, ho, hallowed, hrun, hcall⟩⟩ :=
    call_cases h
  · have hexecuting : (m.above elements).executing = m.executing := rfl
    rw [hcall, call_literal (m := m.above elements) hm hl hsize, hexecuting]
    cases m.executing <;> simp [above]
  · -- The opcode succeeds on the stacks alone, so it may not fail on top of more.
    have hop := Opcode.ne_depth_of_word ho fun hw => hdepth (congrArg Call.word hw)
    have hatop : o.operation.runInPlace m.template (m.above elements).toStacks =
        .ok () (s.atop elements.reverse) := Stacks.runInPlace_atop hop hrun
    rw [hcall, call_opcode (m := m.above elements) hm ho hallowed]
    simp only [perform, above] at hatop ⊢
    simp only [hatop, Stacks.atop, List.append_assoc]

/-- A run without an error does the same on top of other elements. -/
theorem run_above {calls : List Call} (elements : List Element)
    (hdepth : ∀ c ∈ calls, c ≠ .word "OP_DEPTH") (h : (m.run calls).error = none) :
    (m.above elements).run calls = (m.run calls).above elements := by
  induction calls generalizing m with
  | nil => rfl
  | cons c rest ih =>
    rw [run_cons] at h
    rw [run_cons, run_cons, call_above elements (hdepth c List.mem_cons_self) (error_of_run h)]
    exact ih (fun c hc => hdepth c (List.mem_cons_of_mem _ hc)) h

/-- What a program leaves on top of elements, compared with what it leaves alone. -/
structure Framed (elements : List Element) (framed alone : Machine) : Prop where
  error : framed.error = none
  stack : framed.stack = elements ++ alone.stack
  alt : framed.alt = alone.alt
  conditions : framed.conditions = alone.conditions

/-- Elements pushed on a machine just started lie under everything it does later. -/
theorem pushed_started (r : RuleSet) (t : Option Template) (elements : List Element) :
    (started r t).pushed elements = (started r t).above elements := by
  cases t <;> simp [pushed, above, started, withTemplate, new]

/-- **A program does the same on top of a stack.** A program that ends without an error on
an empty machine, and does not ask for the depth, ends without an error after literals
exactly when each of these pushes an element; and then their elements lie untouched under
what the program leaves alone. -/
theorem run_frame (r : RuleSet) (t : Option Template) (literals : List Literal)
    (calls : List Call) (hdepth : ∀ c ∈ calls, c ≠ .word "OP_DEPTH")
    (h : ((started r t).run calls).error = none) :
    (((started r t).run (literals.map .push ++ calls)).error = none ↔
      ∀ l ∈ literals, ∃ e, l.Pushes e) ∧
    ∀ elements, List.Forall₂ Literal.Pushes literals elements →
      Framed elements ((started r t).run (literals.map .push ++ calls))
        ((started r t).run calls) := by
  -- The literals first push their elements, and from there on the program runs above them.
  have hframed (elements) (hpushes : List.Forall₂ Literal.Pushes literals elements) :
      Framed elements ((started r t).run (literals.map .push ++ calls))
        ((started r t).run calls) := by
    rw [run_append, run_pushes (started_error r t) (started_executing r t) hpushes,
      pushed_started, run_above elements hdepth h]
    exact ⟨h, by simp [stack, above], rfl, rfl⟩
  refine ⟨?_, hframed⟩
  rw [← Literal.exists_pushes_iff]
  constructor
  · intro herror
    rw [run_append] at herror
    exact exists_pushes (started_executing r t) (error_of_run herror)
  · rintro ⟨elements, hpushes⟩
    exact (hframed elements hpushes).error

/-- A program that reaches below its own top element, on top of two more. -/
def pickingProgram : List Call :=
  [.push (.number 7), .push (.number 8), .push (.number 1), .word "OP_PICK", .word "OP_TOALTSTACK"]

theorem run_frame_picking :
    (∀ c ∈ pickingProgram, c ≠ .word "OP_DEPTH") ∧
    ((started .standard none).run pickingProgram).error = none ∧
    ((started .standard none).run pickingProgram).alt = [.number 7] ∧
    Framed [.number 1, .text ['a']]
      ((started .standard none).run ([.number 1, .text ['a']].map .push ++ pickingProgram))
      ((started .standard none).run pickingProgram) := by
  have hpushes : List.Forall₂ Literal.Pushes [.number 1, .text ['a']]
      [.number 1, .text ['a']] :=
    .cons ⟨rfl, by decide +kernel⟩ (.cons ⟨rfl, by decide +kernel⟩ .nil)
  have hdepth : ∀ c ∈ pickingProgram, c ≠ .word "OP_DEPTH" := by decide +kernel
  have herror : ((started .standard none).run pickingProgram).error = none := by decide +kernel
  obtain ⟨-, hframed⟩ := run_frame .standard none [.number 1, .text ['a']] pickingProgram
    hdepth herror
  exact ⟨hdepth, herror, by decide +kernel, hframed _ hpushes⟩

/-- Not every literal pushes: on top of one that is too long, no program runs. -/
theorem run_tooLong :
    (∀ c ∈ [Call.word "OP_1"], c ≠ .word "OP_DEPTH") ∧
    ((started .standard none).run [.word "OP_1"]).error = none ∧
    ((started .standard none).run
        ([.text (List.replicate 521 'a')].map .push ++ [.word "OP_1"])).error =
      some (.literalSize 521 520) := by
  refine ⟨?_, ?_, ?_⟩ <;> decide +kernel

end Machine

end ScriptBench
