import ScriptBench.Proofs.Machine.Run
import ScriptBench.Proofs.Opcode.Table

/-! Well-nested programs and what they mean.

A program is a tree: calls outside of the conditional structure, and blocks with one
branch or more. `Program.calls` writes it out as the flat sequence of calls that a
machine is fed. `Program.evaluate` gives its meaning by recursion on the tree, on the
two stacks of data alone: the condition of a block is popped once, the branches with
even numbers are run when it holds and the others when it does not. A branch that is
not run is skipped: it does nothing, but a call that could never be executed under the
rule set is an error there too. -/
namespace ScriptBench

/-- Outside of the conditional structure: any literal, and any word but its four. -/
def Call.isPlain : Call → Bool
  | .push _ => true
  | .word w => !conditionalWords.contains w

theorem not_isConditional_of_isPlain {r : RuleSet} {w : String} {o : Opcode}
    (ho : r.opcode? w = some o) (h : (Call.word w).isPlain = true) :
    o.operation.isConditional = false :=
  not_isConditional_of_word ho (by simpa [Call.isPlain] using h)

mutual

/-- A well-nested program. -/
inductive Program where
  | done
  | call (c : Call) (plain : c.isPlain = true) (rest : Program)
  | block (negated : Bool) (branches : Branches) (rest : Program)

/-- The branches of a block in order. -/
inductive Branches where
  | last (branch : Program)
  | turn (branch : Program) (rest : Branches)

end

/-- The word that opens a block. -/
def openingWord (negated : Bool) : String := if negated then "OP_NOTIF" else "OP_IF"

mutual

/-- The calls of a program in order. -/
def Program.calls : Program → List Call
  | .done => []
  | .call c _ rest => c :: rest.calls
  | .block negated branches rest =>
    .word (openingWord negated) :: (branches.calls ++ rest.calls)

/-- The calls of a block after the word that opens it. -/
def Branches.calls : Branches → List Call
  | .last branch => branch.calls ++ [.word "OP_ENDIF"]
  | .turn branch rest => branch.calls ++ .word "OP_ELSE" :: rest.calls

end

/-! ### Faults -/

/-- The five ways in which a call is wrong under a rule set. -/
inductive Call.Faulty (r : RuleSet) : Call → ScriptError → Prop where
  | invalidHex {digits} : Bytes.ofHex? digits = none →
    Faulty r (.push (.hex digits)) (.invalidHex (String.ofList digits))
  | invalidBinary {digits} : Bytes.ofBinary? digits = none →
    Faulty r (.push (.binary digits)) (.invalidBinary (String.ofList digits))
  | tooLong {l e} : l.element = .ok e → 520 < e.size →
    Faulty r (.push l) (.literalSize e.size 520)
  | unknown {w} : r.opcode? w = none → Faulty r (.word w) (.unknownOpcode w)
  | disabled {w o} : r.opcode? w = some o → o.operation.allowed r = false →
    Faulty r (.word w) (.opcode o.word .disabled)

/-- A literal without an element has digits that are not whole bytes. -/
theorem Literal.faulty_of_element {r : RuleSet} {l : Literal} {e : ScriptError}
    (h : l.element = .error e) : Call.Faulty r (.push l) e := by
  cases l with
  | hex digits =>
    simp only [element] at h
    cases hd : Bytes.ofHex? digits with
    | some b => rw [hd] at h; cases h
    | none =>
      rw [hd] at h
      cases h
      exact .invalidHex hd
  | binary digits =>
    simp only [element] at h
    cases hd : Bytes.ofBinary? digits with
    | some b => rw [hd] at h; cases h
    | none =>
      rw [hd] at h
      cases h
      exact .invalidBinary hd
  | number n => cases h
  | text t => cases h

theorem Call.faulty_of_fault? {r : RuleSet} {c : Call} {e : ScriptError}
    (h : c.fault? r = some e) : c.Faulty r e := by
  cases c with
  | push l =>
    simp only [fault?] at h
    cases hl : l.element with
    | error why =>
      rw [hl] at h
      obtain rfl := Option.some.inj h
      exact Literal.faulty_of_element hl
    | ok el =>
      rw [hl] at h
      dsimp only at h
      split at h
      · cases h
      · rename_i hsize
        obtain rfl := Option.some.inj h
        exact .tooLong hl (Nat.not_le.mp hsize)
  | word w =>
    simp only [fault?] at h
    cases ho : r.opcode? w with
    | none =>
      rw [ho] at h
      obtain rfl := Option.some.inj h
      exact .unknown ho
    | some o =>
      rw [ho] at h
      dsimp only at h
      split at h
      · cases h
      · rename_i hallowed
        obtain rfl := Option.some.inj h
        exact .disabled ho (Bool.not_eq_true _ ▸ hallowed)

/-- The first error among calls that are skipped. -/
def faultOf? (r : RuleSet) (calls : List Call) : Option ScriptError :=
  calls.findSome? (·.fault? r)

theorem faultOf?_append (r : RuleSet) (a b : List Call) :
    faultOf? r (a ++ b) = (faultOf? r a).or (faultOf? r b) :=
  List.findSome?_append

theorem faultOf?_cons (r : RuleSet) (c : Call) (calls : List Call) :
    faultOf? r (c :: calls) = (c.fault? r).or (faultOf? r calls) := by
  rw [faultOf?, List.findSome?_cons]
  cases c.fault? r <;> rfl

theorem exists_faulty_of_faultOf? {r : RuleSet} {calls : List Call} {e : ScriptError}
    (h : faultOf? r calls = some e) : ∃ c ∈ calls, c.Faulty r e := by
  obtain ⟨c, hc, hfault⟩ := List.exists_of_findSome?_eq_some h
  exact ⟨c, hc, Call.faulty_of_fault? hfault⟩

/-! ### Evaluation -/

/-- The two stacks of data, tops first. -/
structure Data where
  main : List Element
  alt : List Element
deriving DecidableEq, Repr

/-- The stacks of a machine: data under conditions. -/
def Data.under (conditions : List Bool) (d : Data) : Stacks := ⟨d.main, d.alt, conditions⟩

/-- What a call outside of the conditional structure does to the data. -/
def Call.evaluate (r : RuleSet) (t : Option Template) (d : Data) : Call → Except ScriptError Data
  | .push l =>
    match l.element with
    | .error e => .error e
    | .ok e =>
      if e.size ≤ Element.maxSize then .ok { d with main := e :: d.main }
      else .error (.literalSize e.size Element.maxSize)
  | .word w =>
    match r.opcode? w with
    | none => .error (.unknownOpcode w)
    | some o =>
      if o.operation.allowed r then
        match o.operation.run t (d.under []) with
        | .ok _ s => .ok ⟨s.main, s.alt⟩
        | .error fault _ => .error (.opcode o.word fault)
      else .error (.opcode o.word .disabled)

/-- A call with a fault fails with it. -/
theorem Call.evaluate_fault {r : RuleSet} {c : Call} {e : ScriptError} (h : c.fault? r = some e)
    (t : Option Template) (d : Data) : c.evaluate r t d = .error e := by
  cases c with
  | push l =>
    simp only [fault?] at h
    simp only [evaluate]
    cases hl : l.element with
    | error why =>
      rw [hl] at h
      exact congrArg _ (Option.some.inj h)
    | ok el =>
      by_cases hsize : el.size ≤ Element.maxSize
      · simp only [hl, if_pos hsize] at h
        cases h
      · simp only [hl, if_neg hsize] at h ⊢
        exact congrArg _ (Option.some.inj h)
  | word w =>
    simp only [fault?] at h
    simp only [evaluate]
    cases ho : r.opcode? w with
    | none =>
      rw [ho] at h
      exact congrArg _ (Option.some.inj h)
    | some o =>
      cases hallowed : o.operation.allowed r with
      | true =>
        simp only [ho, hallowed, if_true] at h
        cases h
      | false =>
        simp only [ho, hallowed, Bool.false_eq_true, if_false] at h ⊢
        exact congrArg _ (Option.some.inj h)

/-- Skips a program: the data stay as they are. -/
def Program.skip (r : RuleSet) (p : Program) (d : Data) : Except ScriptError Data :=
  match faultOf? r p.calls with
  | none => .ok d
  | some e => .error e

/-- Whether branch number `i` of a block is run, counted from zero. -/
def Branches.taken (condition : Bool) (i : Nat) : Bool := (i % 2 == 0) == condition

theorem Branches.taken_zero (condition : Bool) : taken condition 0 = condition := by
  cases condition <;> rfl

theorem Branches.taken_succ (condition : Bool) (i : Nat) :
    taken condition (i + 1) = !taken condition i := by
  have h : ((i + 1) % 2 == 0) = !(i % 2 == 0) := by
    rcases Nat.mod_two_eq_zero_or_one i with hi | hi <;> simp [Nat.add_mod, hi]
  rw [taken, taken, h]
  cases condition <;> cases (i % 2 == 0) <;> rfl

mutual

/-- Runs a program on the data. -/
def Program.evaluate (r : RuleSet) (t : Option Template) : Program → Data → Except ScriptError Data
  | .done, d => .ok d
  | .call c _ rest, d => do rest.evaluate r t (← c.evaluate r t d)
  | .block negated branches rest, d =>
    match d.main with
    | [] => .error (.opcode (openingWord negated) .underflow)
    | e :: main => do
      rest.evaluate r t (← branches.evaluate r t (e.isTrue != negated) 0 { d with main })

/-- Runs the branches whose turn it is, the first of them being number `i`. -/
def Branches.evaluate (r : RuleSet) (t : Option Template) (condition : Bool) (i : Nat) :
    Branches → Data → Except ScriptError Data
  | .last branch, d => if Branches.taken condition i then branch.evaluate r t d else branch.skip r d
  | .turn branch rest, d =>
    (if Branches.taken condition i then branch.evaluate r t d else branch.skip r d) >>=
      rest.evaluate r t condition (i + 1)

end

end ScriptBench
