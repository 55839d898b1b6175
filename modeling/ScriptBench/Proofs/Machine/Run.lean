import ScriptBench.Machine

/-! Running calls one after another.

A machine that holds an error stays as it is, and no call changes its rule set or
its template. Of what a run leaves, `Machine.outcome` is the part that scripts can
tell: the stacks, or the first error. `call_push`, `call_word` and their outcomes say
once what a call does; later proofs do not open the machine. -/
namespace ScriptBench

/-- An operation does nothing in a branch that is not taken, the conditional structure apart. -/
theorem Operation.runInPlace_eq (t : Option Template) (op : Operation) (s : Stacks) :
    op.runInPlace t s = if op.isConditional || s.executing then op.run t s else .ok () s := by
  show (if op.isConditional || s.executing then op.run t else pure ()) s = _
  split <;> rfl

/-- What is wrong with a call whatever the stacks hold, found before it is executed. -/
def Call.fault? (r : RuleSet) : Call → Option ScriptError
  | .push l =>
    match l.element with
    | .error e => some e
    | .ok e =>
      if e.size ≤ Element.maxSize then none else some (.literalSize e.size Element.maxSize)
  | .word w =>
    match r.opcode? w with
    | none => some (.unknownOpcode w)
    | some o => if o.operation.allowed r then none else some (.opcode o.word .disabled)

/-- A call without a fault is a literal that may be pushed or an opcode that is allowed. -/
theorem Call.cases_of_fault?_none {r : RuleSet} {c : Call} (h : c.fault? r = none) :
    (∃ l e, c = .push l ∧ l.element = .ok e ∧ e.size ≤ Element.maxSize) ∨
      ∃ w o, c = .word w ∧ r.opcode? w = some o ∧ o.operation.allowed r = true := by
  cases c with
  | push l =>
    simp only [fault?] at h
    split at h
    · cases h
    · rename_i e hl
      split at h
      · exact .inl ⟨l, e, rfl, hl, ‹_›⟩
      · cases h
  | word w =>
    simp only [fault?] at h
    split at h
    · cases h
    · rename_i o ho
      split at h
      · exact .inr ⟨w, o, rfl, ho, ‹_›⟩
      · cases h

namespace Machine
variable {m : Machine}

/-! ### The first error is kept -/

theorem call_of_error {e : ScriptError} (h : m.error = some e) (c : Call) : m.call c = m := by
  simp only [call, h]

theorem run_append (m : Machine) (a b : List Call) : m.run (a ++ b) = (m.run a).run b :=
  List.foldl_append

theorem run_cons (m : Machine) (c : Call) (calls : List Call) :
    m.run (c :: calls) = (m.call c).run calls := rfl

theorem run_of_error {e : ScriptError} (h : m.error = some e) (calls : List Call) :
    m.run calls = m := by
  induction calls with
  | nil => rfl
  | cons c rest ih => rw [run_cons, call_of_error h, ih]

theorem error_of_run {calls : List Call} (h : (m.run calls).error = none) : m.error = none := by
  cases he : m.error with
  | none => rfl
  | some e => rw [run_of_error he, he] at h; cases h

theorem error_of_call {c : Call} (h : (m.call c).error = none) : m.error = none :=
  @error_of_run m [c] h

/-! ### What a call does -/

theorem call_push (h : m.error = none) (l : Literal) :
    m.call (.push l) =
      match l.element with
      | .ok e => m.pushElement e
      | .error e => m.fail e := by
  obtain ⟨s, rules, error, template, bytecode⟩ := m
  obtain rfl : error = none := h
  rfl

theorem call_word (h : m.error = none) (w : String) :
    m.call (.word w) =
      match m.rules.opcode? w with
      | some o => m.runOpcode o
      | none => m.fail (.unknownOpcode w) := by
  obtain ⟨s, rules, error, template, bytecode⟩ := m
  obtain rfl : error = none := h
  rfl

theorem perform_frame (m : Machine) (word : String) (action : Action Unit) :
    (m.perform word action).rules = m.rules ∧ (m.perform word action).template = m.template := by
  unfold perform
  split <;> exact ⟨rfl, rfl⟩

/-- No call changes the rule set or the template. -/
theorem call_frame (m : Machine) (c : Call) :
    (m.call c).rules = m.rules ∧ (m.call c).template = m.template := by
  cases he : m.error with
  | some e => rw [call_of_error he]; exact ⟨rfl, rfl⟩
  | none =>
    cases c with
    | push l =>
      rw [call_push he]
      cases l.element with
      | error e => exact ⟨rfl, rfl⟩
      | ok e =>
        simp only [pushElement]
        split <;> exact ⟨rfl, rfl⟩
    | word w =>
      rw [call_word he]
      cases m.rules.opcode? w with
      | none => exact ⟨rfl, rfl⟩
      | some o =>
        simp only [runOpcode, execute]
        split
        · exact perform_frame ..
        · exact ⟨rfl, rfl⟩

@[simp] theorem call_rules (m : Machine) (c : Call) : (m.call c).rules = m.rules :=
  (call_frame m c).1

@[simp] theorem call_template (m : Machine) (c : Call) : (m.call c).template = m.template :=
  (call_frame m c).2

@[simp] theorem run_rules (m : Machine) (calls : List Call) : (m.run calls).rules = m.rules := by
  induction calls generalizing m with
  | nil => rfl
  | cons c rest ih => rw [run_cons, ih, call_rules]

@[simp] theorem run_template (m : Machine) (calls : List Call) :
    (m.run calls).template = m.template := by
  induction calls generalizing m with
  | nil => rfl
  | cons c rest ih => rw [run_cons, ih, call_template]

theorem call_literal (h : m.error = none) {l : Literal} {e : Element} (hl : l.element = .ok e)
    (hsize : e.size ≤ Element.maxSize) :
    m.call (.push l) =
      { m with
        bytecode := m.bytecode ++ Bytecode.push e.bytes
        main := if m.executing then e :: m.main else m.main } := by
  rw [call_push h, hl]
  exact if_pos hsize

theorem call_opcode (h : m.error = none) {w : String} {o : Opcode} (ho : m.rules.opcode? w = some o)
    (hallowed : o.operation.allowed m.rules = true) :
    m.call (.word w) =
      { m with bytecode := m.bytecode ++ [o.byte] }.perform o.word
        (o.operation.runInPlace m.template) := by
  rw [call_word h, ho]
  exact if_pos hallowed

/-! ### Faults -/

/-- A call with a fault leaves the fault as the error, and the stacks as they were. -/
theorem call_fault (h : m.error = none) {c : Call} {e : ScriptError}
    (hfault : c.fault? m.rules = some e) :
    (m.call c).error = some e ∧ (m.call c).toStacks = m.toStacks := by
  cases c with
  | push l =>
    rw [call_push h]
    simp only [Call.fault?] at hfault
    cases hl : l.element with
    | error why =>
      rw [hl] at hfault
      exact ⟨hfault, rfl⟩
    | ok el =>
      simp only [hl] at hfault
      split at hfault
      · cases hfault
      · rename_i hsize
        simp only [pushElement, if_neg hsize]
        exact ⟨hfault, rfl⟩
  | word w =>
    rw [call_word h]
    simp only [Call.fault?] at hfault
    cases ho : m.rules.opcode? w with
    | none =>
      rw [ho] at hfault
      exact ⟨hfault, rfl⟩
    | some o =>
      simp only [ho] at hfault
      split at hfault
      · cases hfault
      · rename_i hallowed
        simp only [runOpcode, execute, if_neg hallowed]
        exact ⟨hfault, rfl⟩

/-! ### Calls that succeed -/

/-- Everything a call without an error can do: push an element and record the push,
or execute an opcode that is allowed and record its byte. -/
theorem call_cases {c : Call} (h : (m.call c).error = none) :
    m.error = none ∧
    ((∃ l e, c = .push l ∧ l.element = .ok e ∧ e.size ≤ Element.maxSize ∧
        m.call c =
          { m with
            bytecode := m.bytecode ++ Bytecode.push e.bytes
            main := if m.executing then e :: m.main else m.main }) ∨
      (∃ w o s, c = .word w ∧ m.rules.opcode? w = some o ∧ o.operation.allowed m.rules = true ∧
        o.operation.runInPlace m.template m.toStacks = .ok () s ∧
        m.call c = { m with toStacks := s, bytecode := m.bytecode ++ [o.byte] })) := by
  have hm := error_of_call h
  refine ⟨hm, ?_⟩
  cases hfault : c.fault? m.rules with
  | some e =>
    rw [(call_fault hm hfault).1] at h
    cases h
  | none =>
    obtain ⟨l, e, rfl, hl, hsize⟩ | ⟨w, o, rfl, ho, hallowed⟩ := Call.cases_of_fault?_none hfault
    · exact .inl ⟨l, e, rfl, hl, hsize, call_literal hm hl hsize⟩
    · rw [call_opcode hm ho hallowed] at h ⊢
      simp only [perform] at h ⊢
      cases hs : o.operation.runInPlace m.template m.toStacks with
      | error fault s =>
        rw [hs] at h
        cases h
      | ok u s => exact .inr ⟨w, o, s, rfl, ho, hallowed, hs, rfl⟩

/-! ### Outcomes -/

/-- What scripts can tell of a machine: its stacks, or its error. -/
def outcome (m : Machine) : Except ScriptError Stacks :=
  match m.error with
  | none => .ok m.toStacks
  | some e => .error e

theorem outcome_ok_iff {s : Stacks} : m.outcome = .ok s ↔ m.error = none ∧ m.toStacks = s := by
  unfold outcome
  cases m.error <;> simp

theorem outcome_error_iff {e : ScriptError} : m.outcome = .error e ↔ m.error = some e := by
  unfold outcome
  cases m.error <;> simp

/-- An opcode's outcome where it is allowed. -/
theorem outcome_word {w : String} {o : Opcode} (hm : m.error = none)
    (ho : m.rules.opcode? w = some o) (hallowed : o.operation.allowed m.rules = true) :
    (m.call (.word w)).outcome =
      match o.operation.runInPlace m.template m.toStacks with
      | .ok _ s => .ok s
      | .error fault _ => .error (.opcode o.word fault) := by
  rw [call_opcode hm ho hallowed]
  simp only [perform]
  cases o.operation.runInPlace m.template m.toStacks with
  | ok u s => exact outcome_ok_iff.mpr ⟨hm, rfl⟩
  | error fault s => rfl

end Machine

end ScriptBench
