import ScriptBench.Proofs.Machine.Run
import ScriptBench.Proofs.Opcode.Table

/-! Opcodes that take operands.

An opcode of arithmetic first takes its operands off the stack, the top one first, and then
pushes what it computes from them, or fails. Each operand is read as it is taken: the first one
that is refused ends the opcode, and the operands below it stay on the stack. -/
namespace ScriptBench

namespace Action

/-- An action that takes the top element and reads it, or refuses it for its size. -/
structure Reads (pop : Action Int) (fits : Nat → Prop) (value : Bytes → Int)
    (fault : Nat → Fault) : Prop where
  ok : ∀ {e : Element}, fits e.size → ∀ rest alt conditions,
    pop ⟨e :: rest, alt, conditions⟩ = .ok (value e.bytes) ⟨rest, alt, conditions⟩
  error : ∀ {e : Element}, ¬fits e.size → ∀ rest alt conditions,
    pop ⟨e :: rest, alt, conditions⟩ = .error (fault e.size) ⟨rest, alt, conditions⟩

/-- Takes `k` operands, the top one first. -/
def takes (pop : Action Int) : Nat → Action (List Int)
  | 0 => pure []
  | k + 1 => do
    let n ← pop
    let rest ← takes pop k
    pure (n :: rest)

/-- Pushes elements, the first of them on top, or fails. -/
def leave : Except Fault (List Element) → Action Unit
  | .ok elements => fun s => .ok () { s with main := elements ++ s.main }
  | .error fault => throw fault

theorem bind_ok {α β : Type} {x : Action α} {f : α → Action β} {s s' : Stacks} {a : α}
    (h : x s = .ok a s') : (x >>= f) s = f a s' := by
  show EStateM.bind x f s = _
  rw [EStateM.bind, h]

theorem bind_error {α β : Type} {x : Action α} {f : α → Action β} {s s' : Stacks} {fault : Fault}
    (h : x s = .error fault s') : (x >>= f) s = .error fault s' := by
  show EStateM.bind x f s = _
  rw [EStateM.bind, h]

section
variable {pop : Action Int} {fits : Nat → Prop} {value : Bytes → Int} {fault : Nat → Fault}
  (hpop : Reads pop fits value fault)
include hpop

/-- Operands that all fit are taken. -/
theorem takes_ok {operands : List Element} (h : ∀ e ∈ operands, fits e.size)
    (rest alt : List Element) (conditions : List Bool) :
    takes pop operands.length ⟨operands ++ rest, alt, conditions⟩ =
      .ok (operands.map fun e => value e.bytes) ⟨rest, alt, conditions⟩ := by
  induction operands with
  | nil => rfl
  | cons e operands ih =>
    obtain ⟨he, h⟩ := List.forall_mem_cons.mp h
    exact (bind_ok (hpop.ok he ..)).trans (bind_ok (ih h))

/-- The first operand that is refused is taken too. -/
theorem takes_error {taken : List Element} (htaken : ∀ e ∈ taken, fits e.size) {e : Element}
    (he : ¬fits e.size) {k : Nat} (hk : taken.length < k) (below alt : List Element)
    (conditions : List Bool) :
    takes pop k ⟨taken ++ e :: below, alt, conditions⟩ =
      .error (fault e.size) ⟨below, alt, conditions⟩ := by
  induction taken generalizing k with
  | nil =>
    obtain ⟨k, rfl⟩ := Nat.exists_eq_add_one_of_ne_zero (Nat.ne_of_gt hk)
    exact bind_error (hpop.error he ..)
  | cons x taken ih =>
    obtain ⟨k, rfl⟩ := Nat.exists_eq_add_one_of_ne_zero (Nat.ne_of_gt (Nat.zero_lt_of_lt hk))
    obtain ⟨hx, htaken⟩ := List.forall_mem_cons.mp htaken
    exact (bind_ok (hpop.ok hx ..)).trans (bind_error (ih htaken (Nat.lt_of_succ_lt_succ hk)))

end

end Action

/-- Operands that do not all fit: there is a first one that does not. -/
theorem exists_refused {fits : Nat → Prop} {operands : List Element}
    (h : ¬∀ e ∈ operands, fits e.size) :
    ∃ taken e below, operands = taken ++ e :: below ∧ (∀ x ∈ taken, fits x.size) ∧
      ¬fits e.size := by
  induction operands with
  | nil => exact absurd (List.forall_mem_nil _) h
  | cons e operands ih =>
    by_cases he : fits e.size
    · have hrest : ¬∀ e ∈ operands, fits e.size := fun hall =>
        h (List.forall_mem_cons.mpr ⟨he, hall⟩)
      obtain ⟨taken, x, below, rfl, htaken, hx⟩ := ih hrest
      exact ⟨e :: taken, x, below, rfl, List.forall_mem_cons.mpr ⟨he, htaken⟩, hx⟩
    · exact ⟨[], e, operands, rfl, List.forall_mem_nil _, he⟩

/-- An opcode of the table is known where its scope reaches. -/
theorem RuleSet.known_of_find? {r : RuleSet} {b : UInt8} {o : Opcode}
    (ho : opcodes.find? (·.byte == b) = some o) (hscope : o.scope.covers r = true) :
    o ∈ r.known :=
  List.mem_filter.mpr ⟨List.mem_of_find?_eq_some ho, hscope⟩

/-- A rule set knows an opcode of the word, which takes its operands first. From the operands `ns`,
the top one first, it leaves the result. -/
def RuleSet.Implements (r : RuleSet) (pop : Action Int) (w : String) (ns : List Int)
    (result : Except Fault (List Element)) : Prop :=
  ∃ o ∈ r.known, o.word = w ∧ o.operation.allowed r = true ∧ ∃ compute,
    (∀ t, o.operation.run t = Action.takes pop ns.length >>= compute) ∧
    compute ns = Action.leave result

theorem RuleSet.implements_of_run {r : RuleSet} {o : Opcode} (ho : o ∈ r.known)
    {operation : Operation} (hoperation : o.operation = operation)
    (hallowed : operation.allowed r = true) {pop : Action Int} {ns : List Int}
    {compute : List Int → Action Unit}
    (hrun : ∀ t, operation.run t = Action.takes pop ns.length >>= compute)
    {result : Except Fault (List Element)} (hcompute : compute ns = Action.leave result) :
    r.Implements pop o.word ns result := by
  subst hoperation
  exact ⟨o, ho, rfl, hallowed, compute, hrun, hcompute⟩

namespace Machine
variable {m : Machine}

/-- An opcode in a branch that is taken, done on the stacks. -/
theorem call_executing (h : m.error = none) (hexecuting : m.executing = true) {w : String}
    {o : Opcode} (ho : m.rules.opcode? w = some o) (hallowed : o.operation.allowed m.rules = true) :
    m.call (.word w) =
      { m with bytecode := m.bytecode ++ [o.byte] }.perform o.word
        (o.operation.run m.template) := by
  have hrun : o.operation.runInPlace m.template m.toStacks =
      o.operation.run m.template m.toStacks := by
    rw [Operation.runInPlace_eq, hexecuting, Bool.or_true, if_pos rfl]
  rw [call_opcode h ho hallowed]
  simp only [perform, hrun]

theorem call_known (h : m.error = none) (hexecuting : m.executing = true) {o : Opcode}
    (ho : o ∈ m.rules.known) (hallowed : o.operation.allowed m.rules = true) :
    m.call (.word o.word) =
      { m with bytecode := m.bytecode ++ [o.byte] }.perform o.word
        (o.operation.run m.template) :=
  call_executing h hexecuting (RuleSet.opcode?_word ho) hallowed

/-- The machine when an opcode has been recorded and its operands are taken: it pushes elements
on the rest of the stack, the first of them on top, or fails. -/
def after (m : Machine) (o : Opcode) (rest : List Element) :
    Except Fault (List Element) → Machine
  | .ok elements => { m with main := elements ++ rest, bytecode := m.bytecode ++ [o.byte] }
  | .error fault =>
    { m with
      main := rest, bytecode := m.bytecode ++ [o.byte]
      error := some (.opcode o.word fault) }

section
variable {pop : Action Int} {fits : Nat → Prop} {value : Bytes → Int} {fault : Nat → Fault}
  {o : Opcode} {operands rest : List Element} {compute : List Int → Action Unit} {k : Nat}
  (h : m.error = none) (hexecuting : m.executing = true) (ho : o ∈ m.rules.known)
  (hallowed : o.operation.allowed m.rules = true)
  (hrun : o.operation.run m.template = Action.takes pop k >>= compute)
  (hpop : Action.Reads pop fits value fault)
include h hexecuting ho hallowed hrun hpop

/-- What an opcode leaves whose operands all fit. -/
theorem call_takes (hk : operands.length = k) (hmain : m.main = operands ++ rest)
    (hfits : ∀ e ∈ operands, fits e.size) {result : Except Fault (List Element)}
    (hcompute : compute (operands.map fun e => value e.bytes) = Action.leave result) :
    m.call (.word o.word) = m.after o rest result := by
  rw [call_known h hexecuting ho hallowed, hrun, ← hk]
  obtain ⟨⟨main, alt, conditions⟩, rules, error, template, bytecode⟩ := m
  obtain rfl : main = operands ++ rest := hmain
  unfold perform
  rw [Action.bind_ok (Action.takes_ok hpop hfits rest alt conditions), hcompute]
  cases result <;> rfl

/-- What an opcode leaves that refuses an operand. -/
theorem call_takes_error {taken below : List Element} {e : Element}
    (hk : taken.length < k) (hmain : m.main = taken ++ e :: below)
    (htaken : ∀ x ∈ taken, fits x.size) (he : ¬fits e.size) :
    m.call (.word o.word) = m.after o below (.error (fault e.size)) := by
  rw [call_known h hexecuting ho hallowed, hrun]
  obtain ⟨⟨main, alt, conditions⟩, rules, error, template, bytecode⟩ := m
  obtain rfl : main = taken ++ e :: below := hmain
  unfold perform
  rw [Action.bind_error (Action.takes_error hpop htaken he hk below alt conditions)]
  rfl

end

/-- An opcode that takes its operands first leaves its result when all of them fit, and is ended
by the first one that does not, also where others are missing below. -/
theorem call_implemented (h : m.error = none) (hexecuting : m.executing = true)
    {pop : Action Int} {fits : Nat → Prop} {value : Bytes → Int} {fault : Nat → Fault}
    (hpop : Action.Reads pop fits value fault) {operands rest : List Element}
    (hmain : m.main = operands ++ rest) {w : String} {missing : List Int}
    {result : Except Fault (List Element)}
    (hw : m.rules.Implements pop w ((operands.map fun e => value e.bytes) ++ missing) result) :
    ∃ o, m.rules.opcode? w = some o ∧ o.word = w ∧
      (missing = [] → (∀ e ∈ operands, fits e.size) →
        m.call (.word w) = m.after o rest result) ∧
      ((¬∀ e ∈ operands, fits e.size) →
        ∃ taken e below, operands = taken ++ e :: below ∧ (∀ x ∈ taken, fits x.size) ∧
          ¬fits e.size ∧
          m.call (.word w) = m.after o (below ++ rest) (.error (fault e.size))) := by
  obtain ⟨o, ho, rfl, hallowed, compute, hrun, hcompute⟩ := hw
  rw [List.length_append, List.length_map] at hrun
  refine ⟨o, RuleSet.opcode?_word ho, rfl, fun hnone hfits => ?_, fun hnot => ?_⟩
  · subst hnone
    rw [List.append_nil] at hcompute
    exact call_takes h hexecuting ho hallowed (hrun _) hpop rfl hmain hfits hcompute
  · obtain ⟨taken, e, below, rfl, htaken, he⟩ := exists_refused hnot
    refine ⟨taken, e, below, rfl, htaken, he, ?_⟩
    have hk : taken.length < (taken ++ e :: below).length + missing.length := by
      rw [List.length_append, List.length_cons]
      omega
    exact call_takes_error h hexecuting ho hallowed (hrun _) hpop hk (by simp [hmain]) htaken he

end Machine

end ScriptBench
