import Mathlib.Data.Nat.Bitwise
import ScriptBench.Proofs.Machine.Operands

/-! The lock time checks only look.

Both checks read a number that is not negative off the top of the stack and hold it against the
transaction: against its lock time, or against the sequence of the input that is being spent. The
fields of a sequence are compared below a mask that keeps the bit of its kind, so that the bit
takes part in the comparison. It does no harm there, since the kinds have been found to agree. -/
namespace ScriptBench

namespace LockTime

/-- The lock on top of the stack. -/
def Finds (main : List Element) (lock : Nat) : Prop :=
  ∃ e rest, main = e :: rest ∧ Number.decode? 5 e.bytes = some (lock : Int)

/-- The transaction's lock time is of the kind of the lock and has reached it, and the input that
is being spent is not final. -/
structure AbsoluteMet (t : Template) (lock : Nat) : Prop where
  kind : lock < 500000000 ↔ t.lockTime.toNat < 500000000
  reached : lock ≤ t.lockTime.toNat
  inForce : ∃ i, t.current? = some i ∧ i.sequence ≠ 0xffffffff

/-- The sequence of an input is in force, of the kind of the lock, and long enough. -/
structure InputMet (i : TemplateInput) (lock : Nat) : Prop where
  enabled : i.sequence.toNat.testBit 31 = false
  kind : lock.testBit 22 = i.sequence.toNat.testBit 22
  reached : lock % 2 ^ 16 ≤ i.sequence.toNat % 2 ^ 16

/-- A relative lock is switched off, or the input that is being spent meets it. -/
def RelativeMet (t : Template) (lock : Nat) : Prop :=
  lock.testBit 31 = true ∨ 2 ≤ t.version ∧ ∃ i, t.current? = some i ∧ InputMet i lock

theorem finds_cons_iff {e : Element} {rest : List Element} {lock : Nat} :
    Finds (e :: rest) lock ↔ Number.decode? 5 e.bytes = some (lock : Int) := by
  simp [Finds]

theorem Finds.unique {main : List Element} {lock lock' : Nat} (h : Finds main lock)
    (h' : Finds main lock') : lock = lock' := by
  obtain ⟨e, rest, rfl, hlock⟩ := h
  have hsame := hlock.symm.trans (finds_cons_iff.mp h')
  exact Int.natCast_inj.mp (Option.some.inj hsame)

/-! ### What a lock asks of the transaction -/

theorem ite_some_eq_none_iff {α : Type} {p : Prop} [Decidable p] {a : α} {x : Option α} :
    (if p then some a else x) = none ↔ ¬p ∧ x = none := by
  split <;> simp [*]

theorem absoluteUnmet?_eq_none_iff {t : Template} {lock : Nat} :
    absoluteUnmet? t lock = none ↔ AbsoluteMet t lock := by
  have hkind : ¬(isHeight lock != isHeight t.lockTime.toNat) = true ↔
      (lock < 500000000 ↔ t.lockTime.toNat < 500000000) := by
    rw [Bool.not_eq_true, bne_eq_false_iff_eq, isHeight, isHeight, decide_eq_decide]
    rfl
  unfold absoluteUnmet?
  rw [ite_some_eq_none_iff, ite_some_eq_none_iff, hkind, Nat.not_lt]
  cases hi : t.current? with
  | none =>
    refine iff_of_false (fun ⟨_, _, hnone⟩ => Option.some_ne_none _ hnone) fun hmet => ?_
    obtain ⟨i, hcurrent, -⟩ := hmet.inForce
    cases hi.symm.trans hcurrent
  | some i =>
    simp only [ite_some_eq_none_iff, and_true]
    constructor
    · rintro ⟨hsame, hreached, hsequence⟩
      exact ⟨hsame, hreached, i, hi, hsequence⟩
    · rintro ⟨hsame, hreached, j, hj, hsequence⟩
      obtain rfl : i = j := Option.some.inj (hi.symm.trans hj)
      exact ⟨hsame, hreached, hsequence⟩

/-- The mask keeps the kind and the length. -/
theorem and_relativeMask (n : Nat) :
    n &&& relativeMask = 2 ^ 22 * (n.testBit 22).toNat + n % 2 ^ 16 := by
  have hmask : relativeMask = 2 ^ 22 ||| (2 ^ 16 - 1) := rfl
  have hlow : n % 2 ^ 16 < 2 ^ 22 := Nat.lt_trans (Nat.mod_lt n (by decide)) (by decide)
  rw [hmask, Nat.and_or_distrib_left, Nat.and_two_pow, Nat.and_two_pow_sub_one_eq_mod,
    Nat.two_pow_add_eq_or_of_lt hlow, Nat.mul_comm]

theorem countsBlocks_and_relativeMask (n : Nat) :
    countsBlocks (n &&& relativeMask) = !n.testBit 22 := by
  have hlow := Nat.mod_lt n (by decide : 0 < 2 ^ 16)
  rw [and_relativeMask, countsBlocks]
  cases n.testBit 22
  · exact decide_eq_true (by simp only [Bool.toNat_false]; omega)
  · exact decide_eq_false (by simp only [Bool.toNat_true]; omega)

/-- Below the mask, sequences of one kind compare as their lengths. -/
theorem and_relativeMask_lt_iff {m n : Nat} (h : n.testBit 22 = m.testBit 22) :
    m &&& relativeMask < n &&& relativeMask ↔ m % 2 ^ 16 < n % 2 ^ 16 := by
  rw [and_relativeMask, and_relativeMask, h]
  exact Nat.add_lt_add_iff_left

theorem relativeFault?_eq_none_iff {t : Template} {lock : Nat} :
    relativeFault? t lock = none ↔ RelativeMet t lock := by
  unfold relativeFault? RelativeMet switchedOff
  by_cases hoff : lock.testBit 31 = true
  · rw [if_pos hoff]
    exact iff_of_true rfl (.inl hoff)
  rw [if_neg hoff, or_iff_right hoff, ite_some_eq_none_iff, UInt32.not_lt]
  refine and_congr_right fun _ => ?_
  cases t.current? with
  | none => simp
  | some i =>
    simp only [ite_some_eq_none_iff, and_true, countsBlocks_and_relativeMask, Option.some.injEq,
      exists_eq_left']
    constructor
    · rintro ⟨henabled, hkind, hreached⟩
      have hsame : lock.testBit 22 = i.sequence.toNat.testBit 22 := by simpa using hkind
      rw [and_relativeMask_lt_iff hsame] at hreached
      exact ⟨Bool.eq_false_iff.mpr henabled, hsame, Nat.not_lt.mp hreached⟩
    · rintro ⟨henabled, hsame, hreached⟩
      rw [and_relativeMask_lt_iff hsame]
      exact ⟨Bool.eq_false_iff.mp henabled, by simp [hsame], Nat.not_lt.mpr hreached⟩

/-! ### The checks -/

/-- A check of the lock on top of the stack. -/
def check (negative : Int → OperandFault) (fault? : Template → Nat → Option Fault)
    (template : Option Template) : Action Unit := do
  let t ← Action.required template
  let lock ← operand
  if lock < 0 then Action.refuse (negative lock)
  else match fault? t lock.toNat with
    | some fault => throw fault
    | none => pure ()

theorem checkAbsolute_eq :
    checkAbsolute = check .negativeLockTime fun t lock => (absoluteUnmet? t lock).map .unmet := by
  funext template
  unfold checkAbsolute check
  congr! 5 with t lock
  beta_reduce
  cases absoluteUnmet? t lock.toNat <;> rfl

theorem checkRelative_eq : checkRelative = check .negativeSequence relativeFault? := rfl

/-- What an action returns that leaves the stacks alone. -/
def looks (s : Stacks) : Option Fault → EStateM.Result Fault Stacks Unit
  | none => .ok () s
  | some fault => .error fault s

/-- The top of the stack is read and left there; a number that is not negative is a lock. -/
theorem run_operand_cases (s : Stacks) :
    (∃ n, operand s = .ok n s ∧ ∀ lock : Nat, Finds s.main lock ↔ n = lock) ∨
      ∃ fault, operand s = .error fault s ∧ ∀ lock, ¬Finds s.main lock := by
  obtain ⟨main, alt, conditions⟩ := s
  cases main with
  | nil => exact .inr ⟨.underflow, rfl, fun lock ⟨e, rest, h, _⟩ => nomatch h⟩
  | cons e rest =>
    have htop : Action.top ⟨e :: rest, alt, conditions⟩ = .ok e ⟨e :: rest, alt, conditions⟩ := rfl
    have hoperand := Action.bind_ok (f := Action.readNumber 5) htop
    unfold Action.readNumber at hoperand
    simp only [finds_cons_iff]
    cases hlock : Number.decode? 5 e.bytes with
    | none =>
      rw [hlock] at hoperand
      exact .inr ⟨_, hoperand, fun _ h => nomatch h⟩
    | some n =>
      rw [hlock] at hoperand
      exact .inl ⟨n, hoperand, fun _ => Option.some_inj⟩

/-- A check leaves the stacks alone. It succeeds just when it finds a lock that has no fault. -/
theorem exists_looks (negative : Int → OperandFault) (fault? : Template → Nat → Option Fault)
    (template : Option Template) (s : Stacks) :
    ∃ outcome, check negative fault? template s = looks s outcome ∧
      (outcome = none ↔ ∃ t lock, template = some t ∧ Finds s.main lock ∧ fault? t lock = none) := by
  -- In the order of the check: the template, the number, its sign, and then the transaction.
  cases template with
  | none =>
    have herror : Action.required none s = .error .noTemplate s := rfl
    exact ⟨some .noTemplate, Action.bind_error herror, by simp⟩
  | some t =>
    have hrequired : Action.required (some t) s = .ok t s := rfl
    simp only [check, Action.bind_ok hrequired]
    obtain ⟨n, hoperand, hfinds⟩ | ⟨fault, hoperand, hnone⟩ := run_operand_cases s
    case inr => exact ⟨some fault, Action.bind_error hoperand, by simp [hnone]⟩
    case inl =>
      simp only [Action.bind_ok hoperand, hfinds]
      by_cases hneg : n < 0
      · have hnone (lock : Nat) : n ≠ lock := by omega
        rw [if_pos hneg]
        exact ⟨some (.operand (negative n)), rfl, by simp [hnone]⟩
      · obtain ⟨lock, rfl⟩ := Int.eq_ofNat_of_zero_le (Int.not_lt.mp hneg)
        rw [if_neg hneg, Int.toNat_natCast]
        refine ⟨fault? t lock, ?_, fun hfault => ⟨t, lock, rfl, rfl, hfault⟩, ?_⟩
        · cases fault? t lock <;> rfl
        · rintro ⟨t', lock', ht, hlock, hfault⟩
          obtain rfl := Option.some.inj ht
          obtain rfl := Int.natCast_inj.mp hlock
          exact hfault

end LockTime

namespace Machine
variable {m : Machine}

/-- A check as a call. -/
theorem call_check (h : m.error = none) (hexecuting : m.executing = true) {o : Opcode}
    (ho : o ∈ m.rules.known) {w : String} (hw : w ∈ o.words)
    (hallowed : o.operation.allowed m.rules = true) {negative : Int → OperandFault}
    {fault? : Template → Nat → Option Fault}
    (hrun : o.operation.run m.template = LockTime.check negative fault? m.template) :
    ∃ error, m.call (.word w) = { m with bytecode := m.bytecode ++ [o.byte], error := error } ∧
      (error = none ↔
        ∃ t lock, m.template = some t ∧ LockTime.Finds m.main lock ∧ fault? t lock = none) := by
  obtain ⟨outcome, hcheck, houtcome⟩ :=
    LockTime.exists_looks negative fault? m.template m.toStacks
  refine ⟨outcome.map (.opcode o.word), ?_, by rw [Option.map_eq_none_iff, houtcome]⟩
  rw [call_executing h hexecuting (RuleSet.opcode?_of_mem ho hw) hallowed, hrun]
  unfold perform
  rw [hcheck]
  cases outcome with
  | none => simp only [LockTime.looks, Option.map_none, h]
  | some fault => rfl

/-- **The lock time checks only look.** Apart from the record they change nothing but the error.
There is none just when a template is set whose transaction meets the lock on top of the stack. -/
theorem call_lockTimes (h : m.error = none) (hexecuting : m.executing = true) :
    (∀ w ∈ ["OP_CHECKLOCKTIMEVERIFY", "OP_NOP2"],
      ∃ error, m.call (.word w) = { m with bytecode := m.bytecode ++ [0xb1], error := error } ∧
        (error = none ↔
          ∃ t lock, m.template = some t ∧ LockTime.Finds m.main lock ∧
            LockTime.AbsoluteMet t lock)) ∧
    ∀ w ∈ ["OP_CHECKSEQUENCEVERIFY", "OP_NOP3"],
      ∃ error, m.call (.word w) = { m with bytecode := m.bytecode ++ [0xb2], error := error } ∧
        (error = none ↔
          ∃ t lock, m.template = some t ∧ LockTime.Finds m.main lock ∧
            LockTime.RelativeMet t lock) := by
  constructor
  · intro w hw
    have hknown := RuleSet.known_of_find? (r := m.rules) (b := 0xb1) rfl rfl
    have hrun := congrFun LockTime.checkAbsolute_eq m.template
    simpa only [Option.map_eq_none_iff, LockTime.absoluteUnmet?_eq_none_iff] using
      call_check h hexecuting hknown hw rfl hrun
  · intro w hw
    have hknown := RuleSet.known_of_find? (r := m.rules) (b := 0xb2) rfl rfl
    have hrun := congrFun LockTime.checkRelative_eq m.template
    simpa only [LockTime.relativeFault?_eq_none_iff] using call_check h hexecuting hknown hw rfl hrun

/-- Of a relative lock the bits between its length and its kind do not count. As a lock time it
would be a height, and the transaction's is a time. -/
theorem call_lockTimes_kinds :
    let t : Template := { Template.blank with
      lockTime := 500000000, inputs := [{ Template.blankInput with sequence := 0x40000a }] }
    let m : Machine := { new .standard with main := [.number 0x7f0005], template := some t }
    m.error = none ∧ m.executing = true ∧
    m.call (.word "OP_NOP3") = { m with bytecode := [0xb2] } ∧
    (m.call (.word "OP_CHECKLOCKTIMEVERIFY")).error ≠ none := by
  intro t m
  have hfinds : LockTime.Finds m.main 0x7f0005 := ⟨_, _, rfl, by decide +kernel⟩
  have hmet : LockTime.RelativeMet t 0x7f0005 :=
    .inr ⟨by decide, _, rfl, by decide, by decide, by decide⟩
  obtain ⟨habsolute, hrelative⟩ := call_lockTimes (m := m) rfl rfl
  refine ⟨rfl, rfl, ?_, ?_⟩
  · obtain ⟨error, hcall, herror⟩ := hrelative "OP_NOP3" (by decide)
    rw [hcall, herror.mpr ⟨t, _, rfl, hfinds, hmet⟩]
    rfl
  · obtain ⟨error, hcall, herror⟩ := habsolute "OP_CHECKLOCKTIMEVERIFY" (by decide)
    rw [hcall]
    intro hnone
    obtain ⟨t', lock, ht, hlock, hkind, -⟩ := herror.mp hnone
    obtain rfl : t = t' := Option.some.inj ht
    obtain rfl := hlock.unique hfinds
    exact absurd hkind (by decide)

end Machine

end ScriptBench
