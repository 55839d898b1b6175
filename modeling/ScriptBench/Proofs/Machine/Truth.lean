import ScriptBench.Proofs.Machine.Arithmetic
import ScriptBench.Proofs.Machine.Outcomes

/-! Truth as bytes and as a number.

Whether an element is true is read from its bytes one by one, and its number from all of them at
once. The two agree: bytes are false when they stand for zero, which they do without any bit set
and with the sign alone. So where the top of the stack can be read as a number, the opcodes that
branch on it and those that compare it with zero judge it alike. -/
namespace ScriptBench

namespace Number

/-- Zero has no bit, or that of the sign. -/
theorem value_eq_zero_iff (b : Bytes) : value b = 0 ↔ b.toNat = 0 ∨ b.toNat = topBit b := by
  have hpos : 0 < topBit b := topBit_eq b ▸ Nat.two_pow_pos _
  show (if b.toNat < topBit b then (b.toNat : Int) else -((b.toNat - topBit b : Nat) : Int)) = 0 ↔ _
  split <;> omega

/-- False bytes have no bit, or that of the sign. -/
theorem isTrue_eq_false_iff_toNat (b : Bytes) :
    isTrue b = false ↔ b.toNat = 0 ∨ b.toNat = topBit b := by
  induction b using isTrue.induct with
  | case1 => simp [isTrue, Bytes.toNat]
  | case2 x => simp [isTrue, Bytes.toNat, topBit, ← UInt8.toNat_inj, or_iff_not_imp_left]
  | case3 x rest hrest ih =>
    have hx := x.toNat_lt
    rw [isTrue, Bool.or_eq_false_iff, ih, bne_eq_false_iff_eq, ← UInt8.toNat_inj, UInt8.toNat_zero,
      topBit_cons x hrest, Bytes.toNat]
    · omega
    · exact hrest

/-- False bytes are zero up to the last one, which may be a lone sign. -/
theorem isTrue_eq_false_iff (b : Bytes) :
    isTrue b = false ↔ (∀ x ∈ b.dropLast, x = 0) ∧ ∀ x ∈ b.getLast?, x = 0 ∨ x = 0x80 := by
  induction b using isTrue.induct with
  | case1 => simp [isTrue]
  | case2 x => simp [isTrue, or_iff_not_imp_left]
  | case3 x rest hrest ih =>
    rw [isTrue, Bool.or_eq_false_iff, ih, bne_eq_false_iff_eq, List.dropLast_cons_of_ne_nil hrest,
      List.forall_mem_cons, and_assoc]
    · rw [List.getLast?_cons_of_ne_nil hrest]
    · exact hrest

/-- Bytes are true when they stand for a number other than zero. -/
theorem isTrue_iff_value_ne_zero (b : Bytes) : isTrue b = true ↔ value b ≠ 0 := by
  rw [← Bool.not_eq_false, isTrue_eq_false_iff_toNat, Ne, value_eq_zero_iff]

theorem isTrue_iff_decode? {b : Bytes} (h : b.length ≤ 8) :
    isTrue b = true ↔ decode? 8 b ≠ some 0 := by
  rw [isTrue_iff_value_ne_zero, decode?, if_pos ⟨h, h⟩, Ne, Ne, Option.some_inj]

end Number

/-! ### Operations -/

namespace Operation
variable (t : Option Template) (e : Element) (rest alt : List Element) (conditions : List Bool)

theorem run_branch (negated : Bool) (h : conditions.all id = true) :
    (branch negated).run t ⟨e :: rest, alt, conditions⟩ =
      .ok () ⟨rest, alt, (e.isTrue != negated) :: conditions⟩ := by
  show runBranch negated _ = _
  have hexecuting : Action.executing ⟨e :: rest, alt, conditions⟩ =
      .ok true ⟨e :: rest, alt, conditions⟩ := congrArg (EStateM.Result.ok · _) h
  exact Action.bind_ok hexecuting

theorem run_verify :
    verify.run t ⟨e :: rest, alt, conditions⟩ =
      if e.isTrue then .ok () ⟨rest, alt, conditions⟩
      else .error .verifyFailed ⟨rest, alt, conditions⟩ := by
  show Action.verify e.isTrue ⟨rest, alt, conditions⟩ = _
  unfold Action.verify
  split <;> rfl

theorem run_dupIfTrue :
    dupIfTrue.run t ⟨e :: rest, alt, conditions⟩ =
      .ok () ⟨if e.isTrue then e :: e :: rest else e :: rest, alt, conditions⟩ := by
  show (if e.isTrue then Action.push e else pure ()) ⟨e :: rest, alt, conditions⟩ = _
  split <;> rfl

theorem run_unary_number (op : Unary) (h : e.size ≤ 4) :
    (unary op).run t ⟨e :: rest, alt, conditions⟩ =
      .ok () ⟨.number (op.apply (Number.value e.bytes)) :: rest, alt, conditions⟩ :=
  Action.bind_ok (reads_popNumber.ok h ..)

end Operation

namespace Machine
variable {m : Machine} {e : Element} {rest : List Element}

/-- What opcodes do when the element on top is true, or when it is false: those that ask for its
truth, and those that compare it with zero. -/
structure Judges (m : Machine) (e : Element) (rest : List Element) (truth : Bool) : Prop where
  branch : (m.call (.word "OP_IF")).outcome = .ok ⟨rest, m.alt, truth :: m.conditions⟩
  branchNot : (m.call (.word "OP_NOTIF")).outcome = .ok ⟨rest, m.alt, (!truth) :: m.conditions⟩
  verify : (m.call (.word "OP_VERIFY")).outcome =
    if truth then .ok ⟨rest, m.alt, m.conditions⟩ else .error (.opcode "OP_VERIFY" .verifyFailed)
  dupIfTrue : (m.call (.word "OP_IFDUP")).outcome =
    .ok ⟨if truth then e :: e :: rest else e :: rest, m.alt, m.conditions⟩
  nonzero : (m.call (.word "OP_0NOTEQUAL")).outcome =
    .ok ⟨.number (if truth then 1 else 0) :: rest, m.alt, m.conditions⟩
  not : (m.call (.word "OP_NOT")).outcome =
    .ok ⟨.number (if truth then 0 else 1) :: rest, m.alt, m.conditions⟩

theorem judges (h : m.error = none) (hexecuting : m.executing = true) (hmain : m.main = e :: rest)
    (hsize : e.size ≤ 4) : m.Judges e rest e.isTrue := by
  have hs : m.outcome = .ok ⟨e :: rest, m.alt, m.conditions⟩ :=
    outcome_ok_iff.mpr ⟨h, by rw [← hmain]⟩
  have hnonzero : e.isTrue = decide (Number.value e.bytes ≠ 0) := by
    rw [Bool.eq_iff_iff, decide_eq_true_iff]
    exact Number.isTrue_iff_value_ne_zero e.bytes
  open RuleSet Operation in
  constructor
  · have hrun := run_branch m.template e rest m.alt m.conditions false hexecuting
    rw [Bool.bne_false] at hrun
    exact outcome_ok hs hexecuting (known_of_find? (b := 0x63) rfl rfl) rfl hrun
  · have hrun := run_branch m.template e rest m.alt m.conditions true hexecuting
    rw [Bool.bne_true] at hrun
    exact outcome_ok hs hexecuting (known_of_find? (b := 0x64) rfl rfl) rfl hrun
  · exact outcome_ite hs hexecuting (known_of_find? (b := 0x69) rfl rfl) rfl (run_verify ..)
  · exact outcome_ok hs hexecuting (known_of_find? (b := 0x73) rfl rfl) rfl (run_dupIfTrue ..)
  · have hrun := run_unary_number m.template e rest m.alt m.conditions .nonzero hsize
    rw [hnonzero]
    simpa [Unary.apply, truth] using
      outcome_ok hs hexecuting (known_of_find? (b := 0x92) rfl rfl) rfl hrun
  · have hrun := run_unary_number m.template e rest m.alt m.conditions .not hsize
    rw [hnonzero]
    simpa [Unary.apply, truth] using
      outcome_ok hs hexecuting (known_of_find? (b := 0x91) rfl rfl) rfl hrun

/-- **Truth as bytes and truth as a number agree.** Bytes that can be read as a number are true
when it is not zero, and bytes of any length are false when they are zero up to the last one, which
may be a lone sign. An element that arithmetic takes is judged alike by the opcodes that ask for
its truth and by those that compare it with zero. -/
theorem truth_agrees :
    (∀ b : Bytes, b.length ≤ 8 → (Number.isTrue b = true ↔ Number.decode? 8 b ≠ some 0)) ∧
    (∀ b : Bytes, Number.isTrue b = false ↔
      (∀ x ∈ b.dropLast, x = 0) ∧ ∀ x ∈ b.getLast?, x = 0x00 ∨ x = 0x80) ∧
    ∀ (m : Machine) (e : Element) (rest : List Element), m.error = none → m.executing = true →
      m.main = e :: rest → e.size ≤ 4 → m.Judges e rest e.isTrue :=
  ⟨fun _ => Number.isTrue_iff_decode?, Number.isTrue_eq_false_iff, fun _ _ _ => judges⟩

/-- A sign behind zeros is no truth, and the same byte before them is one. -/
theorem truth_agrees_negativeZero :
    let zero : Bytes := [0, 0, 0, 0, 0, 0, 0, 0x80]
    let m : Machine := { new .standard with main := [.raw [0, 0, 0, 0x80], .raw [0x80, 0]] }
    let m' : Machine := { m with main := [.raw [0x80, 0]] }
    (zero.length ≤ 8 ∧ Number.isTrue zero = false ∧ Number.decode? 8 zero = some 0) ∧
    m.error = none ∧ m.executing = true ∧
    m.Judges (.raw [0, 0, 0, 0x80]) [.raw [0x80, 0]] false ∧ m'.Judges (.raw [0x80, 0]) [] true := by
  intro zero m m'
  obtain ⟨hdecode, hbytes, hjudges⟩ := truth_agrees
  have hfalse : Number.isTrue zero = false := (hbytes zero).mpr (by simp [zero])
  have hzero : Number.decode? 8 zero = some 0 := by
    by_contra hne
    rw [(hdecode zero (by decide)).mpr hne] at hfalse
    cases hfalse
  exact ⟨⟨by decide, hfalse, hzero⟩, rfl, rfl, hjudges m _ _ rfl rfl rfl (by decide),
    hjudges m' _ _ rfl rfl rfl (by decide)⟩

end Machine

end ScriptBench
