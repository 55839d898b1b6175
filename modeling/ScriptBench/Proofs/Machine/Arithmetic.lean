import ScriptBench.Proofs.Literal.Shortest
import ScriptBench.Proofs.Machine.Operands

/-! The arithmetic of scripts is exact.

The opcodes of arithmetic take numbers of four bytes at most and compute with integers.
`Computes` says what each of them computes, from the operands in the order in which they were
pushed. Nothing overflows a word of 64 bits, and a result has five bytes at most; it is taken
again as an operand when its magnitude has 31 bits, that is when it has four. -/
namespace ScriptBench

/-- What the opcode of a word computes from numbers: the numbers that it pushes, or a fault. -/
inductive Computes : String → List Int → Except Fault (List Int) → Prop
  | increment (a : Int) : Computes "OP_1ADD" [a] (.ok [a + 1])
  | decrement (a : Int) : Computes "OP_1SUB" [a] (.ok [a - 1])
  | negate (a : Int) : Computes "OP_NEGATE" [a] (.ok [-a])
  | abs (a : Int) : Computes "OP_ABS" [a] (.ok [|a|])
  | not (a : Int) : Computes "OP_NOT" [a] (.ok [if a = 0 then 1 else 0])
  | nonzero (a : Int) : Computes "OP_0NOTEQUAL" [a] (.ok [if a = 0 then 0 else 1])
  | add (a b : Int) : Computes "OP_ADD" [a, b] (.ok [a + b])
  | sub (a b : Int) : Computes "OP_SUB" [a, b] (.ok [a - b])
  | both (a b : Int) : Computes "OP_BOOLAND" [a, b] (.ok [if a ≠ 0 ∧ b ≠ 0 then 1 else 0])
  | either (a b : Int) : Computes "OP_BOOLOR" [a, b] (.ok [if a ≠ 0 ∨ b ≠ 0 then 1 else 0])
  | equal (a b : Int) : Computes "OP_NUMEQUAL" [a, b] (.ok [if a = b then 1 else 0])
  | differ (a b : Int) : Computes "OP_NUMNOTEQUAL" [a, b] (.ok [if a = b then 0 else 1])
  | less (a b : Int) : Computes "OP_LESSTHAN" [a, b] (.ok [if a < b then 1 else 0])
  | greater (a b : Int) : Computes "OP_GREATERTHAN" [a, b] (.ok [if b < a then 1 else 0])
  | atMost (a b : Int) : Computes "OP_LESSTHANOREQUAL" [a, b] (.ok [if a ≤ b then 1 else 0])
  | atLeast (a b : Int) : Computes "OP_GREATERTHANOREQUAL" [a, b] (.ok [if b ≤ a then 1 else 0])
  | min (a b : Int) : Computes "OP_MIN" [a, b] (.ok [if a ≤ b then a else b])
  | max (a b : Int) : Computes "OP_MAX" [a, b] (.ok [if a ≤ b then b else a])
  | within (x low high : Int) :
      Computes "OP_WITHIN" [x, low, high] (.ok [if low ≤ x ∧ x < high then 1 else 0])
  | equalVerify (a b : Int) :
      Computes "OP_NUMEQUALVERIFY" [a, b] (if a = b then .ok [] else .error .verifyFailed)

/-! ### Operands -/

theorem reads_popNumber :
    Action.Reads Action.popNumber (· ≤ 4) Number.value (.numberSize · 4) := by
  have hpop (e : Element) (rest alt : List Element) (conditions : List Bool) :
      Action.pop ⟨e :: rest, alt, conditions⟩ = .ok e ⟨rest, alt, conditions⟩ := rfl
  constructor
  · intro e hsize rest alt conditions
    refine (Action.bind_ok (hpop ..)).trans ?_
    unfold Action.readNumber Number.decode?
    rw [if_pos ⟨hsize, Nat.le_trans hsize (by decide)⟩]
    rfl
  · intro e hsize rest alt conditions
    refine (Action.bind_ok (hpop ..)).trans ?_
    unfold Action.readNumber Number.decode?
    rw [if_neg fun h => hsize h.1]
    rfl

/-! ### Operations -/

namespace Operation
variable (t : Option Template)

theorem run_unary (op : Unary) :
    (unary op).run t =
      Action.takes Action.popNumber 1 >>= fun ns => Action.pushNumber (op.apply (ns.getD 0 0)) := by
  simp [run, Action.takes]

theorem run_binary (op : Binary) :
    (binary op).run t =
      Action.takes Action.popNumber 2 >>= fun ns =>
        Action.pushNumber (op.apply (ns.getD 1 0) (ns.getD 0 0)) := by
  simp [run, Action.takes]

theorem run_numEqualVerify :
    numEqualVerify.run t =
      Action.takes Action.popNumber 2 >>= fun ns =>
        Action.verify (ns.getD 1 0 == ns.getD 0 0) := by
  simp [run, Action.takes]

theorem run_within :
    within.run t =
      Action.takes Action.popNumber 3 >>= fun ns =>
        Action.pushBool (ns.getD 1 0 ≤ ns.getD 2 0 && ns.getD 2 0 < ns.getD 0 0) := by
  simp [run, Action.takes]

end Operation

namespace RuleSet
variable {r : RuleSet} {o : Opcode}

theorem implements_unary (ho : o ∈ r.known) {op : Unary} (hop : o.operation = .unary op) {a n : Int}
    (h : op.apply a = n) :
    r.Implements Action.popNumber o.word [a] (.ok [.number n]) := by
  subst h
  exact implements_of_run ho hop rfl (Operation.run_unary · op) rfl

theorem implements_binary (ho : o ∈ r.known) {op : Binary} (hop : o.operation = .binary op)
    {a b n : Int} (h : op.apply a b = n) :
    r.Implements Action.popNumber o.word [b, a] (.ok [.number n]) := by
  subst h
  exact implements_of_run ho hop rfl (Operation.run_binary · op) rfl

end RuleSet

/-- An opcode of arithmetic takes its operands and computes. -/
theorem Computes.implements {w : String} {ns : List Int} {result : Except Fault (List Int)}
    (h : Computes w ns result) (r : RuleSet) :
    r.Implements Action.popNumber w ns.reverse (result.map (·.map Element.number)) := by
  open RuleSet in
  cases h with
  | increment a => exact implements_unary (known_of_find? (b := 0x8b) rfl rfl) rfl rfl
  | decrement a => exact implements_unary (known_of_find? (b := 0x8c) rfl rfl) rfl rfl
  | negate a => exact implements_unary (known_of_find? (b := 0x8f) rfl rfl) rfl rfl
  | abs a =>
    exact implements_unary (known_of_find? (b := 0x90) rfl rfl) rfl (Int.abs_eq_natAbs a).symm
  | not a =>
    exact implements_unary (known_of_find? (b := 0x91) rfl rfl) rfl (by simp [Unary.apply, truth])
  | nonzero a =>
    exact implements_unary (known_of_find? (b := 0x92) rfl rfl) rfl (by simp [Unary.apply, truth])
  | add a b => exact implements_binary (known_of_find? (b := 0x93) rfl rfl) rfl rfl
  | sub a b => exact implements_binary (known_of_find? (b := 0x94) rfl rfl) rfl rfl
  | both a b =>
    exact implements_binary (known_of_find? (b := 0x9a) rfl rfl) rfl (by simp [Binary.apply, truth])
  | either a b =>
    exact implements_binary (known_of_find? (b := 0x9b) rfl rfl) rfl (by simp [Binary.apply, truth])
  | equal a b =>
    exact implements_binary (known_of_find? (b := 0x9c) rfl rfl) rfl (by simp [Binary.apply, truth])
  | differ a b =>
    exact implements_binary (known_of_find? (b := 0x9e) rfl rfl) rfl (by simp [Binary.apply, truth])
  | less a b =>
    exact implements_binary (known_of_find? (b := 0x9f) rfl rfl) rfl (by simp [Binary.apply, truth])
  | greater a b =>
    exact implements_binary (known_of_find? (b := 0xa0) rfl rfl) rfl (by simp [Binary.apply, truth])
  | atMost a b =>
    exact implements_binary (known_of_find? (b := 0xa1) rfl rfl) rfl (by simp [Binary.apply, truth])
  | atLeast a b =>
    exact implements_binary (known_of_find? (b := 0xa2) rfl rfl) rfl (by simp [Binary.apply, truth])
  | min a b =>
    exact implements_binary (known_of_find? (b := 0xa3) rfl rfl) rfl (Int.min_def a b)
  | max a b =>
    exact implements_binary (known_of_find? (b := 0xa4) rfl rfl) rfl (Int.max_def a b)
  | within x low high =>
    refine ⟨_, known_of_find? (b := 0xa5) rfl rfl, rfl, rfl, _, Operation.run_within, ?_⟩
    show Action.pushNumber _ = Action.pushNumber _
    simp
  | equalVerify a b =>
    refine ⟨_, known_of_find? (b := 0x9d) rfl rfl, rfl, rfl, _,
      Operation.run_numEqualVerify, ?_⟩
    show Action.verify (a == b) = _
    by_cases hab : a = b
    · rw [if_pos hab, hab, beq_self_eq_true]
      rfl
    · rw [if_neg hab, beq_false_of_ne hab]
      rfl

/-! ### How large results get -/

theorem natAbs_value_lt_of_size {e : Element} (h : e.size ≤ 4) :
    (Number.value e.bytes).natAbs < 2 ^ 31 := by
  have hbits : 8 * e.bytes.length - 1 ≤ 31 := by
    have hlength : e.bytes.length ≤ 4 := h
    omega
  have hlt := Number.natAbs_value_lt e.bytes
  rw [Number.topBit_eq] at hlt
  exact Nat.lt_of_lt_of_le hlt (Nat.pow_le_pow_right Nat.two_pos hbits)

/-- A result has at most one bit more than the operands. -/
theorem Computes.natAbs_lt {w : String} {ns results : List Int} (h : Computes w ns (.ok results))
    (hns : ∀ n ∈ ns, n.natAbs < 2 ^ 31) : ∀ n ∈ results, n.natAbs < 2 ^ 32 := by
  -- The result is generalized, since that of the comparison that may fail is no constructor.
  generalize hresult : Except.ok (ε := Fault) results = result at h
  cases h with
  | equalVerify a b =>
    split at hresult
    · cases hresult
      exact List.forall_mem_nil _
    · cases hresult
  | _ =>
    cases hresult
    simp only [List.mem_cons, List.not_mem_nil, or_false, forall_eq_or_imp, forall_eq,
      Int.natAbs_abs] at hns ⊢
    omega

theorem Computes.eq_verifyFailed {w : String} {ns : List Int} {fault : Fault}
    (h : Computes w ns (.error fault)) : fault = .verifyFailed := by
  generalize hresult : Except.error (α := List Int) fault = result at h
  cases h with
  | equalVerify a b =>
    split at hresult
    · cases hresult
    · cases hresult
      rfl
  | _ => cases hresult

/-! ### Calls -/

namespace Machine
variable {m : Machine}

/-- The machine holds the error that an operand of the word is too long. -/
def Overflowed (m : Machine) (w : String) : Prop :=
  ∃ size, m.error = some (.opcode w (.numberSize size Number.operandLimit))

theorem Overflowed.of_after {o : Opcode} {rest : List Element} {size : Nat} :
    (m.after o rest (.error (.numberSize size 4))).Overflowed o.word := ⟨size, rfl⟩

/-- What is computed from operands is no overflow. -/
theorem not_overflowed_after (h : m.error = none) {w : String} {ns : List Int}
    {result : Except Fault (List Int)} (hw : Computes w ns result) (o : Opcode)
    (rest : List Element) :
    ¬(m.after o rest (result.map (·.map Element.number))).Overflowed w := by
  rintro ⟨size, herror⟩
  cases result with
  | ok results =>
    cases h.symm.trans herror
  | error fault =>
    obtain rfl := hw.eq_verifyFailed
    cases herror

/-- **Arithmetic is exact.** An opcode of arithmetic replaces operands of four bytes at most by the
result on the numbers they stand for, which fits a word of 64 bits and has five bytes at most; the
first operand that is longer, from the top, is an overflow. So a number is taken again just when
its magnitude has 31 bits. -/
theorem call_arithmetic (h : m.error = none) (hexecuting : m.executing = true) {w : String}
    {operands rest : List Element} {result : Except Fault (List Int)}
    (hmain : m.main = operands ++ rest)
    (hw : Computes w (operands.map fun e => Number.value e.bytes).reverse result) :
    ∃ o, m.rules.opcode? w = some o ∧ o.word = w ∧
      ((∀ e ∈ operands, e.size ≤ 4) →
        m.call (.word w) = m.after o rest (result.map (·.map Element.number)) ∧
        ∀ ns, result = .ok ns → ∀ n ∈ ns,
          Number.inWord64 n = true ∧ (Number.encode n).length ≤ 5) ∧
      ((¬∀ e ∈ operands, e.size ≤ 4) →
        ∃ taken e below, operands = taken ++ e :: below ∧ (∀ x ∈ taken, x.size ≤ 4) ∧ 4 < e.size ∧
          m.call (.word w) = m.after o (below ++ rest) (.error (.numberSize e.size 4))) ∧
      ∀ n, .number n ∈ operands → (∀ e ∈ operands, e ≠ .number n → e.size ≤ 4) →
        (¬(m.call (.word w)).Overflowed w ↔ n.natAbs < 2 ^ 31) := by
  have himplements := hw.implements m.rules
  rw [List.reverse_reverse, ← List.append_nil (List.map ..)] at himplements
  obtain ⟨o, ho, rfl, hshort, hlong⟩ :=
    call_implemented h hexecuting reads_popNumber hmain himplements
  specialize hshort rfl
  simp only [Nat.not_le] at hlong
  refine ⟨o, ho, rfl, fun hall => ⟨hshort hall, ?_⟩, hlong, ?_⟩
  · rintro ns rfl n hn
    have hvalues : ∀ n ∈ (operands.map fun e => Number.value e.bytes).reverse,
        n.natAbs < 2 ^ 31 := by
      simpa using fun e he => natAbs_value_lt_of_size (hall e he)
    have hlt := hw.natAbs_lt hvalues n hn
    exact ⟨Number.inWord64_iff.mpr (by omega), Number.length_encode_le_iff.mpr (by omega)⟩
  · intro n hn hothers
    have hsize : (Element.number n).size ≤ 4 ↔ n.natAbs < 2 ^ 31 := Number.length_encode_le_iff
    rw [← hsize]
    constructor
    · intro hfine
      by_contra hnot
      obtain ⟨taken, e, below, -, -, -, hcall⟩ := hlong fun hall => hnot (hall _ hn)
      rw [hcall] at hfine
      exact hfine .of_after
    · intro hle
      rw [hshort fun e he => if heq : e = .number n then heq ▸ hle else hothers e he heq]
      exact not_overflowed_after h hw o rest

/-- The greatest difference has five bytes, and is refused as an operand above a zero with a sign. -/
theorem call_arithmetic_extremes :
    let m : Machine := { new .standard with
      main := [.raw [0xff, 0xff, 0xff, 0xff], .raw [0xff, 0xff, 0xff, 0x7f], .raw [0x80]] }
    let m' : Machine := { new .standard with main := [.number 0xfffffffe, .raw [0x80]] }
    m.error = none ∧ m.executing = true ∧
    Computes "OP_SUB" [0x7fffffff, -0x7fffffff] (.ok [0xfffffffe]) ∧
    (∃ o, m.call (.word "OP_SUB") = m.after o [.raw [0x80]] (.ok [.number 0xfffffffe])) ∧
    (Number.encode 0xfffffffe).length ≤ 5 ∧
    m'.error = none ∧ m'.executing = true ∧ Computes "OP_BOOLOR" [0, 0xfffffffe] (.ok [1]) ∧
    (m'.call (.word "OP_BOOLOR")).Overflowed "OP_BOOLOR" := by
  intro m m'
  have hsub : Computes "OP_SUB" [0x7fffffff, -0x7fffffff] (.ok [0xfffffffe]) := .sub _ _
  have hor : Computes "OP_BOOLOR" [0, 0xfffffffe] (.ok [1]) := .either _ _
  have hmain : m.main =
      [.raw [0xff, 0xff, 0xff, 0xff], .raw [0xff, 0xff, 0xff, 0x7f]] ++ [.raw [0x80]] := rfl
  have hmain' : m'.main = [.number 0xfffffffe, .raw [0x80]] ++ [] := rfl
  obtain ⟨o, -, -, hexact, -⟩ := call_arithmetic rfl rfl hmain hsub
  obtain ⟨hcall, hresults⟩ := hexact (by decide)
  have hvalues : ([.number 0xfffffffe, .raw [0x80]].map fun e : Element =>
      Number.value e.bytes).reverse = [0, 0xfffffffe] := by decide +kernel
  obtain ⟨-, -, -, -, -, hagain⟩ := call_arithmetic rfl rfl hmain' (hvalues ▸ hor)
  have hover := (hagain 0xfffffffe (by simp) (by decide)).not.mpr (by decide)
  exact ⟨rfl, rfl, hsub, ⟨o, hcall⟩, (hresults _ rfl _ (by simp)).2, rfl, rfl, hor,
    not_not.mp hover⟩

end Machine

end ScriptBench
