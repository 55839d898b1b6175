import Mathlib.Data.Int.Lemmas
import ScriptBench.Proofs.Literal.Division
import ScriptBench.Proofs.Machine.Operands

/-! The arithmetic of words is exact or flagged.

The opcodes that compute with words take elements of eight bytes, each the two's complement of
an integer. `ComputesWords` says what they push for the integers, in the order in which they
were pushed: a result that is a word is pushed below a one, and without a result there is a
zero alone. Nothing overflows on the way to a result. -/
namespace ScriptBench

/-- What is pushed for a number, the top first. -/
def flagged (n : Int) : List Element :=
  if Number.inWord64 n then [.number 1, .raw (encodeWord64 n)] else [.number 0]

/-- The opcodes that compute with words, and how many operands each of them takes. -/
def wordOperands : List (String × Nat) :=
  [("OP_NEG64", 1), ("OP_ADD64", 2), ("OP_SUB64", 2), ("OP_MUL64", 2), ("OP_DIV64", 2),
    ("OP_LESSTHAN64", 2), ("OP_LESSTHANOREQUAL64", 2), ("OP_GREATERTHAN64", 2),
    ("OP_GREATERTHANOREQUAL64", 2)]

/-- What the opcode of a word computes from integers: the elements that it pushes, the top
first. -/
inductive ComputesWords : String → List Int → List Element → Prop
  | negate (a : Int) : ComputesWords "OP_NEG64" [a] (flagged (-a))
  | add (a b : Int) : ComputesWords "OP_ADD64" [a, b] (flagged (a + b))
  | sub (a b : Int) : ComputesWords "OP_SUB64" [a, b] (flagged (a - b))
  | mul (a b : Int) : ComputesWords "OP_MUL64" [a, b] (flagged (a * b))
  | divide {a b q r : Int} (h : a = q * b + r) (hlow : 0 ≤ r) (hhigh : r < |b|)
      (hword : Number.inWord64 q = true) :
      ComputesWords "OP_DIV64" [a, b]
        [.number 1, .raw (encodeWord64 q), .raw (encodeWord64 r)]
  | overflow {a b q r : Int} (h : a = q * b + r) (hlow : 0 ≤ r) (hhigh : r < |b|)
      (hword : Number.inWord64 q = false) : ComputesWords "OP_DIV64" [a, b] [.number 0]
  | divideByZero (a : Int) : ComputesWords "OP_DIV64" [a, 0] [.number 0]
  | less (a b : Int) : ComputesWords "OP_LESSTHAN64" [a, b] [.number (if a < b then 1 else 0)]
  | atMost (a b : Int) :
      ComputesWords "OP_LESSTHANOREQUAL64" [a, b] [.number (if a ≤ b then 1 else 0)]
  | greater (a b : Int) :
      ComputesWords "OP_GREATERTHAN64" [a, b] [.number (if b < a then 1 else 0)]
  | atLeast (a b : Int) :
      ComputesWords "OP_GREATERTHANOREQUAL64" [a, b] [.number (if b ≤ a then 1 else 0)]

/-- The quotient and the remainder are determined by the words that are divided. -/
theorem ComputesWords.of_divide {a b : Int} {result : List Element}
    (h : ComputesWords "OP_DIV64" [a, b] result) :
    result =
      if b = 0 ∨ ¬Number.inWord64 (a / b) then [.number 0]
      else [.number 1, .raw (encodeWord64 (a / b)), .raw (encodeWord64 (a % b))] := by
  generalize hw : "OP_DIV64" = w at h
  generalize hns : [a, b] = ns at h
  have hunique {q r : Int} (h : a = q * b + r) (hlow : 0 ≤ r) (hhigh : r < |b|) :
      b ≠ 0 ∧ a / b = q ∧ a % b = r := by
    have hzero : b ≠ 0 := abs_pos.mp (Int.lt_of_le_of_lt hlow hhigh)
    exact ⟨hzero, (Int.ediv_emod_unique'' hzero).mpr ⟨by rw [h]; ring, hlow, hhigh⟩⟩
  cases h with
  | divide h hlow hhigh hword =>
    cases hns
    obtain ⟨hzero, hq, hr⟩ := hunique h hlow hhigh
    rw [hq, hr, if_neg (by simp [hzero, hword])]
  | overflow h hlow hhigh hword =>
    cases hns
    obtain ⟨-, hq, -⟩ := hunique h hlow hhigh
    rw [hq, if_pos (.inr (by simp [hword]))]
  | divideByZero =>
    cases hns
    rw [if_pos (.inl rfl)]
  | _ => simp at hw

/-! ### Operands -/

/-- The integer that eight bytes stand for. -/
def wordValue (b : Bytes) : Int := Int.bmod b.toNat wordCount64

theorem wordValue_encodeWord64 {n : Int} (h : Number.inWord64 n = true) :
    wordValue (encodeWord64 n) = n := by
  have hnonneg : 0 ≤ n % wordCount64 := Int.emod_nonneg n (by decide)
  have hlt : n % wordCount64 < wordCount64 := Int.emod_lt_of_pos n (by decide)
  have hdigits : (encodeWord64 n).toNat = (n % wordCount64).toNat := by
    rw [encodeWord64, toNat_littleEndian]
    exact Nat.mod_eq_of_lt ((Int.toNat_lt hnonneg).mpr hlt)
  rw [Number.inWord64_iff] at h
  rw [wordValue, hdigits, Int.toNat_of_nonneg hnonneg, Int.emod_bmod]
  exact Int.bmod_eq_of_le h.1 h.2

/-- Elements that hold words are operands that stand for them. -/
theorem wordValue_operands {operands : List Element} {ns : List Int}
    (hwords : ∀ n ∈ ns, Number.inWord64 n = true)
    (h : operands.map Element.bytes = ns.map encodeWord64) :
    (∀ e ∈ operands, e.size = 8) ∧ (operands.map fun e => wordValue e.bytes) = ns := by
  constructor
  · intro e he
    obtain ⟨n, -, hn⟩ : ∃ n ∈ ns, encodeWord64 n = e.bytes :=
      List.mem_map.mp (h ▸ List.mem_map_of_mem he)
    rw [Element.size, ← hn]
    exact length_littleEndian ..
  · calc
      (operands.map fun e => wordValue e.bytes) = (operands.map Element.bytes).map wordValue := by
        rw [List.map_map, Function.comp_def]
      _ = ns.map fun n => wordValue (encodeWord64 n) := by rw [h, List.map_map, Function.comp_def]
      _ = ns.map id := List.map_congr_left fun n hn => wordValue_encodeWord64 (hwords n hn)
      _ = ns := List.map_id ns

theorem reads_popWord :
    Action.Reads Action.popWord (· = 8) wordValue (.operand <| .notEightBytes ·) := by
  have hpop (e : Element) (rest alt : List Element) (conditions : List Bool) :
      Action.pop ⟨e :: rest, alt, conditions⟩ = .ok e ⟨rest, alt, conditions⟩ := rfl
  constructor
  · intro e hsize rest alt conditions
    have hword : decodeWord64? e.bytes = some (wordValue e.bytes) := if_pos hsize
    refine (Action.bind_ok (hpop ..)).trans ?_
    rw [hword]
    rfl
  · intro e hsize rest alt conditions
    have hnone : decodeWord64? e.bytes = none := if_neg hsize
    refine (Action.bind_ok (hpop ..)).trans ?_
    rw [hnone]
    rfl

/-! ### Operations -/

theorem Action.pushChecked_eq (n : Int) : pushChecked n = leave (.ok (flagged n)) := by
  unfold pushChecked flagged
  split <;> rfl

/-- Pushes the quotient and the remainder of words, if there are any. -/
def Action.pushDivided (a b : Int) : Action Unit :=
  if b = 0 ∨ ¬Number.inWord64 (a / b) then pushBool false
  else do
    pushBytes (encodeWord64 (a % b))
    pushBytes (encodeWord64 (a / b))
    pushBool true

namespace Operation
variable (t : Option Template)

theorem run_wordArith (op : WordArith) :
    (wordArith op).run t =
      Action.takes Action.popWord 2 >>= fun ns =>
        Action.pushChecked (op.apply (ns.getD 1 0) (ns.getD 0 0)) := by
  simp [run, Action.takes]

theorem run_wordNegate :
    wordNegate.run t =
      Action.takes Action.popWord 1 >>= fun ns => Action.pushChecked (-(ns.getD 0 0)) := by
  simp [run, Action.takes]

theorem run_wordDivide :
    wordDivide.run t =
      Action.takes Action.popWord 2 >>= fun ns =>
        Action.pushDivided (ns.getD 1 0) (ns.getD 0 0) := by
  simp [run, runDivide, Action.pushDivided, Action.takes]

theorem run_wordOrder (op : WordOrder) :
    (wordOrder op).run t =
      Action.takes Action.popWord 2 >>= fun ns =>
        Action.pushBool (op.holds (ns.getD 1 0) (ns.getD 0 0)) := by
  simp [run, Action.takes]

end Operation

/-- Words are divided, or there is no quotient. -/
theorem exists_pushDivided (a b : Int) :
    ∃ result, ComputesWords "OP_DIV64" [a, b] result ∧
      Action.pushDivided a b = Action.leave (.ok result) := by
  unfold Action.pushDivided
  by_cases hzero : b = 0
  · subst hzero
    exact ⟨_, .divideByZero a, if_pos (.inl rfl)⟩
  have hdivision : a = a / b * b + a % b := (Int.ediv_mul_add_emod a b).symm
  have hlow := Int.emod_nonneg a hzero
  have hhigh := Int.emod_lt_abs a hzero
  by_cases hword : Number.inWord64 (a / b) = true
  · exact ⟨_, .divide hdivision hlow hhigh hword, if_neg (by simp [hzero, hword])⟩
  · exact ⟨_, .overflow hdivision hlow hhigh (Bool.eq_false_iff.mpr hword), if_pos (.inr hword)⟩

theorem Element.ofBool_decide (p : Prop) [Decidable p] :
    ofBool (decide p) = .number (if p then 1 else 0) := by
  simp [ofBool]

namespace RuleSet
variable {r : RuleSet} {o : Opcode}

theorem implements_wordArith (ho : o ∈ r.known) {op : WordArith}
    (hop : o.operation = .wordArith op) (a b : Int) :
    r.Implements Action.popWord o.word [b, a] (.ok (flagged (op.apply a b))) :=
  implements_of_run ho hop rfl (Operation.run_wordArith · op) (Action.pushChecked_eq _)

theorem implements_wordOrder (ho : o ∈ r.known) {op : WordOrder}
    (hop : o.operation = .wordOrder op) {a b : Int} {p : Prop} [Decidable p]
    (h : op.holds a b = decide p) :
    r.Implements Action.popWord o.word [b, a] (.ok [.number (if p then 1 else 0)]) := by
  refine implements_of_run ho hop rfl (Operation.run_wordOrder · op) ?_
  show Action.pushBool (op.holds a b) = _
  rw [h, Action.pushBool, Element.ofBool_decide]
  rfl

end RuleSet

/-- An opcode that computes with words takes its operands and computes. -/
theorem exists_implements_words {r : RuleSet} (hr : r.introspects = true) {w : String} {k : Nat}
    (hw : (w, k) ∈ wordOperands) {ns : List Int} (hns : ns.length = k) :
    ∃ result, ComputesWords w ns.reverse result ∧
      r.Implements Action.popWord w ns (.ok result) := by
  open RuleSet in
  simp only [wordOperands, List.mem_cons, Prod.mk.injEq, List.not_mem_nil, or_false] at hw
  obtain ⟨rfl, rfl⟩ | ⟨rfl, rfl⟩ | ⟨rfl, rfl⟩ | ⟨rfl, rfl⟩ | ⟨rfl, rfl⟩ | ⟨rfl, rfl⟩ |
    ⟨rfl, rfl⟩ | ⟨rfl, rfl⟩ | ⟨rfl, rfl⟩ := hw
  · obtain ⟨a, rfl⟩ := List.length_eq_one_iff.mp hns
    have hknown := known_of_find? (b := 0xdb) rfl hr
    exact ⟨_, .negate a,
      implements_of_run hknown rfl rfl Operation.run_wordNegate (Action.pushChecked_eq _)⟩
  all_goals obtain ⟨b, a, rfl⟩ := List.length_eq_two.mp hns
  · exact ⟨_, .add a b, implements_wordArith (known_of_find? (b := 0xd7) rfl hr) rfl a b⟩
  · exact ⟨_, .sub a b, implements_wordArith (known_of_find? (b := 0xd8) rfl hr) rfl a b⟩
  · exact ⟨_, .mul a b, implements_wordArith (known_of_find? (b := 0xd9) rfl hr) rfl a b⟩
  · obtain ⟨result, hresult, hpush⟩ := exists_pushDivided a b
    have hknown := known_of_find? (b := 0xda) rfl hr
    exact ⟨result, hresult, implements_of_run hknown rfl rfl Operation.run_wordDivide hpush⟩
  · exact ⟨_, .less a b, implements_wordOrder (known_of_find? (b := 0xdc) rfl hr) rfl rfl⟩
  · exact ⟨_, .atMost a b, implements_wordOrder (known_of_find? (b := 0xdd) rfl hr) rfl rfl⟩
  · exact ⟨_, .greater a b, implements_wordOrder (known_of_find? (b := 0xde) rfl hr) rfl rfl⟩
  · exact ⟨_, .atLeast a b, implements_wordOrder (known_of_find? (b := 0xdf) rfl hr) rfl rfl⟩

namespace Machine
variable {m : Machine}

/-- **The arithmetic of words is exact or flagged.** Under Liquid Tapscript, an opcode that computes
with words replaces the words that it takes by what it computes from them. The first operand from
the top that has not eight bytes is refused, also where others are missing below it. Words with a
quotient are divided without leaving the words, and only the least word divided by minus one has
none. -/
theorem call_words (h : m.error = none) (hexecuting : m.executing = true)
    (hrules : m.rules = ⟨.liquid, .tapscript⟩) {w : String} {k : Nat} (hw : (w, k) ∈ wordOperands)
    {operands rest : List Element} (hk : operands.length ≤ k) (hmain : m.main = operands ++ rest) :
    ∃ o, m.rules.opcode? w = some o ∧ o.word = w ∧
      (∀ ns : List Int, ns.length = k → (∀ n ∈ ns, Number.inWord64 n = true) →
        operands.map Element.bytes = ns.map encodeWord64 →
        ∃ result, ComputesWords w ns.reverse result ∧
          m.call (.word w) = m.after o rest (.ok result)) ∧
      ((¬∀ e ∈ operands, e.size = 8) →
        ∃ taken e below, operands = taken ++ e :: below ∧ (∀ x ∈ taken, x.size = 8) ∧ e.size ≠ 8 ∧
          m.call (.word w) =
            m.after o (below ++ rest) (.error (.operand (.notEightBytes e.size)))) ∧
      ∀ a b, Number.inWord64 a = true → Number.inWord64 b = true → b ≠ 0 →
        (Number.inWord64 (a / b) = true ↔ ¬(a = -2 ^ 63 ∧ b = -1)) ∧
        (Number.inWord64 (a / b) = true →
          Word64.quotient? a b = some (a / b) ∧ Word64.remainder? a b = some (a % b)) := by
  have hintrospects : m.rules.introspects = true := by rw [hrules]; rfl
  -- Where operands are missing, it is of no account what they would be.
  let missing : List Int := List.replicate (k - operands.length) 0
  have hlength : ((operands.map fun e => wordValue e.bytes) ++ missing).length = k := by
    rw [List.length_append, List.length_map, List.length_replicate]
    omega
  obtain ⟨result, hresult, himplements⟩ := exists_implements_words hintrospects hw hlength
  obtain ⟨o, ho, hword, hall, hnot⟩ := call_implemented h hexecuting reads_popWord hmain himplements
  refine ⟨o, ho, hword, fun ns hns hwords hbytes => ?_, hnot, fun a b ha hb hzero => ⟨?_, ?_⟩⟩
  · obtain ⟨hsizes, rfl⟩ := wordValue_operands hwords hbytes
    have hnone : missing = [] := by
      rw [List.length_append, hns, Nat.add_eq_left] at hlength
      exact List.eq_nil_of_length_eq_zero hlength
    rw [hnone, List.append_nil] at hresult
    exact ⟨result, hresult, hall hnone hsizes⟩
  · exact Word64.inWord64_ediv_iff ha hzero
  · exact Word64.quotient?_remainder?_eq ha hb hzero

/-- A negative divisor leaves a remainder that is not negative, the least word divided by minus one
is flagged, and seven bytes are refused even though an operand is missing. -/
theorem call_words_extremes :
    let m : Machine := { new ⟨.liquid, .tapscript⟩ with
      main := [.raw (encodeWord64 (-2)), .raw (encodeWord64 (-7)), .raw [1]] }
    let m' : Machine := { m with
      main := [.raw (encodeWord64 (-1)), .raw [0, 0, 0, 0, 0, 0, 0, 0x80]] }
    let m'' : Machine := { m with main := [.raw [0, 0, 0, 0, 0, 0, 0]] }
    m.error = none ∧ m.executing = true ∧ m.rules = ⟨.liquid, .tapscript⟩ ∧
    ("OP_DIV64", 2) ∈ wordOperands ∧ ("OP_ADD64", 2) ∈ wordOperands ∧
    (∃ o, m.call (.word "OP_DIV64") =
      m.after o [.raw [1]] (.ok [.number 1, .raw (encodeWord64 4), .raw (encodeWord64 1)])) ∧
    (∃ o, m'.call (.word "OP_DIV64") = m'.after o [] (.ok [.number 0])) ∧
    ∃ o, m''.call (.word "OP_ADD64") =
      m''.after o [] (.error (.operand (.notEightBytes 7))) := by
  intro m m' m''
  have hdivide : ("OP_DIV64", 2) ∈ wordOperands := by decide
  have hadd : ("OP_ADD64", 2) ∈ wordOperands := by decide
  have hmain : m.main =
      [.raw (encodeWord64 (-2)), .raw (encodeWord64 (-7))] ++ [.raw [1]] := rfl
  have hmain' : m'.main =
      [.raw (encodeWord64 (-1)), .raw [0, 0, 0, 0, 0, 0, 0, 0x80]] ++ [] := rfl
  have hmain'' : m''.main = [.raw [0, 0, 0, 0, 0, 0, 0]] ++ [] := rfl
  refine ⟨rfl, rfl, rfl, hdivide, hadd, ?_, ?_, ?_⟩
  · obtain ⟨o, -, -, hexact, -⟩ := call_words rfl rfl rfl hdivide (by decide) hmain
    obtain ⟨result, hresult, hcall⟩ := hexact [-2, -7] rfl (by decide) rfl
    rw [hresult.of_divide, if_neg (by decide)] at hcall
    exact ⟨o, hcall⟩
  · obtain ⟨o, -, -, hexact, -⟩ := call_words rfl rfl rfl hdivide (by decide) hmain'
    obtain ⟨result, hresult, hcall⟩ := hexact [-1, -2 ^ 63] rfl (by decide) (by decide +kernel)
    rw [hresult.of_divide, if_pos (by decide +kernel)] at hcall
    exact ⟨o, hcall⟩
  · obtain ⟨o, -, -, -, hrefused, -⟩ := call_words rfl rfl rfl hadd (by decide) hmain''
    obtain ⟨taken, e, below, hoperands, -, -, hcall⟩ := hrefused (by decide)
    obtain ⟨rfl, hsingle⟩ | ⟨-, hnone⟩ := List.singleton_eq_append_iff.mp hoperands
    · cases hsingle
      exact ⟨o, hcall⟩
    · cases hnone

end Machine

end ScriptBench
