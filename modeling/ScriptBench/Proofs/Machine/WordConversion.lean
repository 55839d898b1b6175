import ScriptBench.Proofs.Literal.FixedWidth
import ScriptBench.Proofs.Machine.Operands

/-! Words turned into script numbers and back.

The two conversions are inverse to each other on every word of eight bytes but the least one:
its magnitude needs a ninth byte below the sign, which the way back does not read. -/
namespace ScriptBench

/-- Eight bytes are the form of the word that they stand for. -/
theorem encodeWord64_of_decodeWord64? {b : Bytes} {n : Int} (h : decodeWord64? b = some n) :
    encodeWord64 n = b := by
  unfold decodeWord64? at h
  split at h
  case isFalse => cases h
  case isTrue hlength =>
    obtain rfl := Option.some.inj h
    have hlt := Bytes.toNat_lt_pow b
    rw [hlength] at hlt
    have hmod : (Int.bmod b.toNat wordCount64 % wordCount64).toNat = b.toNat := by
      rw [Int.bmod_emod, ← Int.natCast_emod, Int.toNat_natCast]
      exact Nat.mod_eq_of_lt hlt
    rw [encodeWord64, hmod, ← hlength]
    exact littleEndian_toNat b

namespace Number

/-- Only the least word takes more than eight bytes. -/
theorem length_encode_word_iff {n : Int} (h : inWord64 n = true) :
    (encode n).length ≤ 8 ↔ n ≠ -2 ^ 63 := by
  rw [inWord64_iff] at h
  rw [length_encode_le_iff]
  omega

theorem length_encode_least : (encode (-2 ^ 63)).length = 9 := by decide +kernel

end Number

namespace Machine
variable {m : Machine} {e : Element} {rest : List Element}

/-! ### The conversions on the stacks -/

theorem run_fromWord {t : Option Template} {s : Stacks} (hmain : s.main = e :: rest) {n : Int}
    (hn : decodeWord64? e.bytes = some n) :
    Operation.fromWord.run t s = .ok () { s with main := .number n :: rest } := by
  obtain ⟨main, alt, conditions⟩ := s
  obtain rfl : main = e :: rest := hmain
  have hpop : Action.popWord ⟨e :: rest, alt, conditions⟩ = .ok n ⟨rest, alt, conditions⟩ := by
    simp only [Action.popWord, bind, EStateM.bind, Action.pop, hn]
    rfl
  change EStateM.bind Action.popWord Action.pushNumber ⟨e :: rest, alt, conditions⟩ = _
  rw [EStateM.bind, hpop]
  rfl

theorem run_toWord {t : Option Template} {s : Stacks} {n : Int} (hmain : s.main = .number n :: rest) :
    Operation.toWord.run t s =
      if (Number.encode n).length ≤ 8 then
        .ok () { s with main := .raw (encodeWord64 n) :: rest }
      else .error (.numberSize (Number.encode n).length 8) { s with main := rest } := by
  obtain ⟨main, alt, conditions⟩ := s
  obtain rfl : main = .number n :: rest := hmain
  have hdecode := Number.decode?_encode 8 n
  rw [Nat.min_self] at hdecode
  change EStateM.bind (Action.readNumber 8 (.number n))
    (fun n => Action.pushBytes (encodeWord64 n)) ⟨rest, alt, conditions⟩ = _
  unfold EStateM.bind Action.readNumber Element.bytes
  by_cases hsize : (Number.encode n).length ≤ 8
  · rw [if_pos hsize] at hdecode ⊢
    rw [hdecode]
    rfl
  · rw [if_neg hsize] at hdecode ⊢
    rw [hdecode]
    rfl

/-! ### The conversions as calls -/

section Calls
variable (h : m.error = none) (hexecuting : m.executing = true)
  (hrules : m.rules.introspects = true)
include h hexecuting hrules

/-- A word on top becomes the number that it stands for. -/
theorem call_fromWord (hmain : m.main = e :: rest) {n : Int}
    (hn : decodeWord64? e.bytes = some n) :
    m.call (.word "OP_LE64TOSCRIPTNUM") =
      { m with main := .number n :: rest, bytecode := m.bytecode ++ [0xe1] } := by
  have hknown := RuleSet.known_of_find? (b := 0xe1) rfl hrules
  refine (call_known h hexecuting hknown rfl).trans ?_
  simp only [perform, run_fromWord hmain hn]

/-- A number of eight bytes at most becomes a word. -/
theorem call_toWord {n : Int} (hmain : m.main = .number n :: rest)
    (hsize : (Number.encode n).length ≤ 8) :
    m.call (.word "OP_SCRIPTNUMTOLE64") =
      { m with main := .raw (encodeWord64 n) :: rest, bytecode := m.bytecode ++ [0xe0] } := by
  have hknown := RuleSet.known_of_find? (b := 0xe0) rfl hrules
  refine (call_known h hexecuting hknown rfl).trans ?_
  simp only [perform, run_toWord hmain, if_pos hsize]

theorem call_toWord_long {n : Int} (hmain : m.main = .number n :: rest)
    (hsize : ¬(Number.encode n).length ≤ 8) :
    m.call (.word "OP_SCRIPTNUMTOLE64") =
      { m with
        main := rest, bytecode := m.bytecode ++ [0xe0]
        error := some (.opcode "OP_SCRIPTNUMTOLE64" (.numberSize (Number.encode n).length 8)) } := by
  have hknown := RuleSet.known_of_find? (b := 0xe0) rfl hrules
  refine (call_known h hexecuting hknown rfl).trans ?_
  simp only [perform, run_toWord hmain, if_neg hsize]

/-- There and back, every word is restored but the least one. -/
theorem run_thereAndBack (hmain : m.main = e :: rest) (hsize : e.size = 8) :
    m.run [.word "OP_LE64TOSCRIPTNUM", .word "OP_SCRIPTNUMTOLE64"] =
      if decodeWord64? e.bytes = some (-2 ^ 63) then
        { m with
          main := rest, bytecode := m.bytecode ++ [0xe1, 0xe0]
          error := some (.opcode "OP_SCRIPTNUMTOLE64" (.numberSize 9 8)) }
      else { m with main := .raw e.bytes :: rest, bytecode := m.bytecode ++ [0xe1, 0xe0] } := by
  obtain ⟨n, hn⟩ : ∃ n, decodeWord64? e.bytes = some n := ⟨_, if_pos hsize⟩
  have hword := Number.length_encode_word_iff (Number.inWord64_of_decodeWord64? hn)
  have hbytes : m.bytecode ++ [0xe1, 0xe0] = m.bytecode ++ [0xe1] ++ [0xe0] := by simp
  let turned : Machine := { m with main := .number n :: rest, bytecode := m.bytecode ++ [0xe1] }
  rw [run_cons, call_fromWord h hexecuting hrules hmain hn, hbytes]
  by_cases hleast : n = -2 ^ 63
  · rw [if_pos (hleast ▸ hn)]
    have hlong : ¬(Number.encode n).length ≤ 8 := fun hle => hword.mp hle hleast
    refine (call_toWord_long (m := turned) h hexecuting hrules rfl hlong).trans ?_
    rw [hleast, Number.length_encode_least]
  · have hother : decodeWord64? e.bytes ≠ some (-2 ^ 63) := by
      rw [hn]
      exact fun heq => hleast (Option.some.inj heq)
    rw [if_neg hother]
    refine (call_toWord (m := turned) h hexecuting hrules rfl (hword.mpr hleast)).trans ?_
    rw [encodeWord64_of_decodeWord64? hn]

end Calls

/-! ### The codec -/

/-- Script numbers are written in the shortest form and read from any. A number has the least
number of bytes that hold it with its sign, and is read back within a limit of as many. What is
read is written no longer than it was, and the same just when it was minimal. In words of 64
bits no step of either overflows. A word turned into a number and back is restored; only the
least one is refused on the way back. -/
theorem scriptNumber_codec :
    (∀ n : Int,
      (n = 0 → Number.encode n = []) ∧
      (n ≠ 0 → n.natAbs < 2 ^ (8 * (Number.encode n).length - 1) ∧
        ∀ k, n.natAbs < 2 ^ (8 * k - 1) → (Number.encode n).length ≤ k) ∧
      ∀ limit, Number.decode? limit (Number.encode n) =
        if (Number.encode n).length ≤ min limit 8 then some n else none) ∧
    (∀ (limit : Nat) (b : Bytes) (n : Int), Number.decode? limit b = some n →
      (Number.encode n).length ≤ b.length ∧ (Number.encode n = b ↔ Number.IsMinimal b)) ∧
    (∀ n : Int, Number.inWord64 n = true → Word64.encode? n = some (Number.encode n)) ∧
    (∀ (limit : Nat) (b : Bytes), Word64.decode? limit b = some (Number.decode? limit b)) ∧
    ∀ (m : Machine) (e : Element) (rest : List Element), m.error = none → m.executing = true →
      m.rules.introspects = true → m.main = e :: rest → e.size = 8 →
      m.run [.word "OP_LE64TOSCRIPTNUM", .word "OP_SCRIPTNUMTOLE64"] =
        if decodeWord64? e.bytes = some (-2 ^ 63) then
          { m with
            main := rest, bytecode := m.bytecode ++ [0xe1, 0xe0]
            error := some (.opcode "OP_SCRIPTNUMTOLE64" (.numberSize 9 8)) }
        else { m with main := .raw e.bytes :: rest, bytecode := m.bytecode ++ [0xe1, 0xe0] } := by
  refine ⟨fun n => ⟨?_, fun _ => ⟨?_, ?_⟩, ?_⟩, ?_, ?_, ?_, ?_⟩
  · rintro rfl
    exact Number.encode_zero
  · exact Number.length_encode_le_iff.mp (Nat.le_refl _)
  · exact fun k => Number.length_encode_le_iff.mpr
  · exact fun limit => Number.decode?_encode limit n
  · intro limit b n hn
    obtain rfl : Number.value b = n := by
      unfold Number.decode? at hn
      split at hn
      · exact Option.some.inj hn
      · cases hn
    exact ⟨Number.length_encode_value_le b, Number.encode_value_eq_iff b⟩
  · exact fun n => Word64.encode?_eq
  · exact Word64.decode?_eq
  · exact fun m e rest => run_thereAndBack

/-- A negative number whose sign takes a byte of its own, the last word before the least one, and
the least one. -/
theorem scriptNumber_codec_edges :
    Number.encode (-128) = [0x80, 0x80] ∧ (Number.encode 5 ≠ [0x05, 0x00]) ∧
    Word64.encode? (-128) = some [0x80, 0x80] ∧
    (let m : Machine :=
      { Machine.new ⟨.liquid, .tapscript⟩ with main := [.raw [1, 0, 0, 0, 0, 0, 0, 0x80]] }
    m.run [.word "OP_LE64TOSCRIPTNUM", .word "OP_SCRIPTNUMTOLE64"] =
      { m with bytecode := [0xe1, 0xe0] }) ∧
    (let m : Machine :=
      { Machine.new ⟨.liquid, .tapscript⟩ with main := [.raw [0, 0, 0, 0, 0, 0, 0, 0x80]] }
    m.run [.word "OP_LE64TOSCRIPTNUM", .word "OP_SCRIPTNUMTOLE64"] =
      { m with
        main := [], bytecode := [0xe1, 0xe0]
        error := some (.opcode "OP_SCRIPTNUMTOLE64" (.numberSize 9 8)) }) := by
  obtain ⟨-, hread, hwritten, -, hrun⟩ := scriptNumber_codec
  have hencode := (hread 4 [0x80, 0x80] (-128) (by decide +kernel)).2.mpr (by decide)
  refine ⟨hencode, fun h => ?_, ?_, ?_, ?_⟩
  · have hminimal := (hread 4 [0x05, 0x00] 5 (by decide +kernel)).2.mp h
    exact absurd hminimal (by decide)
  · rw [hwritten (-128) (by decide), hencode]
  · exact (hrun _ _ [] rfl rfl rfl rfl rfl).trans (if_neg (by decide +kernel))
  · exact (hrun _ _ [] rfl rfl rfl rfl rfl).trans (if_pos (by decide +kernel))

end Machine

end ScriptBench
