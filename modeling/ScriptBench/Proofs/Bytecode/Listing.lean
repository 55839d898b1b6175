import ScriptBench.Proofs.Bytecode.Push
import ScriptBench.Proofs.Machine.Run
import ScriptBench.Proofs.Opcode.Table

/-! What a run is listed as.

The machine records a call when it is made, whether or not its branch is run, and
bytecode is listed without knowing the calls. The two agree but for the words of
the opcodes that announce a length: executed, they are refused, but in a branch that
is not run they are recorded, and what is recorded after them is then read as a length
and data. -/
namespace ScriptBench

/-- The words of the opcodes that announce a length. -/
def pushDataWords : List String := ["OP_PUSHDATA1", "OP_PUSHDATA2", "OP_PUSHDATA4"]

def Call.namesPushData : Call → Bool
  | .push _ => false
  | .word w => pushDataWords.contains w

/-- The word that the push of `data` is to be listed as. -/
def Bytecode.pushWord : Bytes → String
  | [] => "OP_0"
  | [b] =>
    if 1 ≤ b.toNat ∧ b.toNat ≤ 16 then "OP_" ++ toString b.toNat
    else if b = 0x81 then "OP_1NEGATE"
    else "<0x" ++ Bytes.hex [b] ++ ">"
  | data => "<0x" ++ data.hex ++ ">"

/-- The word that a call is to be listed as; a call without a meaning has none. -/
def Call.listed? (r : RuleSet) : Call → Option String
  | .push l => l.element.toOption.map fun e => Bytecode.pushWord e.bytes
  | .word w => (r.opcode? w).map (·.word)

/-- The bytes that a call is recorded as. -/
def Call.recorded (r : RuleSet) : Call → Bytes
  | .push l => (l.element.toOption.map fun e => Bytecode.push e.bytes).getD []
  | .word w => ((r.opcode? w).map fun o => [o.byte]).getD []

section
variable {r : RuleSet} {l : Literal} {e : Element} {w : String} {o : Opcode}

theorem Call.listed?_push (h : l.element = .ok e) :
    listed? r (.push l) = some (Bytecode.pushWord e.bytes) := by
  rw [listed?, h]
  rfl

theorem Call.listed?_word (h : r.opcode? w = some o) : listed? r (.word w) = some o.word := by
  rw [listed?, h]
  rfl

theorem Call.recorded_push (h : l.element = .ok e) :
    recorded r (.push l) = Bytecode.push e.bytes := by
  rw [recorded, h]
  rfl

theorem Call.recorded_word (h : r.opcode? w = some o) : recorded r (.word w) = [o.byte] := by
  rw [recorded, h]
  rfl

end

/-! ### The opcodes that push a constant -/

theorem Number.encode_small {k : Nat} (hpos : 1 ≤ k) (hlt : k < 128) :
    encode k = [UInt8.ofNat k] := by
  have hbyte : (UInt8.ofNat k).toNat = k := UInt8.toNat_ofNat_of_lt' (Nat.lt_trans hlt (by decide))
  have hmagnitude : magnitude k = [UInt8.ofNat k] := by
    rw [magnitude, if_neg (by omega), Nat.div_eq_of_lt (by omega), magnitude, if_pos rfl]
  rw [encode, Int.natAbs_natCast, hmagnitude, sign, hbyte, if_pos hlt,
    decide_eq_false (by omega)]
  rfl

/-- An opcode that every rule set knows, and that pushes `n`. -/
structure Opcode.Constant (o : Opcode) (byte : UInt8) (n : Int) (word : String) : Prop where
  mem : o ∈ opcodes
  byte : o.byte = byte
  scope : o.scope = .everywhere
  operation : o.operation = .constant n
  word : o.word = word

theorem Opcode.Constant.of_table {byte : UInt8} {n : Int} {word : String}
    (h : ∃ o ∈ opcodes, o.byte = byte ∧ o.scope = .everywhere ∧ o.operation = .constant n ∧
      o.word = word) : ∃ o, Opcode.Constant o byte n word := by
  obtain ⟨o, hmem, hbyte, hscope, hop, hword⟩ := h
  exact ⟨o, hmem, hbyte, hscope, hop, hword⟩

theorem Opcode.exists_constant_zero : ∃ o, Opcode.Constant o 0 0 "OP_0" :=
  Opcode.Constant.of_table (by decide +kernel)

theorem Opcode.exists_constant_negative : ∃ o, Opcode.Constant o 0x4f (-1) "OP_1NEGATE" :=
  Opcode.Constant.of_table (by decide +kernel)

theorem Opcode.exists_constant_positive {b : UInt8} (hb : 1 ≤ b.toNat ∧ b.toNat ≤ 16) :
    ∃ o, Opcode.Constant o (0x50 + b) b.toNat ("OP_" ++ toString b.toNat) := by
  have h : ∀ k < 16, ∃ o ∈ opcodes, o.byte = 0x50 + UInt8.ofNat (k + 1) ∧
      o.scope = .everywhere ∧ o.operation = .constant (k + 1 : Nat) ∧
      o.word = "OP_" ++ toString (k + 1) := by decide +kernel
  have hk : b.toNat - 1 + 1 = b.toNat := by omega
  have hrow := h (b.toNat - 1) (by omega)
  rw [hk, UInt8.ofNat_toNat] at hrow
  exact Opcode.Constant.of_table hrow

open Bytecode in
/-- A byte that pushes data on its own is the opcode of the number with these bytes, and
its word is the one that the push is to be listed as. -/
theorem Opcode.exists_constant {d : Bytes} {op : UInt8} (h : pushByte? d = some op) :
    ∃ n o, Opcode.Constant o op n (pushWord d) ∧ Number.encode n = d := by
  unfold pushByte? at h
  split at h
  · cases h
    obtain ⟨o, ho⟩ := Opcode.exists_constant_zero
    refine ⟨0, o, ho, ?_⟩
    simp [Number.encode, Number.magnitude, Number.sign]
  · split at h
    · rename_i b hb
      cases h
      obtain ⟨o, ho⟩ := Opcode.exists_constant_positive hb
      refine ⟨b.toNat, o, ?_, ?_⟩
      · rwa [pushWord, if_pos hb]
      · rw [Number.encode_small hb.1 (by omega), UInt8.ofNat_toNat]
    · split at h
      · subst_vars
        cases h
        obtain ⟨o, ho⟩ := Opcode.exists_constant_negative
        refine ⟨-1, o, ho, ?_⟩
        simp [Number.encode, Number.magnitude, Number.sign]
        rfl
      · cases h
  · cases h

/-! ### Items and words -/

/-- Data without a byte of their own are listed in hexadecimal. -/
theorem Bytecode.pushWord_of_none {d : Bytes} (h : pushByte? d = none) :
    pushWord d = "<0x" ++ d.hex ++ ">" := by
  unfold pushByte? at h
  unfold pushWord
  split
  · cases h
  · dsimp only at h
    split at h
    · cases h
    · rename_i hsmall
      rw [if_neg hsmall]
      split at h
      · cases h
      · rename_i hsign
        rw [if_neg hsign]
  · rfl

/-- The push of data is listed as it is to be. -/
theorem Bytecode.pushItem_word (r : RuleSet) (d : Bytes) : (pushItem d).word r = pushWord d := by
  unfold pushItem
  cases h : pushByte? d with
  | some op =>
    obtain ⟨n, o, ho, -⟩ := Opcode.exists_constant h
    show r.wordOfByte op = pushWord d
    rw [← ho.byte, RuleSet.wordOfByte_byte (RuleSet.mem_known_of_everywhere ho.mem ho.scope), ho.word]
  | none => exact (pushWord_of_none h).symm

/-- No opcode of the table is a length, and those that announce one have these words. -/
theorem opcodes_bytes {o : Opcode} (ho : o ∈ opcodes) :
    ¬ (1 ≤ o.byte.toNat ∧ o.byte.toNat ≤ 75) ∧
      ∀ w ∈ o.words, (Bytecode.lengthWidth? o.byte = none ↔ w ∉ pushDataWords) := by
  have h : ∀ o ∈ opcodes, ¬ (1 ≤ o.byte.toNat ∧ o.byte.toNat ≤ 75) ∧
      ∀ w ∈ o.words, (Bytecode.lengthWidth? o.byte = none ↔ w ∉ pushDataWords) := by
    decide +kernel
  exact h o ho

/-! ### What a run records -/

namespace Machine
variable {m : Machine}

theorem call_bytecode {c : Call} (h : (m.call c).error = none) :
    (m.call c).bytecode = m.bytecode ++ c.recorded m.rules := by
  obtain ⟨-, ⟨l, e, rfl, hl, -, hcall⟩ | ⟨w, o, s, rfl, ho, -, -, hcall⟩⟩ := call_cases h
  · rw [hcall, Call.recorded_push hl]
  · rw [hcall, Call.recorded_word ho]

theorem run_bytecode {calls : List Call} (h : (m.run calls).error = none) :
    (m.run calls).bytecode = m.bytecode ++ calls.flatMap (·.recorded m.rules) := by
  induction calls generalizing m with
  | nil => exact (List.append_nil _).symm
  | cons c rest ih =>
    have hc : (m.call c).error = none := error_of_run h
    rw [run_cons] at h ⊢
    rw [ih h, call_bytecode hc, call_rules, List.flatMap_cons, List.append_assoc]

/-- What a call records is read as one item, that of the call. -/
theorem items_recorded {c : Call} (h : (m.call c).error = none) (hc : c.namesPushData = false)
    (rest : Bytes) :
    ∃ i, Bytecode.items (c.recorded m.rules ++ rest) = i :: Bytecode.items rest ∧
      c.listed? m.rules = some (i.word m.rules) := by
  obtain ⟨-, ⟨l, e, rfl, hl, hsize, -⟩ | ⟨w, o, s, rfl, ho, -, -, -⟩⟩ := call_cases h
  · have hlen : e.bytes.length < Bytecode.lengthCount := Nat.lt_of_le_of_lt hsize (by decide)
    refine ⟨Bytecode.pushItem e.bytes, ?_, ?_⟩
    · rw [Call.recorded_push hl]
      exact Bytecode.items_push hlen rest
    · rw [Call.listed?_push hl, Bytecode.pushItem_word]
  · obtain ⟨hknown, hw⟩ := RuleSet.mem_of_opcode? ho
    obtain ⟨hshort, hlong⟩ := opcodes_bytes (RuleSet.mem_opcodes hknown)
    have hword : w ∉ pushDataWords := by simpa [Call.namesPushData] using hc
    refine ⟨.op o.byte, ?_, ?_⟩
    · rw [Call.recorded_word ho]
      exact Bytecode.items_op hshort ((hlong w hw).mpr hword) rest
    · rw [Call.listed?_word ho]
      exact congrArg some (RuleSet.wordOfByte_byte hknown).symm

/-- Calls that do not announce lengths are listed one by one. -/
theorem disassemble_recorded {calls : List Call} (h : (m.run calls).error = none)
    (hcalls : ∀ c ∈ calls, c.namesPushData = false) :
    (Bytecode.disassemble m.rules (calls.flatMap (·.recorded m.rules))).map some =
      calls.map (·.listed? m.rules) := by
  induction calls generalizing m with
  | nil =>
    rw [List.flatMap_nil, Bytecode.disassemble, Bytecode.items]
    rfl
  | cons c rest ih =>
    have hc : (m.call c).error = none := error_of_run h
    have hrest := ih (m := m.call c) h fun c' hc' => hcalls c' (List.mem_cons_of_mem _ hc')
    rw [call_rules] at hrest
    obtain ⟨i, hitems, hword⟩ := items_recorded hc (hcalls c (List.mem_cons_self ..))
      (rest.flatMap (·.recorded m.rules))
    rw [List.flatMap_cons, Bytecode.disassemble, hitems, List.map_cons, List.map_cons,
      List.map_cons, hword]
    exact congrArg _ hrest

end Machine

/-! ### Words that never are listed -/

namespace Bytecode

theorem lengthWidth?_of_item_op {op b : UInt8} {rest : Bytes} (h : (item op rest).1 = .op b) :
    lengthWidth? b = none := by
  unfold item at h
  split at h
  · split at h <;> cases h
  · split at h
    · cases h
      assumption
    · split at h
      · cases h
      · split at h <;> cases h

theorem lengthWidth?_of_mem_items {code : Bytes} {b : UInt8} (h : .op b ∈ items code) :
    lengthWidth? b = none := by
  induction code using items.induct with
  | case1 =>
    rw [items] at h
    cases h
  | case2 op rest ih =>
    rw [items_cons, List.mem_cons] at h
    rcases h with h | h
    · exact lengthWidth?_of_item_op h.symm
    · exact ih h

/-- The words of the opcodes that announce a length are never listed. -/
theorem not_mem_disassemble {w : String} (hw : w ∈ pushDataWords) (r : RuleSet) (code : Bytes) :
    w ∉ disassemble r code := by
  have hhead : ∀ w ∈ pushDataWords, w.toList.head? = some 'O' := by decide +kernel
  have hO := hhead w hw
  intro hmem
  obtain ⟨i, hi, rfl⟩ := List.mem_map.mp hmem
  cases i with
  | op b =>
    have hb := lengthWidth?_of_mem_items hi
    simp only [Item.word, RuleSet.wordOfByte] at hw hO
    cases ho : r.opcodeOfByte? b with
    | some o =>
      rw [ho] at hw
      obtain ⟨hknown, rfl⟩ := RuleSet.mem_of_opcodeOfByte? ho
      have hwords := (opcodes_bytes (RuleSet.mem_opcodes hknown)).2 o.word (List.mem_cons_self ..)
      exact hwords.mp hb hw
    | none =>
      rw [ho] at hO
      simp [Bytes.hexByte] at hO
  | data d => simp [Item.word] at hO
  | truncated => simp [Item.word] at hO

end Bytecode

/-- Only what is cut short is listed as an error. -/
theorem Bytecode.Item.eq_truncated_of_word {r : RuleSet} {i : Item} (h : i.word r = "[error]") :
    i = .truncated := by
  have hbracket : (i.word r).toList.head? = some '[' := by rw [h]; decide +kernel
  cases i with
  | op b =>
    simp only [word, RuleSet.wordOfByte] at hbracket
    cases ho : r.opcodeOfByte? b with
    | some o =>
      have hmem := RuleSet.mem_opcodes (RuleSet.mem_of_opcodeOfByte? ho).1
      rw [ho, Opcode.toList_word hmem] at hbracket
      cases hbracket
    | none =>
      rw [ho] at hbracket
      simp [Bytes.hexByte] at hbracket
  | data d => simp [word] at hbracket
  | truncated => rfl

theorem Call.listed?_ne_error {r : RuleSet} {c : Call} : c.listed? r ≠ some "[error]" := by
  intro h
  cases c with
  | push l =>
    obtain ⟨e, -, he⟩ := Option.map_eq_some_iff.mp h
    have hitem : Bytecode.pushItem e.bytes = .truncated :=
      Bytecode.Item.eq_truncated_of_word ((Bytecode.pushItem_word r e.bytes).trans he)
    unfold Bytecode.pushItem at hitem
    split at hitem <;> cases hitem
  | word w =>
    obtain ⟨o, ho, hword⟩ := Option.map_eq_some_iff.mp h
    have hbyte : (Bytecode.Item.op o.byte).word r = o.word :=
      RuleSet.wordOfByte_byte (RuleSet.mem_of_opcode? ho).1
    cases Bytecode.Item.eq_truncated_of_word (hbyte.trans hword)

/-! ### The listing of a run -/

namespace Machine

/-- The words that a machine's bytecode reads as. -/
def listing (m : Machine) : List String := Bytecode.disassemble m.rules m.bytecode

/-- A new machine, given a transaction or none. -/
def started (r : RuleSet) (t : Option Template) : Machine := (new r).withTemplate t

@[simp] theorem started_rules (r : RuleSet) (t : Option Template) : (started r t).rules = r := by
  cases t <;> rfl

@[simp] theorem started_bytecode (r : RuleSet) (t : Option Template) :
    (started r t).bytecode = [] := by
  cases t <;> rfl

theorem started_error (r : RuleSet) (t : Option Template) : (started r t).error = none := by
  cases t <;> rfl

theorem started_executing (r : RuleSet) (t : Option Template) :
    (started r t).executing = true := by
  cases t <;> rfl

variable {r : RuleSet} {t : Option Template} {calls : List Call}

theorem listing_run (h : ((started r t).run calls).error = none) :
    ((started r t).run calls).listing =
      Bytecode.disassemble r (calls.flatMap (·.recorded r)) := by
  rw [listing, run_rules, run_bytecode h, started_bytecode, started_rules, List.nil_append]

theorem map_listing_run (h : ((started r t).run calls).error = none)
    (hcalls : ∀ c ∈ calls, c.namesPushData = false) :
    ((started r t).run calls).listing.map some = calls.map (·.listed? r) := by
  have hlisted := disassemble_recorded h hcalls
  rwa [started_rules, ← listing_run h] at hlisted

/-- A word that announces a length has an opcode with one of these words. -/
theorem listed?_of_namesPushData {m : Machine} {c : Call} (h : (m.call c).error = none)
    (hc : c.namesPushData = true) : ∃ w ∈ pushDataWords, c.listed? m.rules = some w := by
  obtain ⟨-, ⟨l, e, rfl, -⟩ | ⟨w, o, s, rfl, ho, -⟩⟩ := call_cases h
  · cases hc
  · have hw : w ∈ pushDataWords := List.contains_iff_mem.mp hc
    obtain ⟨hknown, hmem⟩ := RuleSet.mem_of_opcode? ho
    obtain ⟨-, hlong⟩ := opcodes_bytes (RuleSet.mem_opcodes hknown)
    refine ⟨o.word, ?_, Call.listed?_word ho⟩
    by_contra hnot
    exact ((hlong w hmem).mp ((hlong o.word (List.mem_cons_self ..)).mpr hnot)) hw

/-- A call of a run without an error is made without one on some machine. -/
theorem exists_call_of_mem {m : Machine} {c : Call} (h : (m.run calls).error = none)
    (hc : c ∈ calls) : ∃ m' : Machine, m'.rules = m.rules ∧ (m'.call c).error = none := by
  obtain ⟨a, b, rfl⟩ := List.append_of_mem hc
  rw [run_append, run_cons] at h
  exact ⟨m.run a, run_rules m a, error_of_run h⟩

/-- **The listing of a run without an error says what was run, a word a call, exactly when
no call names an opcode that announces a length.** Then nothing is listed as an error. -/
theorem listing_run_iff (h : ((started r t).run calls).error = none) :
    (((started r t).run calls).listing.map some = calls.map (·.listed? r) ↔
      ∀ c ∈ calls, c.namesPushData = false) ∧
    ((∀ c ∈ calls, c.namesPushData = false) →
      "[error]" ∉ ((started r t).run calls).listing) := by
  refine ⟨⟨fun hlisting c hc => ?_, map_listing_run h⟩, fun hcalls hmem => ?_⟩
  -- The word of a call that announces a length would be listed, and no bytecode reads so.
  · rw [← Bool.not_eq_true]
    intro hnames
    obtain ⟨m, hrules, hcall⟩ := exists_call_of_mem h hc
    obtain ⟨w, hw, hlisted⟩ := listed?_of_namesPushData hcall hnames
    rw [hrules, started_rules] at hlisted
    have hmem : some w ∈ calls.map (·.listed? r) := hlisted ▸ List.mem_map_of_mem hc
    rw [← hlisting, List.mem_map_of_injective (fun _ _ => Option.some.inj), listing_run h] at hmem
    exact Bytecode.not_mem_disassemble hw _ _ hmem
  · have hlisted : some "[error]" ∈ calls.map (·.listed? r) :=
      map_listing_run h hcalls ▸ List.mem_map_of_mem hmem
    obtain ⟨c, -, hc⟩ := List.mem_map.mp hlisted
    exact Call.listed?_ne_error hc

/-- A literal of one byte, of two bytes, and the other word of `OP_1`. -/
theorem listing_run_iff_literals :
    ((started .standard none).run
      [.push (.hex ['1', '0']), .push (.text ['h', 'i']), .word "OP_TRUE"]).listing.map some =
        [some "OP_16", some "<0x6869>", some "OP_1"] :=
  (((listing_run_iff (by decide +kernel)).1).mpr (by decide +kernel)).trans (by decide +kernel)

/-- A block with the word of a length alone in its branch, which is not run. -/
def skippedPushData : List Call :=
  [.push (.hex []), .word "OP_IF", .word "OP_PUSHDATA1", .word "OP_ENDIF"]

/-- The word of the length is read as announcing one, and what follows as data. -/
theorem listing_run_skippedPushData :
    ((started .standard none).run skippedPushData).error = none ∧
    ((started .standard none).run skippedPushData).listing = ["OP_0", "OP_IF", "[error]"] ∧
    skippedPushData.map (·.listed? .standard) =
      ["OP_0", "OP_IF", "OP_PUSHDATA1", "OP_ENDIF"].map some ∧
    ((started .standard none).run skippedPushData).listing.map some ≠
      skippedPushData.map (·.listed? .standard) := by
  refine ⟨?_, ?_, ?_, ?_⟩ <;> decide +kernel

end Machine

end ScriptBench
