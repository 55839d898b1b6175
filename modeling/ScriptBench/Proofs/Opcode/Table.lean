import Mathlib.Data.List.Nodup
import ScriptBench.Opcode

/-! The table of opcodes as a whole.

No byte and no word stands twice in the table, so within a rule set a word finds
its opcode, a byte finds its opcode, and the canonical word of an opcode leads back
to it. The rule sets only choose which opcodes of the table they know. -/
namespace ScriptBench

/-- A word as a number: its UTF-8 bytes are the digits. -/
def wordCode (w : String) : Nat := w.toByteArray.data.toList.foldl (fun n b => 256 * n + b.toNat) 0

theorem opcodes_bytes_nodup : (opcodes.map (·.byte)).Nodup := by
  have h : (opcodes.map (·.byte.toNat)).IsChain (· < ·) := by decide +kernel
  have hp : (opcodes.map (·.byte)).Pairwise (fun a b => a.toNat < b.toNat) := by
    simpa only [List.pairwise_map] using h.pairwise
  exact hp.imp fun hlt heq => absurd (heq ▸ hlt) (Nat.lt_irrefl _)

-- The strings themselves are slow to compare in the kernel, and their codes are not.
theorem opcodes_words_nodup : (opcodes.flatMap (·.words)).Nodup := by
  have h : ((opcodes.flatMap (·.words)).map wordCode).Nodup := by decide +kernel
  exact h.of_map

theorem Opcode.eq_of_byte_eq {a b : Opcode} (ha : a ∈ opcodes) (hb : b ∈ opcodes)
    (h : a.byte = b.byte) : a = b :=
  List.inj_on_of_nodup_map opcodes_bytes_nodup ha hb h

theorem Opcode.eq_of_common_word {a b : Opcode} {w : String} (ha : a ∈ opcodes) (hb : b ∈ opcodes)
    (hwa : w ∈ a.words) (hwb : w ∈ b.words) : a = b := by
  have hdisjoint := (List.nodup_flatMap.mp opcodes_words_nodup).2
  have h := List.Pairwise.forall_of_forall_of_flip (R := fun a b => w ∈ a.words → w ∈ b.words → a = b)
    (fun _ _ _ _ => rfl) (hdisjoint.imp fun hd hx hy => absurd hy (hd hx))
    (hdisjoint.imp fun hd hy hx => absurd hy (hd hx))
  exact h ha hb hwa hwb

/-- Every word of the table starts with `OP_`. -/
theorem Opcode.toList_of_mem_words {o : Opcode} {w : String} (ho : o ∈ opcodes) (hw : w ∈ o.words) :
    w.toList = 'O' :: 'P' :: '_' :: w.toList.drop 3 := by
  have htable : ∀ o ∈ opcodes, ∀ w ∈ o.words, w.toList.take 3 = ['O', 'P', '_'] := by
    decide +kernel
  have h := List.take_append_drop 3 w.toList
  rw [htable o ho w hw] at h
  exact h.symm

theorem Opcode.toList_word {o : Opcode} (ho : o ∈ opcodes) :
    o.word.toList = 'O' :: 'P' :: '_' :: o.word.toList.drop 3 :=
  toList_of_mem_words ho (List.mem_cons_self ..)

namespace RuleSet
variable {r : RuleSet} {o : Opcode} {w : String}

theorem mem_opcodes (h : o ∈ r.known) : o ∈ opcodes := (List.mem_filter.mp h).1

/-- A listed word names an opcode that is known. -/
theorem exists_of_mem_words {p : String × UInt8} (h : p ∈ r.words) :
    ∃ o ∈ r.known, p.1 ∈ o.words := by
  obtain ⟨o, ho, hp⟩ := List.mem_flatMap.mp h
  obtain ⟨w, hw, rfl⟩ := List.mem_map.mp hp
  exact ⟨o, ho, hw⟩

theorem mem_known_of_everywhere (h : o ∈ opcodes) (hs : o.scope = .everywhere) : o ∈ r.known :=
  List.mem_filter.mpr ⟨h, by rw [hs]; rfl⟩

theorem mem_of_opcode? (h : r.opcode? w = some o) : o ∈ r.known ∧ w ∈ o.words := by
  unfold opcode? at h
  exact ⟨List.mem_of_find?_eq_some h, List.contains_iff_mem.mp (List.find?_some h :)⟩

theorem mem_of_opcodeOfByte? {b : UInt8} (h : r.opcodeOfByte? b = some o) :
    o ∈ r.known ∧ o.byte = b := by
  unfold opcodeOfByte? at h
  exact ⟨List.mem_of_find?_eq_some h, eq_of_beq (List.find?_some h :)⟩

/-- What is found is what is known, when nothing else answers to the test. -/
theorem find?_known {p : Opcode → Bool} (h : o ∈ r.known) (hp : p o = true)
    (hunique : ∀ a ∈ opcodes, p a = true → a = o) : r.known.find? p = some o := by
  cases hf : r.known.find? p with
  | none => exact absurd hp (List.find?_eq_none.mp hf o h)
  | some a =>
    rw [hunique a (mem_opcodes (List.mem_of_find?_eq_some hf)) (List.find?_some hf)]

theorem opcode?_of_mem (h : o ∈ r.known) (hw : w ∈ o.words) : r.opcode? w = some o :=
  find?_known h (List.contains_iff_mem.mpr hw) fun _ ha hwa =>
    Opcode.eq_of_common_word ha (mem_opcodes h) (List.contains_iff_mem.mp hwa) hw

/-- The canonical word leads back to its opcode. -/
theorem opcode?_word (h : o ∈ r.known) : r.opcode? o.word = some o :=
  opcode?_of_mem h (List.mem_cons_self ..)

theorem opcodeOfByte?_byte (h : o ∈ r.known) : r.opcodeOfByte? o.byte = some o :=
  find?_known h (beq_self_eq_true _) fun _ ha hb =>
    Opcode.eq_of_byte_eq ha (mem_opcodes h) (eq_of_beq hb)

theorem wordOfByte_byte (h : o ∈ r.known) : r.wordOfByte o.byte = o.word := by
  rw [wordOfByte, opcodeOfByte?_byte h]

end RuleSet

/-! ### The conditional structure in the table -/

/-- The words that open, turn and close blocks. -/
def conditionalWords : List String := ["OP_IF", "OP_NOTIF", "OP_ELSE", "OP_ENDIF"]

/-- Any other word is that of an opcode outside of the conditional structure. -/
theorem not_isConditional_of_word {r : RuleSet} {w : String} {o : Opcode}
    (h : r.opcode? w = some o) (hw : w ∉ conditionalWords) : o.operation.isConditional = false := by
  obtain ⟨hknown, hword⟩ := RuleSet.mem_of_opcode? h
  have htable : ∀ o ∈ opcodes, o.operation.isConditional = true →
      o.aliases = [] ∧ o.word ∈ conditionalWords := by decide +kernel
  cases hc : o.operation.isConditional
  · rfl
  · obtain ⟨haliases, hmem⟩ := htable o (RuleSet.mem_opcodes hknown) hc
    rw [Opcode.words, haliases, List.mem_singleton] at hword
    exact absurd (hword ▸ hmem) hw

end ScriptBench
