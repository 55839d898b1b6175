import ScriptBench.Proofs.Bytecode.Listing

/-! Programs written part by part and read back.

A program is a sequence of parts, each the push of some data or an opcode. Its
bytecode puts the parts one after another without anything between them, so reading
it back depends on every length being right. `disassemble_parts` says that the
listing has one word a part, and that no other form of a push is shorter than the
one that is written. -/
namespace ScriptBench.Bytecode

inductive Part where
  | data (d : Bytes)
  | op (byte : UInt8)
deriving DecidableEq, Repr

namespace Part

/-- Data whose length can be written, or a byte that neither is nor announces a length. -/
def Valid : Part → Prop
  | data d => d.length < lengthCount
  | op b => ¬ (0x01 ≤ b.toNat ∧ b.toNat ≤ 0x4e)

instance : DecidablePred Valid
  | data d => inferInstanceAs (Decidable (d.length < lengthCount))
  | op b => inferInstanceAs (Decidable (¬ (0x01 ≤ b.toNat ∧ b.toNat ≤ 0x4e)))

def code : Part → Bytes
  | data d => push d
  | op b => [b]

/-- The word that a part is to be listed as. -/
def word (r : RuleSet) : Part → String
  | data d => pushWord d
  | op b => r.wordOfByte b

/-- The item that a part is read as. -/
def item : Part → Item
  | data d => pushItem d
  | op b => .op b

theorem item_word (r : RuleSet) (p : Part) : p.item.word r = p.word r := by
  cases p with
  | data d => exact pushItem_word r d
  | op b => rfl

theorem item_ne_truncated (p : Part) : p.item ≠ .truncated := by
  cases p with
  | data d =>
    show pushItem d ≠ .truncated
    unfold pushItem
    split <;> simp
  | op b => simp [item]

/-- A part in front of other bytecode is read as one item. -/
theorem items_code {p : Part} (hp : p.Valid) (rest : Bytes) :
    items (p.code ++ rest) = p.item :: items rest := by
  cases p with
  | data d => exact items_push hp rest
  | op b =>
    have hrange : ¬ (0x01 ≤ b.toNat ∧ b.toNat ≤ 0x4e) := hp
    exact items_op (by omega) (lengthWidth?_eq_none (by omega)) rest

end Part

/-- A program is read as its parts, whatever their lengths. -/
theorem items_parts {parts : List Part} (h : ∀ p ∈ parts, p.Valid) :
    items (parts.flatMap Part.code) = parts.map Part.item := by
  induction parts with
  | nil => rw [List.flatMap_nil, items, List.map_nil]
  | cons p rest ih =>
    have hrest := ih fun q hq => h q (List.mem_cons_of_mem p hq)
    rw [List.flatMap_cons, Part.items_code (h p (List.mem_cons_self ..)), hrest, List.map_cons]

theorem disassemble_flatMap_code (r : RuleSet) {parts : List Part} (h : ∀ p ∈ parts, p.Valid) :
    disassemble r (parts.flatMap Part.code) = parts.map (Part.word r) := by
  rw [disassemble, items_parts h, List.map_map]
  exact List.map_congr_left fun p _ => p.item_word r

theorem error_not_mem_words (r : RuleSet) (parts : List Part) :
    "[error]" ∉ parts.map (Part.word r) := by
  intro hmem
  obtain ⟨p, -, hword⟩ := List.mem_map.mp hmem
  exact p.item_ne_truncated (Item.eq_truncated_of_word ((p.item_word r).trans hword))

/-! ### The forms of a push -/

/-- The forms that a push of data may take, as code and data: the opcode of a constant
with these bytes, a byte with the length, or the length in bytes of its own after an
opcode that announces it. -/
inductive PushForm : Bytes → Bytes → Prop where
  | constant {o : Opcode} {n : Int} (mem : o ∈ opcodes) (operation : o.operation = .constant n) :
    PushForm [o.byte] (Number.encode n)
  | direct {d : Bytes} (pos : 1 ≤ d.length) (le : d.length ≤ 75) :
    PushForm (UInt8.ofNat d.length :: d) d
  | announced {op : UInt8} {width : Nat} {d : Bytes} (announces : lengthWidth? op = some width)
    (lt : d.length < 1 <<< (8 * width)) : PushForm (op :: littleEndian width d.length ++ d) d

theorem width_of_lengthWidth? {op : UInt8} {width : Nat} (h : lengthWidth? op = some width) :
    width = 1 ∨ width = 2 ∨ width = 4 := by
  unfold lengthWidth? at h
  split_ifs at h <;> simp_all

/-- The bytes of a constant have a byte that pushes them on its own, the constant's. -/
theorem pushByte?_constant {o : Opcode} {n : Int} (mem : o ∈ opcodes)
    (operation : o.operation = .constant n) : pushByte? (Number.encode n) = some o.byte := by
  have htable : ∀ o ∈ opcodes, ∀ n ∈ (match o.operation with | .constant n => [n] | _ => []),
      pushByte? (Number.encode n) = some o.byte := by decide +kernel
  exact htable o mem n (by rw [operation]; exact List.mem_singleton_self n)

theorem length_push_of_byte {d : Bytes} {op : UInt8} (h : pushByte? d = some op) :
    (push d).length = 1 := by
  rw [push, h]
  rfl

theorem length_pushHeader (n : Nat) : (pushHeader n).length =
    if n ≤ 75 then 1 else if n ≤ 0xff then 2 else if n ≤ 0xffff then 3 else 5 := by
  unfold pushHeader
  split_ifs <;> simp

theorem length_push_le (d : Bytes) : (push d).length ≤ (pushHeader d.length).length + d.length := by
  cases h : pushByte? d with
  | some op =>
    rw [length_push_of_byte h, length_pushHeader]
    split_ifs <;> omega
  | none =>
    rw [push, h]
    exact Nat.le_of_eq (List.length_append ..)

/-- A push is written in one of its forms. -/
theorem pushForm_push {d : Bytes} (hd : d.length < lengthCount) : PushForm (push d) d := by
  unfold push
  cases h : pushByte? d with
  | some op =>
    obtain ⟨n, o, ho, rfl⟩ := Opcode.exists_constant h
    rw [← ho.byte]
    exact .constant ho.mem ho.operation
  | none =>
    have hpos : 1 ≤ d.length := by
      cases d with
      | nil => cases h
      | cons b d => exact Nat.succ_pos _
    dsimp only
    unfold pushHeader
    split_ifs with h75 hff hffff
    · exact .direct hpos h75
    · exact .announced rfl (Nat.lt_succ_of_le hff)
    · exact .announced rfl (Nat.lt_succ_of_le hffff)
    · exact .announced rfl hd

/-- No form is shorter than the one that is written. -/
theorem PushForm.length_push_le {code d : Bytes} (h : PushForm code d) :
    (push d).length ≤ code.length := by
  cases h with
  | constant mem operation => exact Nat.le_of_eq (length_push_of_byte (pushByte?_constant mem operation))
  | direct pos le =>
    have hpush := Bytecode.length_push_le d
    rw [length_pushHeader, if_pos le] at hpush
    rw [List.length_cons]
    omega
  | announced announces lt =>
    have hpush := Bytecode.length_push_le d
    rw [length_pushHeader] at hpush
    rw [List.length_append, List.length_cons, length_littleEndian]
    -- A width that is smaller than the written one has no room for the length.
    obtain rfl | rfl | rfl := width_of_lengthWidth? announces
    · have hlt : d.length < 0x100 := lt
      split_ifs at hpush <;> omega
    · have hlt : d.length < 0x10000 := lt
      split_ifs at hpush <;> omega
    · split_ifs at hpush <;> omega

/-- **Reading a program back gives its parts.** The listing of a program has exactly a word
a part, in order, and none of them is an error; and data are written in a form of a push
that is as short as any. -/
theorem disassemble_parts (r : RuleSet) (parts : List Part) (h : ∀ p ∈ parts, p.Valid) :
    disassemble r (parts.flatMap Part.code) = parts.map (Part.word r) ∧
    "[error]" ∉ disassemble r (parts.flatMap Part.code) ∧
    ∀ d, .data d ∈ parts →
      PushForm (push d) d ∧ ∀ code, PushForm code d → (push d).length ≤ code.length := by
  have hlisting := disassemble_flatMap_code r h
  refine ⟨hlisting, ?_, fun d hd => ⟨pushForm_push (h _ hd), fun _ => PushForm.length_push_le⟩⟩
  rw [hlisting]
  exact error_not_mem_words r parts

/-- The empty push, the two ways to push a byte, data on both sides of the longest direct
push, and a byte that no opcode has. -/
def mixedParts : List Part :=
  [.data [], .data [0x81], .data [0x11], .data (List.replicate 75 0), .op 0xff,
    .data (List.replicate 76 0), .op 0x87]

theorem disassemble_mixedParts :
    (∀ p ∈ mixedParts, p.Valid) ∧
    disassemble .standard (mixedParts.flatMap Part.code) =
      ["OP_0", "OP_1NEGATE", "<0x11>", "<0x" ++ Bytes.hex (List.replicate 75 0) ++ ">", "0xff",
        "<0x" ++ Bytes.hex (List.replicate 76 0) ++ ">", "OP_EQUAL"] ∧
    ∀ code, PushForm code (List.replicate 76 0) → 78 ≤ code.length := by
  have hvalid : ∀ p ∈ mixedParts, p.Valid := by decide +kernel
  obtain ⟨hlisting, -, hshortest⟩ := disassemble_parts .standard mixedParts hvalid
  refine ⟨hvalid, hlisting.trans (by decide +kernel), fun code hcode => ?_⟩
  exact (hshortest _ (by decide +kernel)).2 code hcode

end ScriptBench.Bytecode
