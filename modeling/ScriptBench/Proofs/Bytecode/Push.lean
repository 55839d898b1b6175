import ScriptBench.Bytecode

/-! Reading pushes back.

Bytecode is read from the front, and what a byte pushes is known from the byte and
what follows it. So an encoding that stands in front of other bytecode is read as
one item, whatever comes after it, and the rest is read as if it stood alone. -/
namespace ScriptBench.Bytecode

theorem items_cons (op : UInt8) (rest : Bytes) :
    items (op :: rest) = (item op rest).1 :: items (item op rest).2 := by
  rw [items]

/-! ### Data in front of other bytecode -/

theorem splitData?_append (d rest : Bytes) : splitData? d.length (d ++ rest) = some (d, rest) := by
  rw [splitData?, if_pos (by simp), List.take_left, List.drop_left]

theorem splitData?_littleEndian (width n : Nat) (rest : Bytes) :
    splitData? width (littleEndian width n ++ rest) = some (littleEndian width n, rest) := by
  have h := splitData?_append (littleEndian width n) rest
  rwa [length_littleEndian] at h

/-- A length byte with its data. -/
theorem item_short {d : Bytes} (hpos : 1 ≤ d.length) (hlen : d.length ≤ 75) (rest : Bytes) :
    item (UInt8.ofNat d.length) (d ++ rest) = (.data d, rest) := by
  have hbyte : (UInt8.ofNat d.length).toNat = d.length :=
    UInt8.toNat_ofNat_of_lt' (Nat.lt_of_le_of_lt hlen (by decide))
  rw [item, hbyte, if_pos ⟨hpos, hlen⟩, splitData?_append]

/-- The bytes that announce a length are not lengths themselves. -/
theorem not_short_of_lengthWidth? {op : UInt8} {width : Nat} (h : lengthWidth? op = some width) :
    ¬ (1 ≤ op.toNat ∧ op.toNat ≤ 75) := by
  unfold lengthWidth? at h
  split at h
  · subst_vars; decide
  · split at h
    · subst_vars; decide
    · split at h
      · subst_vars; decide
      · cases h

/-- A length in bytes of its own, with its data. -/
theorem item_long {op : UInt8} {width : Nat} (hop : lengthWidth? op = some width) {d : Bytes}
    (hlen : d.length < 1 <<< (8 * width)) (rest : Bytes) :
    item op (littleEndian width d.length ++ (d ++ rest)) = (.data d, rest) := by
  rw [item, if_neg (not_short_of_lengthWidth? hop), hop]
  simp only [splitData?_littleEndian, toNat_littleEndian, Nat.mod_eq_of_lt hlen,
    splitData?_append]

/-! ### Items in front of other bytecode -/

/-- How many lengths four bytes can hold; longer data cannot be pushed. -/
def lengthCount : Nat := 0x100000000

/-- A byte that pushes nothing after it is an item of its own. -/
theorem items_op {op : UInt8} (hshort : ¬ (1 ≤ op.toNat ∧ op.toNat ≤ 75))
    (hlong : lengthWidth? op = none) (rest : Bytes) : items (op :: rest) = .op op :: items rest := by
  have h : item op rest = (.op op, rest) := by rw [item, if_neg hshort, hlong]
  rw [items_cons, h]

theorem items_header {d : Bytes} (hpos : 1 ≤ d.length) (hlen : d.length < lengthCount) (rest : Bytes) :
    items (pushHeader d.length ++ d ++ rest) = .data d :: items rest := by
  rw [List.append_assoc]
  unfold pushHeader
  -- A length byte, or a length in one, two or four bytes.
  split
  · rename_i h75
    rw [List.singleton_append, items_cons, item_short hpos h75]
  · split
    · rw [List.cons_append, items_cons, item_long rfl (Nat.lt_succ_of_le ‹_›)]
    · split
      · rw [List.cons_append, items_cons, item_long rfl (Nat.lt_succ_of_le ‹_›)]
      · rw [List.cons_append, items_cons, item_long rfl hlen]

/-- The item that a push is read as. -/
def pushItem (d : Bytes) : Item :=
  match pushByte? d with
  | some op => .op op
  | none => .data d

theorem pushByte?_op {d : Bytes} {op : UInt8} (h : pushByte? d = some op) :
    op.toNat = 0 ∨ 79 ≤ op.toNat ∧ op.toNat ≤ 96 := by
  unfold pushByte? at h
  split at h
  · cases h
    decide
  · split at h
    · rename_i b hb
      cases h
      have hsum : (0x50 + b).toNat = 80 + b.toNat := by
        rw [UInt8.toNat_add]
        exact Nat.mod_eq_of_lt (show 80 + b.toNat < 256 by omega)
      omega
    · split at h
      · cases h
        decide
      · cases h
  · cases h

theorem lengthWidth?_eq_none {op : UInt8} (h : op.toNat < 76 ∨ 78 < op.toNat) :
    lengthWidth? op = none := by
  have hne : op ≠ 0x4c ∧ op ≠ 0x4d ∧ op ≠ 0x4e := by
    refine ⟨?_, ?_, ?_⟩ <;>
    · rintro rfl
      exact absurd h (by decide)
  rw [lengthWidth?, if_neg hne.1, if_neg hne.2.1, if_neg hne.2.2]

/-- **A push reads back as its data**, or as the byte that pushes them on its own. -/
theorem items_push {d : Bytes} (hlen : d.length < lengthCount) (rest : Bytes) :
    items (push d ++ rest) = pushItem d :: items rest := by
  unfold push pushItem
  cases h : pushByte? d with
  | some op =>
    have hop := pushByte?_op h
    exact items_op (by omega) (lengthWidth?_eq_none (by omega)) rest
  | none =>
    have hpos : 1 ≤ d.length := by
      cases d with
      | nil => cases h
      | cons b d => exact Nat.succ_pos _
    exact items_header hpos hlen rest

end ScriptBench.Bytecode
