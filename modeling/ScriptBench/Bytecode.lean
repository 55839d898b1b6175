import ScriptBench.Opcode

/-! Bytecode: how data is pushed, and how a program reads as words.

A push takes the shortest of the forms for its data: a byte of its own for the
empty string, for one byte in 1 to 16 and for the byte 0x81, otherwise the length
in one byte, or after `OP_PUSHDATA1`, `OP_PUSHDATA2` or `OP_PUSHDATA4`. -/
namespace ScriptBench.Bytecode

/-- The length of a push as it stands before the data. -/
def pushHeader (n : Nat) : Bytes :=
  if n ≤ 75 then [UInt8.ofNat n]
  else if n ≤ 0xff then 0x4c :: littleEndian 1 n
  else if n ≤ 0xffff then 0x4d :: littleEndian 2 n
  else 0x4e :: littleEndian 4 n

/-- The byte that pushes `data` on its own, when there is one. -/
def pushByte? : Bytes → Option UInt8
  | [] => some 0
  | [b] =>
    if 1 ≤ b.toNat ∧ b.toNat ≤ 16 then some (0x50 + b)
    else if b = 0x81 then some 0x4f
    else none
  | _ => none

/-- The shortest push of `data`. -/
def push (data : Bytes) : Bytes :=
  match pushByte? data with
  | some op => [op]
  | none => pushHeader data.length ++ data

/-- How many bytes of length follow a byte of bytecode, for the bytes that push
what comes after them; the lengths up to 75 are bytes of their own. -/
def lengthWidth? (op : UInt8) : Option Nat :=
  if op = 0x4c then some 1 else if op = 0x4d then some 2 else if op = 0x4e then some 4 else none

/-- The data of a push, and what follows it. -/
def splitData? (size : Nat) (code : Bytes) : Option (Bytes × Bytes) :=
  if size ≤ code.length then some (code.take size, code.drop size) else none

/-- One item of bytecode. -/
inductive Item where
  | op (byte : UInt8)
  | data (bytes : Bytes)
  | truncated
deriving DecidableEq, Repr

/-- The first item of bytecode that begins with `op`, and what follows it; nothing
follows a push whose data is cut short. -/
def item (op : UInt8) (rest : Bytes) : Item × Bytes :=
  if 1 ≤ op.toNat ∧ op.toNat ≤ 75 then
    match splitData? op.toNat rest with
    | some (d, tail) => (.data d, tail)
    | none => (.truncated, [])
  else match lengthWidth? op with
    | none => (.op op, rest)
    | some width =>
      match splitData? width rest with
      | none => (.truncated, [])
      | some (size, body) =>
        match splitData? size.toNat body with
        | some (d, tail) => (.data d, tail)
        | none => (.truncated, [])

theorem splitData?_length {size : Nat} {code d tail : Bytes}
    (h : splitData? size code = some (d, tail)) : tail.length ≤ code.length := by
  unfold splitData? at h
  split at h
  · obtain ⟨rfl, rfl⟩ := Prod.mk.inj (Option.some.inj h)
    simp
  · cases h

theorem item_length (op : UInt8) (rest : Bytes) : (item op rest).2.length ≤ rest.length := by
  unfold item
  split
  · split
    · rename_i h
      exact splitData?_length h
    · simp
  · split
    · simp
    · split
      · simp
      · rename_i hw
        split
        · rename_i h
          exact Nat.le_trans (splitData?_length h) (splitData?_length hw)
        · simp

/-- The items of bytecode in order. -/
def items : Bytes → List Item
  | [] => []
  | op :: rest => (item op rest).1 :: items (item op rest).2
termination_by code => code.length
decreasing_by
  have := item_length op rest
  simp only [List.length_cons]
  omega

/-- An item as a word of the listing. -/
def Item.word (r : RuleSet) : Item → String
  | op b => r.wordOfByte b
  | data d => "<0x" ++ d.hex ++ ">"
  | truncated => "[error]"

/-- The listing of bytecode: a word an item. -/
def disassemble (r : RuleSet) (code : Bytes) : List String :=
  (items code).map (Item.word r)

end ScriptBench.Bytecode
