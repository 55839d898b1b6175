import ScriptBench.Bytes

/-! What the two digests share: messages padded to whole blocks of sixty-four
bytes, and lists cut into groups. -/
namespace ScriptBench.Digest

/-- The `count` groups of `size` elements at the front of a list. -/
def groups {α : Type} (size : Nat) : (count : Nat) → List α → List (List α)
  | 0, _ => []
  | count + 1, l => l.take size :: groups size count (l.drop size)

/-- A message followed by a one bit, zeros up to eight bytes before a block's
end, and the eight bytes `length`. -/
def padded (m length : Bytes) : Bytes :=
  m ++ 0x80 :: List.replicate ((119 - m.length % 64) % 64) 0 ++ length

/-- The blocks of a padded message. -/
def blocks (m length : Bytes) : List Bytes :=
  groups 64 ((padded m length).length / 64) (padded m length)

/-- The sixteen groups of four bytes of a block. -/
def quads (block : Bytes) : List Bytes := groups 4 16 block

end ScriptBench.Digest
