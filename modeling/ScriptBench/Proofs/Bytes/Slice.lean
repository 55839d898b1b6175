import ScriptBench.Bytes

/-! Slices of byte strings, with their indices checked. -/
namespace ScriptBench.Bytes

variable {bytes : Bytes} {i j : Nat}

/-- The bytes between two indices, which are in order and not beyond the end. -/
def slice? (bytes : Bytes) (i j : Nat) : Option Bytes :=
  if i ≤ j ∧ j ≤ bytes.length then some ((bytes.take j).drop i) else none

/-- A slice by its start and its size. -/
theorem slice?_add {size : Nat} (h : i + size ≤ bytes.length) :
    slice? bytes i (i + size) = some ((bytes.drop i).take size) := by
  rw [slice?, if_pos ⟨Nat.le_add_right i size, h⟩, List.drop_take, Nat.add_sub_cancel_left]

/-- A slice up to the end. -/
theorem slice?_length (h : i ≤ bytes.length) :
    slice? bytes i bytes.length = some (bytes.drop i) := by
  rw [slice?, if_pos ⟨h, Nat.le_refl _⟩, List.take_length]

end ScriptBench.Bytes
