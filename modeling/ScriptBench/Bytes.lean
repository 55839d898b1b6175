/-! Byte strings and the little-endian integers written in them.

`littleEndian k n` writes the `k` low base-256 digits of `n`, and `Bytes.toNat`
reads any number of digits back. The fixed-width signed words of the 64-bit
opcodes are these digits taken modulo `2 ^ 64`. -/
namespace ScriptBench

abbrev Bytes := List UInt8

/-- The `width` lowest base-256 digits of `n`, least significant first. -/
def littleEndian : (width n : Nat) → Bytes
  | 0, _ => []
  | width + 1, n => UInt8.ofNat n :: littleEndian width (n / 256)

/-- The number whose base-256 digits, least significant first, are the bytes. -/
def Bytes.toNat : Bytes → Nat
  | [] => 0
  | b :: rest => UInt8.toNat b + 256 * Bytes.toNat rest

@[simp] theorem length_littleEndian (width n : Nat) : (littleEndian width n).length = width := by
  induction width generalizing n with
  | zero => rfl
  | succ k ih => simp [littleEndian, ih]

theorem toNat_littleEndian (width n : Nat) :
    (littleEndian width n).toNat = n % (1 <<< (8 * width)) := by
  induction width generalizing n with
  | zero => simp [littleEndian, Bytes.toNat, Nat.mod_one]
  | succ k ih =>
    have hb : (UInt8.ofNat n).toNat = n % 256 := by simp
    have hp : 1 <<< (8 * (k + 1)) = 256 * 1 <<< (8 * k) := by
      rw [show 8 * (k + 1) = 8 + 8 * k by omega, Nat.shiftLeft_add, Nat.shiftLeft_eq (1 <<< 8),
        Nat.shiftLeft_eq 1 (8 * k)]
      omega
    rw [littleEndian, Bytes.toNat, ih, hb, hp, Nat.mod_mul]

/-- How many words of 64 bits there are. -/
def wordCount64 : Nat := 0x10000000000000000

/-- Eight bytes of two's complement. -/
def encodeWord64 (n : Int) : Bytes :=
  littleEndian 8 (n % wordCount64).toNat

/-- Exactly eight bytes of two's complement. -/
def decodeWord64? (b : Bytes) : Option Int :=
  if b.length = 8 then some (Int.bmod b.toNat wordCount64) else none

/-- Exactly four bytes, unsigned. -/
def decodeWord32? (b : Bytes) : Option Nat :=
  if b.length = 4 then some b.toNat else none

end ScriptBench
