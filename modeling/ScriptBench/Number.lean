import ScriptBench.Bytes

/-! Script numbers: little-endian magnitudes whose last byte carries the sign in
its top bit, zero being the empty string.

`encode` writes the shortest form. `decode?` reads any form within a limit, and
never more than eight bytes. Truth is read from the bytes themselves: all zero
bytes are false, and so are zero bytes followed by a lone sign. -/
namespace ScriptBench.Number

/-- The longest operand of the arithmetic opcodes, in bytes. -/
def operandLimit : Nat := 4

/-- The longest operand of the lock time opcodes. -/
def lockTimeLimit : Nat := 5

/-- The longest operand of the conversion to a 64-bit word. -/
def wordLimit : Nat := 8

/-- The base-256 digits of a magnitude, least significant first and none for zero. -/
def magnitude (n : Nat) : Bytes :=
  if n = 0 then [] else UInt8.ofNat n :: magnitude (n / 256)

/-- Marks the sign in the top bit of the last byte, after one more byte if that bit is taken. -/
def sign (negative : Bool) : Bytes → Bytes
  | [] => []
  | [b] =>
    if b.toNat < 128 then [if negative then b ||| 0x80 else b]
    else [b, if negative then 0x80 else 0]
  | b :: rest => b :: sign negative rest

/-- The shortest form of a number. -/
def encode (n : Int) : Bytes := sign (decide (n < 0)) (magnitude n.natAbs)

/-- The number that bytes of any length stand for. -/
def value (b : Bytes) : Int :=
  let top := 1 <<< (8 * b.length - 1)
  if b.toNat < top then b.toNat else -((b.toNat - top : Nat) : Int)

/-- Reads at most `limit` bytes, and at most eight. -/
def decode? (limit : Nat) (b : Bytes) : Option Int :=
  if b.length ≤ limit ∧ b.length ≤ 8 then some (value b) else none

/-- Whether bytes count as true. -/
def isTrue : Bytes → Bool
  | [] => false
  | [b] => b != 0 && b != 0x80
  | b :: rest => b != 0 || isTrue rest

/-- Whether a number fits a signed word of 64 bits. -/
def inWord64 (n : Int) : Bool := -0x8000000000000000 ≤ n && n < 0x8000000000000000

/-- A count as a number: counts are kept in signed words of 64 bits. -/
def count (n : Nat) : Int := Int.bmod n wordCount64

end ScriptBench.Number
