import ScriptBench.Binary64
import ScriptBench.Decimal
import ScriptBench.Number

/-! Decimal literals through the nearest double.

A literal with a point or an exponent is rounded to the nearest number of 53
significant bits (to the even one of two), and counts as an integer when the
rounded value is one. -/
namespace ScriptBench.Decimal

/-- The natural number that the double nearest to `c * 10 ^ e` is, if it is one.
A literal with its first digit beyond the twentieth place is too large for any
word, and one that starts after the 330th place is nearest to zero. -/
def nearestNatural? (c : Nat) (e : Int) : Option Nat :=
  let places := ((Nat.toDigits 10 c).length : Int) + e
  if c = 0 ∨ places < -330 then some 0
  else if 20 < places then none
  else (Binary64.nearest (c * Nat.pow 10 e.toNat) (Nat.pow 10 (-e).toNat)).toNat?

/-- The integer that a literal stands for, when its double is one below `2 ^ 63` in size. -/
def nearestInteger? (d : Decimal) : Option Int := do
  let n ← nearestNatural? d.coefficient d.exponent
  if n < 0x8000000000000000 then some (if d.negative then -(n : Int) else n) else none

end ScriptBench.Decimal
