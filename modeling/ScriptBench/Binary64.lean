/-! Numbers of 53 significant bits without a sign, and rounding to them.

An operation gives the number nearest to its exact result, and of two the one
with the even significand. The exponent of the last bit never falls below -1074. -/
namespace ScriptBench

/-- The number `significand * 2 ^ exponent`. -/
structure Binary64 where
  significand : Nat
  exponent : Int
deriving DecidableEq, Repr

namespace Binary64

/-- The integer nearest to `num / den`, the even one of two. -/
def roundQuotient (num den : Nat) : Nat :=
  let q := num / den
  let twice := 2 * (num % den)
  if twice < den then q else if den < twice then q + 1 else q + q % 2

/-- The exponent of the last of the 53 bits of `num / den`, at least -1074. -/
def lastBit (num den : Nat) : Int :=
  let guess : Int := (Nat.log2 num : Int) - (Nat.log2 den : Int) - 52
  -- The quotient lies in `[2 ^ (guess + 51), 2 ^ (guess + 53))`.
  let low := if num <<< (-(guess + 52)).toNat < den <<< (guess + 52).toNat then guess - 1 else guess
  max low (-1074)

/-- The number nearest to `num / den`. -/
def nearest (num den : Nat) : Binary64 :=
  let e := lastBit num den
  ⟨roundQuotient (num <<< (-e).toNat) (den <<< e.toNat), e⟩

/-- A number of at most 53 bits. -/
def ofNat (n : Nat) : Binary64 := ⟨n, 0⟩

def numerator (x : Binary64) : Nat := x.significand <<< x.exponent.toNat

def denominator (x : Binary64) : Nat := 1 <<< (-x.exponent).toNat

def floor (x : Binary64) : Nat := x.numerator / x.denominator

/-- A number that is an integer. -/
def toNat? (x : Binary64) : Option Nat :=
  if x.numerator % x.denominator = 0 then some x.floor else none

def mul (x y : Binary64) : Binary64 :=
  nearest (x.numerator * y.numerator) (x.denominator * y.denominator)

/-- The quotient by a number other than zero. -/
def div (x y : Binary64) : Binary64 :=
  nearest (x.numerator * y.denominator) (x.denominator * y.numerator)

/-- The integer part of a square root, one bit for every two of the number. -/
def floorRoot (n : Nat) : Nat :=
  if n = 0 then 0
  else
    let r := 2 * floorRoot (n / 4)
    if (r + 1) * (r + 1) ≤ n then r + 1 else r

/-- The square root. It is first cut after more than 53 bits; where that loses
something, a last bit says so, and the rounding cannot mistake it for a tie. -/
def sqrt (x : Binary64) : Binary64 :=
  let n := (x.numerator * x.denominator) <<< 128
  let r := floorRoot n
  nearest (2 * r + if r * r = n then 0 else 1) (x.denominator <<< 65)

/-- The root is the largest number whose square is not above `n`. -/
theorem floorRoot_bounds (n : Nat) :
    floorRoot n * floorRoot n ≤ n ∧ n < (floorRoot n + 1) * (floorRoot n + 1) := by
  fun_induction floorRoot n <;> grind

end Binary64

end ScriptBench
