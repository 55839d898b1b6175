import ScriptBench.Token.Pattern

/-! Numbers as they are written in decimal. -/
namespace ScriptBench

/-- A decimal literal: `coefficient * 10 ^ exponent`, negated or not. -/
structure Decimal where
  negative : Bool
  coefficient : Nat
  exponent : Int
deriving DecidableEq, Repr

namespace Decimal

/-- The value of decimal digits. -/
def digitsValue (ds : Text) : Nat := ds.foldl (fun n d => 10 * n + (d.toNat - 48)) 0

/-- One digit or more, and nothing else. -/
def natural? (t : Text) : Option Nat :=
  if !t.isEmpty && t.all Pattern.isDigit then some (digitsValue t) else none

/-- Whether a number has a minus sign, and what follows the sign it may have. -/
def splitSign : Text → Bool × Text
  | '-' :: rest => (true, rest)
  | '+' :: rest => (false, rest)
  | t => (false, t)

/-- An integer with or without a sign. -/
def integer? (t : Text) : Option Int :=
  (natural? (splitSign t).2).map fun n => if (splitSign t).1 then -(n : Int) else n

/-- A natural number that may have a plus sign. -/
def unsigned? : Text → Option Nat
  | '+' :: rest => natural? rest
  | t => natural? t

/-- The exponent that stands after the digits: its mark, sign and digits, or nothing. -/
def exponent? : Text → Option Int
  | [] => some 0
  | c :: rest => if c = 'e' ∨ c = 'E' then integer? rest else none

/-- A literal without its sign: digits, a point among or around them or none, and an exponent. -/
def magnitude? (negative : Bool) (t : Text) : Option Decimal :=
  let whole := t.takeWhile Pattern.isDigit
  let tail := t.dropWhile Pattern.isDigit
  let (fraction, tail) := match tail with
    | '.' :: tail => (tail.takeWhile Pattern.isDigit, tail.dropWhile Pattern.isDigit)
    | tail => ([], tail)
  match natural? (whole ++ fraction), exponent? tail with
  | some n, some e => some ⟨negative, n, e - fraction.length⟩
  | _, _ => none

/-- A literal with a point or an exponent, or neither. -/
def parse? (t : Text) : Option Decimal := magnitude? (splitSign t).1 (splitSign t).2

end Decimal

end ScriptBench
