import ScriptBench.Decimal

/-! JSON values as they are written.

A number keeps its digits and a string its escapes, so that a value nobody asks
for need not make sense: only `Json.nat?` and `Json.text?` ask for a number that
is a plain natural, or for a string whose surrogates are paired. -/
namespace ScriptBench

/-- One character of a string: itself, or a code unit written as an escape. -/
inductive JsonPiece where
  | char (c : Char)
  | unit (n : Nat)
deriving DecidableEq, Repr

inductive Json where
  | null
  | bool (b : Bool)
  | number (token : Text)
  | string (pieces : List JsonPiece)
  | array (items : List Json)
  | object (members : List (List JsonPiece × Json))

namespace JsonPiece

def isHighSurrogate (n : Nat) : Bool := 0xd800 ≤ n && n < 0xdc00

def isLowSurrogate (n : Nat) : Bool := 0xdc00 ≤ n && n < 0xe000

/-- The text of a string, unless half of a surrogate pair stands alone in it. -/
def decode? : List JsonPiece → Option Text
  | [] => some []
  | char c :: rest => (decode? rest).map (c :: ·)
  | unit hi :: unit lo :: rest =>
    if isHighSurrogate hi then
      if isLowSurrogate lo then
        (decode? rest).map (Char.ofNat (0x10000 + 0x400 * (hi - 0xd800) + (lo - 0xdc00)) :: ·)
      else none
    else if isLowSurrogate hi then none
    else (decode? (unit lo :: rest)).map (Char.ofNat hi :: ·)
  | unit n :: rest =>
    if isHighSurrogate n || isLowSurrogate n then none
    else (decode? rest).map (Char.ofNat n :: ·)

/-- The letter that follows the backslash in the escape of a character. -/
def escapeLetter? (c : Char) : Option Char :=
  if c = '"' then some '"'
  else if c = '\\' then some '\\'
  else if c = '\x08' then some 'b'
  else if c = '\x0c' then some 'f'
  else if c = '\n' then some 'n'
  else if c = '\r' then some 'r'
  else if c = '\t' then some 't'
  else none

/-- A character as it is written: a control character without a letter of its own
becomes a code unit. -/
def ofChar (c : Char) : JsonPiece :=
  if c.toNat < 0x20 && (escapeLetter? c).isNone then unit c.toNat else char c

end JsonPiece

namespace Json

/-- Decimal digits of a natural number. -/
def digits (n : Nat) : Text := Nat.toDigits 10 n

def ofNat (n : Nat) : Json := number (digits n)

def ofText (t : Text) : Json := string (t.map JsonPiece.ofChar)

/-- A number written with digits alone. -/
def nat? : Json → Option Nat
  | number token => if token.all Pattern.isDigit then some (Decimal.digitsValue token) else none
  | _ => none

def text? : Json → Option Text
  | string pieces => JsonPiece.decode? pieces
  | _ => none

end Json

end ScriptBench
