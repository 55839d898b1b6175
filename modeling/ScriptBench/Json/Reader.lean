import ScriptBench.Bytes.Hex
import ScriptBench.Json

/-! Reading JSON: the grammar, without limits on depth or on the size of numbers.

Each reader takes a text and returns what it read with the text that follows. The
readers of values count down a fuel that no text can use up, because every step
consumes at least one character. -/
namespace ScriptBench.Json

def isBlank (c : Char) : Bool := c == ' ' || c == '\n' || c == '\t' || c == '\r'

def skipBlanks (t : Text) : Text := t.dropWhile isBlank

/-- The character that an escape letter stands for. -/
def escaped? (letter : Char) : Option Char :=
  if letter = 'b' then some '\x08'
  else if letter = 'f' then some '\x0c'
  else if letter = 'n' then some '\n'
  else if letter = 'r' then some '\r'
  else if letter = 't' then some '\t'
  else if letter = '"' ∨ letter = '\\' ∨ letter = '/' then some letter
  else none

/-- The code unit written by four hexadecimal digits. -/
def codeUnit? (a b c d : Char) : Option Nat := do
  let a ← Bytes.hexValue? a
  let b ← Bytes.hexValue? b
  let c ← Bytes.hexValue? c
  let d ← Bytes.hexValue? d
  return 4096 * a + 256 * b + 16 * c + d

/-- Reads a string after its opening quote. -/
def readString : Text → Option (List JsonPiece × Text)
  | [] => none
  | '"' :: rest => some ([], rest)
  | '\\' :: 'u' :: a :: b :: c :: d :: rest => do
    let n ← codeUnit? a b c d
    let (pieces, rest) ← readString rest
    return (.unit n :: pieces, rest)
  | '\\' :: e :: rest => do
    let c ← escaped? e
    let (pieces, rest) ← readString rest
    return (.char c :: pieces, rest)
  | c :: rest =>
    if c.toNat < 0x20 || c == '\\' then none
    else do
      let (pieces, rest) ← readString rest
      return (.char c :: pieces, rest)

/-- One digit or more. -/
def readDigits (t : Text) : Option (Text × Text) :=
  let ds := t.takeWhile Pattern.isDigit
  if ds.isEmpty then none else some (ds, t.dropWhile Pattern.isDigit)

/-- Digits without a leading zero. -/
def readWhole : Text → Option (Text × Text)
  | '0' :: rest => some (['0'], rest)
  | t => readDigits t

/-- A point and digits, or nothing. -/
def readFraction : Text → Option (Text × Text)
  | '.' :: rest => (readDigits rest).map fun (ds, rest) => ('.' :: ds, rest)
  | t => some ([], t)

/-- The mark, sign and digits of an exponent, or nothing. -/
def readExponent : Text → Option (Text × Text)
  | c :: rest =>
    if c = 'e' ∨ c = 'E' then
      match rest with
      | '+' :: rest => (readDigits rest).map fun (ds, rest) => (c :: '+' :: ds, rest)
      | '-' :: rest => (readDigits rest).map fun (ds, rest) => (c :: '-' :: ds, rest)
      | rest => (readDigits rest).map fun (ds, rest) => (c :: ds, rest)
    else some ([], c :: rest)
  | [] => some ([], [])

def readMagnitude (t : Text) : Option (Text × Text) := do
  let (whole, t) ← readWhole t
  let (fraction, t) ← readFraction t
  let (exponent, t) ← readExponent t
  return (whole ++ fraction ++ exponent, t)

def readNumber : Text → Option (Text × Text)
  | '-' :: rest => (readMagnitude rest).map fun (token, rest) => ('-' :: token, rest)
  | t => readMagnitude t

mutual

def readValue : (fuel : Nat) → Text → Option (Json × Text)
  | 0, _ => none
  | fuel + 1, t =>
    match skipBlanks t with
    | 'n' :: 'u' :: 'l' :: 'l' :: rest => some (null, rest)
    | 't' :: 'r' :: 'u' :: 'e' :: rest => some (bool true, rest)
    | 'f' :: 'a' :: 'l' :: 's' :: 'e' :: rest => some (bool false, rest)
    | '"' :: rest => (readString rest).map fun (pieces, rest) => (string pieces, rest)
    | '[' :: rest =>
      match skipBlanks rest with
      | ']' :: rest => some (array [], rest)
      | rest => (readItems fuel rest).map fun (items, rest) => (array items, rest)
    | '\x7b' :: rest =>
      match skipBlanks rest with
      | '\x7d' :: rest => some (object [], rest)
      | rest => (readMembers fuel rest).map fun (members, rest) => (object members, rest)
    | rest => (readNumber rest).map fun (token, rest) => (number token, rest)

/-- The items of an array, up to its closing bracket. -/
def readItems : (fuel : Nat) → Text → Option (List Json × Text)
  | 0, _ => none
  | fuel + 1, t => do
    let (item, rest) ← readValue fuel t
    match skipBlanks rest with
    | ',' :: rest =>
      let (items, rest) ← readItems fuel rest
      return (item :: items, rest)
    | ']' :: rest => return ([item], rest)
    | _ => none

/-- The members of an object, up to its closing brace. -/
def readMembers : (fuel : Nat) → Text → Option (List (List JsonPiece × Json) × Text)
  | 0, _ => none
  | fuel + 1, t =>
    match skipBlanks t with
    | '"' :: rest => do
      let (key, rest) ← readString rest
      match skipBlanks rest with
      | ':' :: rest =>
        let (value, rest) ← readValue fuel rest
        match skipBlanks rest with
        | ',' :: rest =>
          let (members, rest) ← readMembers fuel rest
          return ((key, value) :: members, rest)
        | '\x7d' :: rest => return ([(key, value)], rest)
        | _ => none
      | _ => none
    | _ => none

end

/-- The value that a whole text holds, between blanks. -/
def read? (t : Text) : Option Json := do
  let (value, rest) ← readValue (2 * t.length + 2) t
  if (skipBlanks rest).isEmpty then some value else none

end ScriptBench.Json
