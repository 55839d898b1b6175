import ScriptBench.Text

/-! The patterns of identifiers and literals: how many characters at the front of
a text match, taking as many as possible. -/
namespace ScriptBench.Pattern

def isDigit (c : Char) : Bool := '0' ≤ c && c ≤ '9'

def isLetter (c : Char) : Bool := ('a' ≤ c && c ≤ 'z') || ('A' ≤ c && c ≤ 'Z')

def isAlphanumeric (c : Char) : Bool := isLetter c || isDigit c

def isHexDigit (c : Char) : Bool :=
  isDigit c || ('a' ≤ c && c ≤ 'f') || ('A' ≤ c && c ≤ 'F')

/-- A letter or underscore, then one or more letters, digits, points, underscores or hyphens. -/
def identifier? : Text → Option Nat
  | [] => none
  | c :: rest =>
    let tail := rest.takeWhile fun c => isAlphanumeric c || c == '.' || c == '_' || c == '-'
    if (isLetter c || c == '_') && !tail.isEmpty then some (tail.length + 1) else none

/-- The digits and underscores at the front of a text, up to the last digit. -/
def digitRun (digit : Char → Bool) (t : Text) : Text :=
  ((t.takeWhile fun c => digit c || c == '_').reverse.dropWhile (· == '_')).reverse

/-- Two or more hexadecimal digits, with underscores between them. -/
def hex? (t : Text) : Option Nat :=
  let run := digitRun isHexDigit t
  if run.head? != some '_' && 2 ≤ run.countP isHexDigit then some run.length else none

/-- Digits with underscores between them. -/
def natural? (t : Text) : Option Nat :=
  let run := digitRun isDigit t
  if run.head?.any isDigit then some run.length else none

/-- Digits with underscores between them, after a sign or not. -/
def integer? : Text → Option Nat
  | '-' :: rest => (natural? rest).map (· + 1)
  | t => natural? t

end ScriptBench.Pattern
