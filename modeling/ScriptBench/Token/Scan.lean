import ScriptBench.Token
import ScriptBench.Token.Pattern

/-! Scanning lines into tokens.

Strings and block comments go on over the ends of lines, so a line is scanned
from the state that the line before it ends in. Every step takes the character
it stands on and perhaps more, so scanning comes to an end. -/
namespace ScriptBench.Token

/-- The kind of the token at hand, how many characters it takes after its first,
and the state it leaves. -/
structure Step where
  kind : TokenKind
  more : Nat
  next : LexState
deriving DecidableEq, Repr

/-- The length of the blanks at the front of a text. -/
def blanks (t : Text) : Nat :=
  (t.takeWhile fun c => c == ' ' || c == '\t' || c == '\r' || c == '\n').length

/-- The step outside of strings and comments for a character that starts no
identifier, literal or blanks. -/
def punctuation : Char → Text → Step
  | '/', '*' :: _ => ⟨.comment, 1, .blockComment⟩
  | '/', '/' :: rest => ⟨.comment, rest.length + 1, .root⟩
  | '$', '(' :: _ => ⟨.evaluationDelimiter, 1, .root⟩
  | '<', _ => ⟨.pushDelimiter, 0, .root⟩
  | '>', _ => ⟨.pushDelimiter, 0, .root⟩
  | ')', _ => ⟨.evaluationDelimiter, 0, .root⟩
  | '"', _ => ⟨.string, 0, .doubleString⟩
  | '\'', _ => ⟨.string, 0, .singleString⟩
  | _, _ => ⟨.invalid, 0, .root⟩

/-- The length of a hexadecimal literal, with its `0x`. -/
def hexLiteral? : Text → Option Nat
  | '0' :: 'x' :: rest => (Pattern.hex? rest).map (· + 2)
  | _ => none

/-- The step outside of strings and comments. -/
def rootStep (c : Char) (rest : Text) : Step :=
  match Pattern.identifier? (c :: rest) with
  | some n => ⟨.identifier, n - 1, .root⟩
  | none =>
    match hexLiteral? (c :: rest) with
    | some n => ⟨.hexLiteral, n - 1, .root⟩
    | none =>
      match Pattern.integer? (c :: rest) with
      | some n => ⟨.integer, n - 1, .root⟩
      | none =>
        if blanks [c] = 1 then ⟨.whitespace, blanks rest, .root⟩
        else punctuation c rest

/-- How many characters there are up to the end of the first `*/`. -/
def commentEnd? : Text → Option Nat
  | '*' :: '/' :: _ => some 2
  | _ :: rest => (commentEnd? rest).map (· + 1)
  | [] => none

/-- How many characters there are up to the first `quote`, with it. -/
def quoteEnd? (quote : Char) : Text → Option Nat
  | [] => none
  | c :: rest => if c = quote then some 1 else (quoteEnd? quote rest).map (· + 1)

/-- The step inside a string or comment that goes up to `stop?`, or over the line's end. -/
def insideStep (kind : TokenKind) (inside : LexState) (rest : Text) : (stop? : Option Nat) → Step
  | some n => ⟨kind, n - 1, .root⟩
  | none => ⟨kind, rest.length, inside⟩

def step (state : LexState) (c : Char) (rest : Text) : Step :=
  match state with
  | .root => rootStep c rest
  | .blockComment => insideStep .comment .blockComment rest (commentEnd? (c :: rest))
  | .doubleString => insideStep .string .doubleString rest (quoteEnd? '"' (c :: rest))
  | .singleString => insideStep .string .singleString rest (quoteEnd? '\'' (c :: rest))

/-- The tokens of a line before neighbours are joined, and the state at its end. -/
def steps (state : LexState) : Text → List Token × LexState
  | [] => ([], state)
  | c :: rest =>
    let s := step state c rest
    let tail := steps s.next (rest.drop s.more)
    (⟨s.kind, c :: rest.take s.more⟩ :: tail.1, tail.2)
termination_by t => t.length
decreasing_by simp only [List.length_cons, List.length_drop]; omega

/-- The tokens of a line and the state at its end. -/
def scan (state : LexState) (t : Text) : List Token × LexState :=
  (join (steps state t).1, (steps state t).2)

/-- The tokens of lines that follow one another. -/
def scanLines (state : LexState) : List Text → List (List Token)
  | [] => []
  | l :: rest => (scan state l).1 :: scanLines (scan state l).2 rest

/-- The state after lines that follow one another. -/
def stateAfter (state : LexState) : List Text → LexState
  | [] => state
  | l :: rest => stateAfter (scan state l).2 rest

/-- The tokens of a document. -/
def document (lines : List Text) : List (List Token) := scanLines .root lines

end ScriptBench.Token
