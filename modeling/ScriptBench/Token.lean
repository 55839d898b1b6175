import ScriptBench.Text

/-! Tokens of a line.

The tokens of a line spell it out: each holds its text, and where it stands is
the length of what comes before it. -/
namespace ScriptBench

inductive TokenKind where
  | identifier
  | hexLiteral
  | integer
  | pushDelimiter
  | evaluationDelimiter
  | string
  | comment
  | whitespace
  | invalid
deriving DecidableEq, Repr

structure Token where
  kind : TokenKind
  text : Text
deriving DecidableEq, Repr

/-- What a line begins inside of. -/
inductive LexState where
  | root
  | blockComment
  | doubleString
  | singleString
deriving DecidableEq, Repr

namespace Token

/-- The line that tokens spell. -/
def line (tokens : List Token) : Text := tokens.flatMap (·.text)

/-- The byte offsets at which each token begins and ends, the first one beginning at `start`. -/
def spans (start : Nat) : List Token → List (Nat × Nat)
  | [] => []
  | t :: rest => (start, start + t.text.size) :: spans (start + t.text.size) rest

/-- Joins neighbours of one kind; only push delimiters stay apart. -/
def join : List Token → List Token
  | [] => []
  | t :: rest =>
    match join rest with
    | [] => [t]
    | u :: rest =>
      if t.kind = u.kind ∧ t.kind ≠ .pushDelimiter then ⟨t.kind, t.text ++ u.text⟩ :: rest
      else t :: u :: rest

end Token

end ScriptBench
