import ScriptBench.Token.Scan

/-! Whether a place in a line is inside a string or a comment. -/
namespace ScriptBench

inductive TokenContext where
  | string
  | comment
deriving DecidableEq, Repr

/-- What the end of `before` is inside of, on a line that begins in `state`. -/
def context? (before : Text) (state : LexState) : Option TokenContext :=
  let (tokens, last) := Token.scan state before
  match last with
  | .blockComment => some .comment
  | .doubleString | .singleString => some .string
  | .root =>
    if tokens.getLast?.any (·.kind = .comment) && Text.contains before.trimStart ['/', '/'] then
      some .comment
    else none

end ScriptBench
