import ScriptBench.Editing.Context
import ScriptBench.Token.Pattern

/-! Pairs that close themselves while one types. -/
namespace ScriptBench

/-- The opener of a pair, what closes it, and where it is left alone. -/
structure ClosingPair where
  opener : Text
  closer : Text
  notIn : List TokenContext
deriving DecidableEq, Repr

namespace ClosingPair

def all : List ClosingPair := [
  ⟨['<'], ['>'], []⟩,
  ⟨['$', '('], [')'], []⟩,
  ⟨['"'], ['"'], [.string]⟩,
  ⟨['\''], ['\''], [.string, .comment]⟩,
  ⟨"/**".toList, " */".toList, [.string]⟩,
  ⟨"OP_IF".toList, " OP_ENDIF".toList, [.string, .comment]⟩,
  ⟨"OP_NOTIF".toList, " OP_ENDIF".toList, [.string, .comment]⟩]

/-- Whether a text is the word of an opcode, as far as its first letters tell. -/
def isOpcode (t : Text) : Bool := (Text.stripStart? "OP_".toList t).isSome

/-- Opcodes are closed on a line of their own, all else on the same line. -/
def closesOnNewLine (p : ClosingPair) : Bool :=
  p.closer.head? == some ' ' && isOpcode p.closer.trimStart

/-- Whether an opcode that is preceded by `before` is a whole word. -/
def startsWord (before : Text) : Bool :=
  !before.getLast?.any fun c => Pattern.isAlphanumeric c || c == '_'

/-- Whether a pair closes when its opener has been typed after `before`. -/
def applies (p : ClosingPair) (before : Text) (state : LexState) : Bool :=
  !(context? before state).any (p.notIn.contains ·) && (!isOpcode p.opener || startsWord before)

/-- The pair whose opener ends `before`. No opener ends in another one, so that
there is at most one. -/
def after? (before : Text) (state : LexState) : Option ClosingPair :=
  all.find? fun p => (Text.stripEnd? p.opener before).any (p.applies · state)

end ClosingPair

end ScriptBench
