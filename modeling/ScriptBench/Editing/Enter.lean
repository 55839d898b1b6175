import ScriptBench.Text

/-! What a line break inside a documentation comment carries to the next line.

Each pattern stands as a regular expression above the function that decides it;
blanks are those of `Text.isBlank`. -/
namespace ScriptBench.Enter

/-- `^\s*/\*\*(?!/)([^*]|\*(?!/))*$` -/
def opensComment (before : Text) : Bool :=
  (Text.stripStart? "/**".toList before.trimStart).any fun rest =>
    rest.head? != some '/' && !Text.contains rest ['*', '/']

/-- `^\s*\*/$` -/
def closesComment (after : Text) : Bool := after.trimStart == ['*', '/']

def isIndent (c : Char) : Bool := c == ' ' || c == '\t'

/-- What follows an indentation whose last character is a space. -/
def afterIndent? (line : Text) : Option Text :=
  if (line.takeWhile isIndent).getLast? = some ' ' then some (line.dropWhile isIndent) else none

/-- `^(\t|[ ])*[ ]\*([ ]([^*]|\*(?!/))*)?$` -/
def isCommentBody (before : Text) : Bool :=
  ((afterIndent? before).bind (Text.stripStart? ['*'])).any fun rest =>
    rest.isEmpty || (rest.head? == some ' ' && !Text.contains rest ['*', '/'])

/-- `^(\s*(\/\*\*|\*)).*` -/
def continuesComment (after : Text) : Bool :=
  (Text.stripStart? "/**".toList after.trimStart).isSome || after.trimStart.head? == some '*'

/-- `^(\t|[ ])*[ ]\*\/\s*$` -/
def endsComment (before : Text) : Bool :=
  (afterIndent? before).any fun rest => rest.trimEnd == ['*', '/']

/-- `^(\t|[ ])*[ ]\*[^/]*\*\/\s*$` -/
def endsCommentRule (before : Text) : Bool :=
  ((afterIndent? before).bind (Text.stripStart? ['*'])).any fun rest =>
    (Text.stripEnd? ['*', '/'] rest.trimEnd).any (!·.elem '/')

/-- What happens to the new line. -/
structure Action where
  /-- Whether what follows the cursor goes to a third line. -/
  splits : Bool
  /-- What is written at the start of the new line, after its indentation. -/
  append : Text
  /-- How many characters of the indentation are left out. -/
  remove : Nat
deriving DecidableEq, Repr

/-- A rule applies when both sides of the cursor match. -/
structure Rule where
  before : Text → Bool
  after : Text → Bool
  action : Action

def Rule.applies (r : Rule) (before after : Text) : Bool := r.before before && r.after after

def rules : List Rule := [
  ⟨opensComment, closesComment, ⟨true, " * ".toList, 0⟩⟩,
  ⟨opensComment, fun _ => true, ⟨false, " * ".toList, 0⟩⟩,
  ⟨isCommentBody, continuesComment, ⟨false, "* ".toList, 0⟩⟩,
  ⟨endsComment, fun _ => true, ⟨false, [], 1⟩⟩,
  ⟨endsCommentRule, fun _ => true, ⟨false, [], 1⟩⟩]

/-- The action of the first rule that applies. -/
def action? (before after : Text) : Option Action :=
  (rules.find? (·.applies before after)).map (·.action)

end ScriptBench.Enter
