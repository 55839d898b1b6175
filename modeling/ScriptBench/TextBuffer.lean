import ScriptBench.Completion.Snippet
import ScriptBench.Editing.ClosingPair
import ScriptBench.Editing.Enter
import ScriptBench.SourceLine

/-! Text with one cursor.

The cursor cuts its line in two and stands between lines above and below, so it
is always at a place that exists. Typing closes pairs, and a line break follows
the rules for documentation comments. -/
namespace ScriptBench

structure TextBuffer where
  /-- The lines above the cursor, nearest first. -/
  above : List Text
  before : Text
  after : Text
  below : List Text
  /-- The first row in view. -/
  scroll : Nat
deriving DecidableEq, Repr

namespace TextBuffer

/-- The largest number of a row. -/
def maxRow : Nat := 0xFFFFFFFFFFFFFFFF

/-- Lines with the cursor at the start of the first one. -/
def ofLines : List Text → TextBuffer
  | [] => ⟨[], [], [], [], 0⟩
  | l :: rest => ⟨[], [], l, rest, 0⟩

/-- A text with the cursor at its start; carriage returns before line feeds are left out. -/
def ofText (t : Text) : TextBuffer := ofLines (t.lines.map SourceLine.stripReturn)

def empty : TextBuffer := ofText []

/-- The line the cursor is in. -/
def line (b : TextBuffer) : Text := b.before ++ b.after

def lines (b : TextBuffer) : List Text := b.above.reverse ++ b.line :: b.below

def text (b : TextBuffer) : Text := Text.unlines b.lines

def row (b : TextBuffer) : Nat := b.above.length

/-- The cursor's byte offset in its line. -/
def byteColumn (b : TextBuffer) : Nat := b.before.size

/-- The cursor's column in characters. -/
def column (b : TextBuffer) : Nat := b.before.length

/-- Scrolls just enough for the cursor's row to be among `height` rows. There is no
result where the row behind them has no number. -/
def scrollToCursor? (b : TextBuffer) (height : Nat) : Option TextBuffer :=
  if height = 0 then some b
  else if b.row < b.scroll then some { b with scroll := b.row }
  else if maxRow < b.scroll + height then none
  else if b.scroll + height ≤ b.row then some { b with scroll := b.row + 1 - height }
  else some b

/-- Scrolls to the cursor in a view on a screen, which is never too high for that. -/
def scrollToCursor (b : TextBuffer) (height : Nat) : TextBuffer :=
  (b.scrollToCursor? height).getD b

/-- Lines with the cursor in one of them, both coordinates cut to what there is. -/
def place (lines : List Text) (row column scroll : Nat) : TextBuffer :=
  let row := min row (lines.length - 1)
  let line := lines.getD row []
  ⟨(lines.take row).reverse, line.take column, line.drop column, lines.drop (row + 1), scroll⟩

/-- Moves the cursor to a row and a column in characters, or as near as the text allows. -/
def goto (b : TextBuffer) (row column : Nat) : TextBuffer := place b.lines row column b.scroll

/-- The spaces and tabs at the start of a line. -/
def indent (line : Text) : Text := line.takeWhile Enter.isIndent

/-- The state that the cursor's line begins in. -/
def lineState (b : TextBuffer) : LexState := Token.stateAfter .root b.above.reverse

/-- Closes the pair that the text before the cursor opens, if it opens one. -/
def autoClose (b : TextBuffer) : TextBuffer :=
  match ClosingPair.after? b.before b.lineState with
  | none => b
  | some p =>
    if p.closesOnNewLine then { b with below := (indent b.line ++ p.closer.trimStart) :: b.below }
    else { b with after := p.closer ++ b.after }

/-- Breaks the line at the cursor. -/
def newline (b : TextBuffer) : TextBuffer :=
  let ind := indent b.line
  match Enter.action? b.before b.after with
  | none => { b with above := b.before :: b.above, before := ind }
  | some a =>
    if a.splits then
      { b with
        above := b.before :: b.above
        before := ind ++ a.append
        after := []
        below := (ind ++ b.after) :: b.below }
    else
      { b with
        above := b.before :: b.above
        before := ind.take (ind.length - a.remove) ++ a.append }

/-- The characters that step over themselves. -/
def closesByTyping (c : Char) : Bool := c == '>' || c == ')' || c == '"' || c == '\''

/-- Types one character. -/
def insertChar (b : TextBuffer) (c : Char) : TextBuffer :=
  if c = '\n' then b.newline
  else if closesByTyping c && b.after.head? == some c then
    { b with before := b.before ++ [c], after := b.after.tail }
  else autoClose { b with before := b.before ++ [c] }

/-- Puts a text before the cursor as it is. -/
def insert (b : TextBuffer) (t : Text) : TextBuffer :=
  match t.lines.reverse with
  | [] => b
  | [only] => { b with before := b.before ++ only }
  | last :: others =>
    match others.reverse with
    | [] => b
    | first :: middle =>
      { b with above := middle.reverse ++ (b.before ++ first) :: b.above, before := last }

/-- Puts a text after the cursor as it is. -/
def insertAfter (b : TextBuffer) (t : Text) : TextBuffer :=
  match (t ++ b.after).lines with
  | [] => b
  | first :: rest => { b with after := first, below := rest ++ b.below }

/-- The pairs that one backspace takes out together. -/
def erasedTogether (c d : Char) : Bool :=
  (c == '<' && d == '>') || (c == '(' && d == ')') || (c == '"' && d == '"') ||
    (c == '\'' && d == '\'')

def backspace (b : TextBuffer) : TextBuffer :=
  match b.before.getLast? with
  | some c =>
    let after := if b.after.head?.any (erasedTogether c) then b.after.tail else b.after
    { b with before := b.before.dropLast, after }
  | none =>
    match b.above with
    | [] => b
    | l :: rest => { b with above := rest, before := l }

def delete (b : TextBuffer) : TextBuffer :=
  match b.after with
  | _ :: rest => { b with after := rest }
  | [] =>
    match b.below with
    | [] => b
    | l :: rest => { b with after := l, below := rest }

def moveLeft (b : TextBuffer) : TextBuffer :=
  match b.before.getLast? with
  | some c => { b with before := b.before.dropLast, after := c :: b.after }
  | none =>
    match b.above with
    | [] => b
    | l :: rest => { b with above := rest, before := l, after := [], below := b.after :: b.below }

def moveRight (b : TextBuffer) : TextBuffer :=
  match b.after with
  | c :: rest => { b with before := b.before ++ [c], after := rest }
  | [] =>
    match b.below with
    | [] => b
    | l :: rest => { b with above := b.before :: b.above, before := [], after := l, below := rest }

/-- Moves a row up, keeping the column in characters as far as that row goes. -/
def moveUp (b : TextBuffer) : TextBuffer :=
  if b.row = 0 then b else b.goto (b.row - 1) b.column

def moveDown (b : TextBuffer) : TextBuffer :=
  if b.below.isEmpty then b else b.goto (b.row + 1) b.column

def moveHome (b : TextBuffer) : TextBuffer := { b with before := [], after := b.line }

def moveEnd (b : TextBuffer) : TextBuffer := { b with before := b.line, after := [] }

def isCompletionChar (c : Char) : Bool := Pattern.isAlphanumeric c || c == '_'

/-- How many characters before the cursor belong to the word that is completed: its
letters, digits and underscores, and a `<` in front of them. -/
def typedLength (before : Text) : Nat :=
  let word := before.reverse.takeWhile isCompletionChar
  if before.reverse[word.length]? = some '<' then word.length + 1 else word.length

/-- The word before the cursor that is completed. -/
def typed (b : TextBuffer) : Text := b.before.drop (b.before.length - typedLength b.before)

/-- A text whose lines after the first are indented. -/
def indented (ind t : Text) : Text := t.flatMap fun c => if c = '\n' then '\n' :: ind else [c]

/-- Replaces the word that is completed by an expansion, and leaves the cursor at
its first stop. New lines get the indentation of the cursor's line without the word. -/
def applyCompletion (b : TextBuffer) (e : Expansion) : TextBuffer :=
  let b := { b with before := b.before.take (b.before.length - typedLength b.before) }
  let ind := indent b.line
  (b.insert (indented ind e.before)).insertAfter (indented ind (e.placeholder ++ e.after))

end TextBuffer

end ScriptBench
