import ScriptBench.Screen

/-! Breaking lines that are too long for their area.

A line breaks at blanks, and a word that is longer than a whole line is cut. The
blanks that a full line has no room for are dropped, and those after them begin
the next line. -/
namespace ScriptBench.Wrap

/-- A line may break at a blank, but not at a no-break space. -/
def breaksAt (c : Char) : Bool := Text.isBlank c && c != '\u00a0'

/-- The finished lines, last one first; the line at hand; the blanks after it and
the word after those; and whether a word has just been going on. -/
structure State where
  done : List Line := []
  line : Line := []
  blanks : Line := []
  word : Line := []
  inWord : Bool := false

/-- Moves the blanks and the word onto the line. -/
def State.settle (s : State) : State :=
  { s with line := s.line ++ s.blanks ++ s.word, blanks := [], word := [] }

/-- Finishes the line, dropping the blanks that still fit on it. -/
def State.finish (width : Nat) (s : State) : State :=
  { s with done := s.line :: s.done, line := [], blanks := s.blanks.drop (width - s.line.length) }

def State.add (s : State) (c : Cell) : State :=
  if breaksAt c.char then { s with blanks := s.blanks ++ [c], inWord := false }
  else { s with word := s.word ++ [c], inWord := true }

/-- Whether the blanks and the word have to go onto the line before a character. -/
def State.settles (width : Nat) (s : State) (c : Cell) : Bool :=
  (s.inWord && breaksAt c.char) ||
    (s.line.isEmpty && width < s.word.length + s.blanks.length + 1)

/-- Whether there is no room for another character on the line. -/
def State.isFull (width : Nat) (s : State) : Bool :=
  width ≤ s.line.length + s.blanks.length + s.word.length

def State.step (width : Nat) (s : State) (c : Cell) : State :=
  let s := if s.settles width c then s.settle else s
  if s.isFull width then
    let s := s.finish width
    if breaksAt c.char && s.blanks.isEmpty then s else s.add c
  else s.add c

/-- The lines, when there is nothing more to come. -/
def State.result (s : State) : List Line :=
  let onlyBlanks := s.line.isEmpty && s.word.isEmpty && !s.blanks.isEmpty
  let done := if onlyBlanks then [] :: s.done else s.done
  let last := s.settle.line
  let done := if last.isEmpty then done else last :: done
  if done.isEmpty then [[]] else done.reverse

/-- The lines that a line is broken into. -/
def line (width : Nat) (l : Line) : List Line := (l.foldl (State.step width) {}).result

/-- Lines broken one after another. -/
def lines (width : Nat) (ls : List Line) : List Line := ls.flatMap (line width)

end ScriptBench.Wrap
