import ScriptBench.Proofs.Text.Offset
import ScriptBench.Proofs.TextBuffer.FlatText
import ScriptBench.Proofs.TextBuffer.Movement

/-! A buffer kept as rows, its cursor a row number and a byte offset.

Such a cursor can point anywhere, so every operation is checked here: it has no result
where it would read or take out a row that does not exist, put one beyond the end, cut a
line beyond its end or inside of a character, or take a number below zero or beyond the
largest one. -/
namespace ScriptBench

structure Rows where
  lines : List Text
  row : Nat
  /-- The cursor's byte offset in its line. -/
  column : Nat
  scroll : Nat
deriving DecidableEq, Repr

namespace Rows

open TextBuffer (indent indented closesByTyping erasedTogether isCompletionChar)

def minus? (m n : Nat) : Option Nat := if n ≤ m then some (m - n) else none

/-- The sum of a number and one that is not bounded by the text. -/
def plus? (m n : Nat) : Option Nat := if m + n ≤ TextBuffer.maxRow then some (m + n) else none

/-- Puts a line at an index, the lines from there on going down. -/
def insertAt? (i : Nat) (l : Text) (lines : List Text) : Option (List Text) :=
  if i ≤ lines.length then some (lines.take i ++ l :: lines.drop i) else none

def removeAt? (i : Nat) (lines : List Text) : Option (Text × List Text) :=
  lines[i]?.map fun l => (l, lines.eraseIdx i)

/-- The lines of a text, with the cursor at its start. -/
def ofText (t : Text) : Rows := ⟨t.lines.map SourceLine.stripReturn, 0, 0, 0⟩

/-- The line the cursor is in. -/
def line? (r : Rows) : Option Text := r.lines[r.row]?

/-- The cursor's line, cut at the cursor. -/
def cut? (r : Rows) : Option (Text × Text) := do
  let line ← r.line?
  line.splitAt? r.column

/-- The state that the cursor's line begins in. -/
def lineState? (r : Rows) : Option LexState :=
  if r.row ≤ r.lines.length then some (Token.stateAfter .root (r.lines.take r.row)) else none

def scrollToCursor? (r : Rows) (height : Nat) : Option Rows :=
  if height = 0 then some r
  else if r.row < r.scroll then some { r with scroll := r.row }
  else do
    let stop ← plus? r.scroll height
    if stop ≤ r.row then do
      let scroll ← minus? (r.row + 1) height
      some { r with scroll }
    else some r

/-- Scrolling to the cursor goes beyond the largest number: the cursor is not above the rows in
view, and the row behind these has no number. -/
structure Overflows (r : Rows) (height : Nat) : Prop where
  positive : 0 < height
  notAbove : r.scroll ≤ r.row
  beyond : TextBuffer.maxRow < r.scroll + height

def goto? (r : Rows) (row column : Nat) : Option Rows := do
  let last ← minus? r.lines.length 1
  let line ← r.lines[min row last]?
  some { r with row := min row last, column := Text.size (line.take column) }

def autoClose? (r : Rows) : Option Rows := do
  let state ← r.lineState?
  let (before, after) ← r.cut?
  match ClosingPair.after? before state with
  | none => some r
  | some p =>
    if p.closesOnNewLine then do
      let lines ← insertAt? (r.row + 1) (indent (before ++ after) ++ p.closer.trimStart) r.lines
      some { r with lines }
    else some { r with lines := r.lines.set r.row (before ++ (p.closer ++ after)) }

def newline? (r : Rows) : Option Rows := do
  let (before, after) ← r.cut?
  let ind := indent (before ++ after)
  let lines := r.lines.set r.row before
  match Enter.action? before after with
  | none => do
    let lines ← insertAt? (r.row + 1) (ind ++ after) lines
    some { r with lines, row := r.row + 1, column := ind.size }
  | some a =>
    if a.splits then do
      let middle := ind ++ a.append
      let lines ← insertAt? (r.row + 1) middle lines
      let lines ← insertAt? (r.row + 2) (ind ++ after) lines
      some { r with lines, row := r.row + 1, column := middle.size }
    else do
      let (kept, _) ← ind.splitAt? (ind.size - a.remove)
      let line := kept ++ a.append
      let lines ← insertAt? (r.row + 1) (line ++ after) lines
      some { r with lines, row := r.row + 1, column := line.size }

def insertChar? (r : Rows) (c : Char) : Option Rows :=
  if c = '\n' then r.newline?
  else do
    let (before, after) ← r.cut?
    let column := r.column + c.utf8Size
    if closesByTyping c && after.head? == some c then some { r with column }
    else autoClose? { r with lines := r.lines.set r.row (before ++ c :: after), column }

/-- Puts lines below the cursor's line, the cursor going down with them. -/
def pushLines? (r : Rows) : List Text → Option Rows
  | [] => some r
  | l :: rest => do
    let lines ← insertAt? (r.row + 1) l r.lines
    pushLines? { r with lines, row := r.row + 1 } rest

def insert? (r : Rows) (t : Text) : Option Rows := do
  let (before, after) ← r.cut?
  let first := { r with lines := r.lines.set r.row (before ++ t.lines.headD []) }
  let r ← first.pushLines? t.lines.tail
  let last ← r.line?
  some { r with lines := r.lines.set r.row (last ++ after), column := last.size }

def backspace? (r : Rows) : Option Rows :=
  if 0 < r.column then do
    let (before, after) ← r.cut?
    match before.getLast? with
    | none => some r
    | some c => do
      let start ← minus? r.column c.utf8Size
      let stop := match after.head? with
        | some d => if erasedTogether c d then r.column + d.utf8Size else r.column
        | none => r.column
      let line ← (before ++ after).cutOut? start stop
      some { r with lines := r.lines.set r.row line, column := start }
  else if 0 < r.row then do
    let (line, lines) ← removeAt? r.row r.lines
    let row ← minus? r.row 1
    let upper ← lines[row]?
    some { r with lines := lines.set row (upper ++ line), row, column := upper.size }
  else some r

def delete? (r : Rows) : Option Rows := do
  let (before, after) ← r.cut?
  match after.head? with
  | some c => do
    let line ← (before ++ after).cutOut? r.column (r.column + c.utf8Size)
    some { r with lines := r.lines.set r.row line }
  | none =>
    if r.row + 1 < r.lines.length then do
      let (lower, lines) ← removeAt? (r.row + 1) r.lines
      let line ← lines[r.row]?
      some { r with lines := lines.set r.row (line ++ lower) }
    else some r

def moveLeft? (r : Rows) : Option Rows := do
  let (before, _) ← r.cut?
  match before.getLast? with
  | some c => do
    let column ← minus? r.column c.utf8Size
    some { r with column }
  | none =>
    if 0 < r.row then do
      let row ← minus? r.row 1
      let line ← r.lines[row]?
      some { r with row, column := line.size }
    else some r

def moveRight? (r : Rows) : Option Rows := do
  let (_, after) ← r.cut?
  match after.head? with
  | some c => some { r with column := r.column + c.utf8Size }
  | none =>
    if r.row + 1 < r.lines.length then some { r with row := r.row + 1, column := 0 } else some r

def moveUp? (r : Rows) : Option Rows :=
  if 0 < r.row then do
    let (before, _) ← r.cut?
    let row ← minus? r.row 1
    r.goto? row before.length
  else some r

def moveDown? (r : Rows) : Option Rows :=
  if r.row + 1 < r.lines.length then do
    let (before, _) ← r.cut?
    r.goto? (r.row + 1) before.length
  else some r

def moveHome (r : Rows) : Rows := { r with column := 0 }

def moveEnd? (r : Rows) : Option Rows := do
  let line ← r.line?
  some { r with column := line.size }

def typed? (r : Rows) : Option Text := do
  let (before, _) ← r.cut?
  let wordStart ← minus? r.column (Text.size (before.reverse.takeWhile isCompletionChar))
  let (front, _) ← before.splitAt? wordStart
  let start ← if front.getLast? = some '<' then minus? wordStart 1 else some wordStart
  let (_, typed) ← before.splitAt? start
  some typed

def applyCompletion? (r : Rows) (e : Expansion) : Option Rows := do
  let typed ← r.typed?
  let start ← minus? r.column typed.size
  let line ← r.line?
  let rest ← line.cutOut? start r.column
  let (head, tail) ← e.text.splitAt? e.cursor
  let left := { r with lines := r.lines.set r.row rest, column := start }
  let stop ← left.insert? (indented (indent rest) head)
  let full ← stop.insert? (indented (indent rest) tail)
  some { full with row := stop.row, column := stop.column }

end Rows

/-! ### Checked pieces -/

namespace Rows

@[simp] theorem minus?_add (m n : Nat) : minus? (m + n) n = some m := by simp [minus?]

/-- A line is put below the one the cursor is in. -/
@[simp] theorem insertAt?_below (above below : List Text) (line l : Text) :
    insertAt? (above.length + 1) l (above.reverse ++ line :: below) =
      some (above.reverse ++ line :: l :: below) := by
  have hfits : above.reverse.length + 1 ≤ (above.reverse ++ line :: below).length := by simp
  rw [← List.length_reverse, insertAt?, if_pos hfits, List.take_length_add_append,
    List.drop_length_add_append]
  simp

end Rows

namespace TextBuffer

open Rows

/-- The buffer's lines, with the cursor as two numbers. -/
def rows (b : TextBuffer) : Rows := ⟨b.lines, b.row, b.byteColumn, b.scroll⟩

theorem rows_eq (b : TextBuffer) :
    b.rows = ⟨b.above.reverse ++ (b.before ++ b.after) :: b.below, b.above.length, b.before.size,
      b.scroll⟩ := rfl

theorem rows_ofText (t : Text) : (ofText t).rows = Rows.ofText t := by
  rw [ofText]
  cases hlines : t.lines.map SourceLine.stripReturn with
  | nil => exact absurd (List.map_eq_nil_iff.mp hlines) t.lines_ne_nil
  | cons l rest =>
    rw [Rows.ofText, hlines]
    rfl

variable (b : TextBuffer)

@[simp] theorem line?_rows : b.rows.line? = some b.line := by
  simp [rows_eq, line?, line]

@[simp] theorem cut?_rows : b.rows.cut? = some (b.before, b.after) := by
  rw [cut?, line?_rows]
  exact Text.splitAt?_append b.before b.after

@[simp] theorem lineState?_rows : b.rows.lineState? = some b.lineState := by
  simp [lineState?, rows_eq, lineState]

/-! ### Scrolling and moving -/

theorem scrollToCursor?_rows (height : Nat) :
    b.rows.scrollToCursor? height = (b.scrollToCursor? height).map rows := by
  have hrow : b.rows.row = b.row := rfl
  have hscroll : b.rows.scroll = b.scroll := rfl
  rw [Rows.scrollToCursor?, TextBuffer.scrollToCursor?, hrow, hscroll]
  by_cases hheight : height = 0
  · simp only [hheight, if_true, Option.map_some]
  by_cases habove : b.row < b.scroll
  · simp only [hheight, habove, if_true, if_false]
    rfl
  by_cases hbeyond : maxRow < b.scroll + height
  · have hplus : plus? b.scroll height = none := if_neg (Nat.not_le_of_lt hbeyond)
    simp only [hheight, habove, hbeyond, hplus, if_true, if_false]
    rfl
  have hplus : plus? b.scroll height = some (b.scroll + height) :=
    if_pos (Nat.le_of_not_lt hbeyond)
  by_cases hbelow : b.scroll + height ≤ b.row
  · have hminus : minus? (b.row + 1) height = some (b.row + 1 - height) := if_pos (by omega)
    simp only [hheight, habove, hbeyond, hplus, hbelow, hminus, Option.bind_eq_bind,
      Option.bind_some, if_true, if_false]
    rfl
  · simp only [hheight, habove, hbeyond, hplus, hbelow, Option.bind_eq_bind, Option.bind_some,
      if_false, Option.map_some]

theorem scrollToCursor?_eq_none_iff {height : Nat} :
    b.scrollToCursor? height = none ↔ b.rows.Overflows height := by
  have hiff : b.rows.Overflows height ↔
      0 < height ∧ b.scroll ≤ b.row ∧ maxRow < b.scroll + height :=
    ⟨fun h => ⟨h.positive, h.notAbove, h.beyond⟩, fun h => ⟨h.1, h.2.1, h.2.2⟩⟩
  rw [hiff]
  unfold TextBuffer.scrollToCursor?
  grind

theorem goto?_rows (row column : Nat) :
    b.rows.goto? row column = some (b.goto row column).rows := by
  have hlength : 1 ≤ b.lines.length := List.length_pos_iff.mpr b.lines_ne_nil
  have hrow : min row (b.lines.length - 1) < b.lines.length := by omega
  have hline : b.lines[min row (b.lines.length - 1)]? =
      some (b.lines.getD (min row (b.lines.length - 1)) []) := by
    rw [← List.getElem_eq_getD (h := hrow), List.getElem?_eq_getElem hrow]
  have hlines := b.lines_goto row column
  simp only [goto?, minus?, rows, hlength, hline, hlines, if_true, Option.bind_eq_bind,
    Option.bind_some]
  simp only [goto, place, TextBuffer.row, byteColumn, List.length_reverse, List.length_take,
    Nat.min_eq_left (Nat.le_of_lt hrow)]

theorem moveLeft?_rows : b.rows.moveLeft? = some b.moveLeft.rows := by
  rw [moveLeft?, cut?_rows]
  obtain ⟨above, before, after, below, scroll⟩ := b
  cases hlast : before.getLast? with
  | some c =>
    obtain ⟨word, rfl⟩ := List.getLast?_eq_some_iff.mp hlast
    simp [moveLeft, rows_eq, Text.size_append, Text.size]
  | none =>
    obtain rfl : before = [] := List.getLast?_eq_none_iff.mp hlast
    cases above with
    | nil => simp [moveLeft, rows_eq]
    | cons l above => simp [moveLeft, rows_eq]

theorem moveRight?_rows : b.rows.moveRight? = some b.moveRight.rows := by
  rw [moveRight?, cut?_rows]
  obtain ⟨above, before, after, below, scroll⟩ := b
  cases after with
  | cons c rest => simp [moveRight, rows_eq, Text.size_append, Text.size]
  | nil =>
    cases below with
    | nil => simp [moveRight, rows_eq]
    | cons l below => simp [moveRight, rows_eq, Text.size]

theorem moveUp?_rows : b.rows.moveUp? = some b.moveUp.rows := by
  by_cases hrow : b.row = 0
  · simp [moveUp?, moveUp, rows, hrow]
  · have hpos : 0 < b.rows.row := Nat.pos_of_ne_zero hrow
    have habove : minus? b.rows.row 1 = some (b.row - 1) := if_pos hpos
    rw [moveUp?, if_pos hpos, cut?_rows, moveUp, if_neg hrow, ← goto?_rows]
    simp [habove, column]

theorem moveDown?_rows : b.rows.moveDown? = some b.moveDown.rows := by
  cases hbelow : b.below with
  | nil => simp [moveDown?, moveDown, rows_eq, hbelow]
  | cons l below =>
    have hlower : b.rows.row + 1 < b.rows.lines.length := by simp [rows_eq, hbelow]
    have hmore : ¬ b.below.isEmpty := by simp [hbelow]
    rw [moveDown?, if_pos hlower, cut?_rows, moveDown, if_neg hmore, ← goto?_rows]
    rfl

theorem moveHome_rows : b.rows.moveHome = b.moveHome.rows := by
  simp [moveHome, Rows.moveHome, rows_eq, line, Text.size]

theorem moveEnd?_rows : b.rows.moveEnd? = some b.moveEnd.rows := by
  rw [moveEnd?, line?_rows]
  simp [moveEnd, rows_eq, line]

/-! ### Typing -/

theorem autoClose?_rows : b.rows.autoClose? = some b.autoClose.rows := by
  rw [autoClose?, lineState?_rows, cut?_rows, autoClose]
  simp only [Option.bind_eq_bind, Option.bind_some]
  cases ClosingPair.after? b.before b.lineState with
  | none => rfl
  | some p =>
    cases hbelow : p.closesOnNewLine with
    | false => simp [rows_eq, hbelow]
    | true => simp [rows_eq, line, hbelow]

theorem utf8Size_of_mem_indent {c : Char} {l : Text} (hc : c ∈ indent l) : c.utf8Size = 1 := by
  have hindent : Enter.isIndent c = true := List.all_eq_true.mp List.all_takeWhile c hc
  simp only [Enter.isIndent, Bool.or_eq_true, beq_iff_eq] at hindent
  obtain rfl | rfl := hindent
  · rfl
  · rfl

theorem newline?_rows : b.rows.newline? = some b.newline.rows := by
  rw [newline?, cut?_rows, newline]
  simp only [Option.bind_eq_bind, Option.bind_some]
  cases Enter.action? b.before b.after with
  | none => simp [rows_eq, line]
  | some a =>
    cases hsplits : a.splits with
    | false =>
      have hnarrow : ∀ c ∈ indent b.line, c.utf8Size = 1 := fun _ => utf8Size_of_mem_indent
      have hkept := Text.splitAt?_of_narrow hnarrow a.remove
      rw [line] at hkept
      simp [rows_eq, line, hsplits, hkept]
    | true =>
      have hlast := insertAt?_below (b.before :: b.above) b.below (indent b.line ++ a.append)
        (indent b.line ++ b.after)
      simp only [List.length_cons, List.reverse_cons, List.append_assoc, List.singleton_append,
        line] at hlast
      simp [rows_eq, line, hsplits, hlast]

theorem insertChar?_rows (c : Char) : b.rows.insertChar? c = some (b.insertChar c).rows := by
  rw [insertChar?, insertChar, cut?_rows]
  simp only [Option.bind_eq_bind, Option.bind_some]
  by_cases hc : c = '\n'
  · rw [if_pos hc, if_pos hc, newline?_rows]
  · rw [if_neg hc, if_neg hc]
    by_cases hover : (closesByTyping c && b.after.head? == some c) = true
    · rw [if_pos hover, if_pos hover]
      simp only [Bool.and_eq_true, beq_iff_eq] at hover
      obtain ⟨rest, hafter⟩ := List.head?_eq_some_iff.mp hover.2
      simp [rows_eq, hafter, Text.size_append, Text.size]
    · rw [if_neg hover, if_neg hover, ← autoClose?_rows]
      simp [rows_eq, Text.size_append, Text.size]

/-! ### Erasing -/

theorem backspace?_rows : b.rows.backspace? = some b.backspace.rows := by
  obtain ⟨above, before, after, below, scroll⟩ := b
  cases hlast : before.getLast? with
  | some c =>
    obtain ⟨word, rfl⟩ := List.getLast?_eq_some_iff.mp hlast
    have hcolumn : Text.size (word ++ [c]) = Text.size word + c.utf8Size := by
      simp [Text.size_append, Text.size]
    have hpos : 0 < Text.size word + c.utf8Size := by
      have := c.utf8Size_pos
      omega
    rw [backspace?, cut?_rows, backspace]
    simp only [rows_eq, hcolumn, hpos, if_true, Option.bind_eq_bind, Option.bind_some, hlast,
      minus?_add]
    have hone := Text.cutOut?_char word c
    have htwo := Text.cutOut?_pair word c
    cases after with
    | nil => simp [hone]
    | cons d rest =>
      cases hpair : erasedTogether c d with
      | true => simp [hpair, htwo]
      | false => simp [hpair, hone]
  | none =>
    obtain rfl : before = [] := List.getLast?_eq_none_iff.mp hlast
    cases above with
    | nil => simp [backspace?, backspace, rows_eq, Text.size]
    | cons l above =>
      simp [backspace?, backspace, rows_eq, Text.size, removeAt?,
        List.eraseIdx_append_of_length_le, minus?]

theorem delete?_rows : b.rows.delete? = some b.delete.rows := by
  rw [delete?, cut?_rows]
  obtain ⟨above, before, after, below, scroll⟩ := b
  cases after with
  | cons c rest =>
    have hcut := Text.cutOut?_char before c rest
    simp [delete, rows_eq, hcut]
  | nil =>
    cases below with
    | nil => simp [delete, rows_eq]
    | cons l below =>
      simp [delete, rows_eq, removeAt?, List.eraseIdx_append_of_length_le]

/-! ### Inserting texts -/

/-- The lines that are put below the cursor's stand above it in the end, the last one apart. -/
theorem pushLines?_concat (ls : List Text) (last : Text) (above : List Text) (line : Text)
    (below : List Text) (column scroll : Nat) :
    pushLines? ⟨above.reverse ++ line :: below, above.length, column, scroll⟩ (ls ++ [last]) =
      some ⟨(ls.reverse ++ line :: above).reverse ++ last :: below,
        (ls.reverse ++ line :: above).length, column, scroll⟩ := by
  induction ls generalizing above line with
  | nil => simp [pushLines?]
  | cons l ls ih =>
    have hrest := ih (line :: above) l
    rw [List.reverse_cons, List.append_assoc] at hrest
    rw [List.cons_append, pushLines?, insertAt?_below, List.reverse_cons, List.append_assoc]
    exact hrest

theorem insert?_rows (t : Text) : b.rows.insert? t = some (b.insert t).rows := by
  rw [insert?, cut?_rows]
  obtain ⟨above, before, after, below, scroll⟩ := b
  rcases hlines : t.lines with _ | ⟨first, rest⟩
  · exact absurd hlines (Text.lines_ne_nil t)
  · rcases List.eq_nil_or_concat rest with rfl | ⟨middle, last, rfl⟩
    · rw [insert_of_line _ hlines]
      simp [rows_eq, pushLines?, line?]
    · rw [List.concat_eq_append] at hlines
      have hset : (above.reverse ++ (before ++ after) :: below).set above.length (before ++ first) =
          above.reverse ++ (before ++ first) :: below := by simp
      rw [insert_of_lines _ hlines]
      simp only [rows_eq, Option.bind_eq_bind, Option.bind_some, List.concat_eq_append,
        List.headD_cons, List.tail_cons, hset, pushLines?_concat]
      generalize middle.reverse ++ (before ++ first) :: above = upper
      simp [line?]

/-! ### Completing -/

/-- The word that is completed, with the bracket before it or without one. -/
theorem exists_typed (b : TextBuffer) : ∃ front word : Text,
    b.before = front ++ word ∧ word.reverse = b.before.reverse.takeWhile isCompletionChar ∧
      b.typed = if front.getLast? = some '<' then '<' :: word else word := by
  obtain ⟨front, hfront⟩ : ∃ front : Text,
      front.reverse = b.before.reverse.dropWhile isCompletionChar := ⟨_, List.reverse_reverse _⟩
  obtain ⟨word, hword⟩ : ∃ word : Text,
      word.reverse = b.before.reverse.takeWhile isCompletionChar := ⟨_, List.reverse_reverse _⟩
  have hbefore : b.before = front ++ word := by
    have hsplit := List.takeWhile_append_dropWhile (p := isCompletionChar) (l := b.before.reverse)
    rw [← hfront, ← hword, ← List.reverse_append] at hsplit
    exact (List.reverse_inj.mp hsplit).symm
  have hmark : b.before.reverse[word.reverse.length]? = front.getLast? := by
    rw [hbefore, List.reverse_append, List.getElem?_append_right (Nat.le_refl _), Nat.sub_self,
      ← List.head?_eq_getElem?, List.head?_reverse]
  refine ⟨front, word, hbefore, hword, ?_⟩
  rw [typed, typedLength, ← hword]
  simp only [hmark]
  split
  · rename_i hlast
    obtain ⟨rest, rfl⟩ := List.getLast?_eq_some_iff.mp hlast
    simp [hbefore]
  · simp [hbefore]

theorem typed?_rows : b.rows.typed? = some b.typed := by
  rw [typed?, cut?_rows]
  obtain ⟨front, word, hbefore, hword, htyped⟩ := b.exists_typed
  have hcolumn : b.rows.column = front.size + word.size := by
    rw [rows, byteColumn, hbefore, Text.size_append]
  simp only [Option.bind_eq_bind, Option.bind_some, ← hword, Text.size_reverse, hcolumn, minus?_add]
  simp only [hbefore, Text.splitAt?_append, Option.bind_some, htyped]
  split
  · rename_i hlast
    obtain ⟨rest, rfl⟩ := List.getLast?_eq_some_iff.mp hlast
    have hmark : Text.size (rest ++ ['<']) = Text.size rest + 1 := Text.size_append rest ['<']
    simp [hmark]
  · simp

/-- What goes after the cursor goes to the same lines as what goes before it. -/
theorem lines_insertAfter {t : Text} (h : '\n' ∉ b.after) :
    (b.insertAfter t).lines = (b.insert t).lines := by
  rcases List.eq_nil_or_concat t.lines with hlines | ⟨front, last, hlines⟩
  · exact absurd hlines (Text.lines_ne_nil t)
  · rw [List.concat_eq_append] at hlines
    have happend := Text.lines_append hlines h
    cases front with
    | nil =>
      rw [b.insert_of_line hlines]
      simp [insertAfter, happend, lines, line]
    | cons first middle =>
      rw [b.insert_of_lines hlines]
      simp [insertAfter, happend, lines, line]

theorem exists_insertAfter (t : Text) :
    ∃ after below, b.insertAfter t = { b with after, below } := by
  unfold insertAfter
  split
  · exact ⟨b.after, b.below, rfl⟩
  · exact ⟨_, _, rfl⟩

theorem exists_insert (t : Text) : ∃ above before, b.insert t = { b with above, before } := by
  unfold insert
  split
  · exact ⟨b.above, b.before, rfl⟩
  · exact ⟨b.above, _, rfl⟩
  · split
    · exact ⟨b.above, b.before, rfl⟩
    · exact ⟨_, _, rfl⟩

theorem after_insert (t : Text) : (b.insert t).after = b.after := by
  obtain ⟨above, before, hinsert⟩ := b.exists_insert t
  rw [hinsert]

/-- A text goes after the cursor when it is inserted and the cursor is put back. -/
theorem rows_insertAfter {t : Text} (h : '\n' ∉ b.after) :
    { (b.insert t).rows with row := b.rows.row, column := b.rows.column } =
      (b.insertAfter t).rows := by
  have hlines := b.lines_insertAfter (t := t) h
  obtain ⟨after, below, hafter⟩ := b.exists_insertAfter t
  obtain ⟨above, before, hinsert⟩ := b.exists_insert t
  rw [hafter, hinsert] at hlines ⊢
  simp only [rows, ← hlines]
  rfl

theorem applyCompletion?_rows {e : Expansion} (h : '\n' ∉ b.after) :
    b.rows.applyCompletion? e = some (b.applyCompletion e).rows := by
  obtain ⟨left, hleft⟩ : ∃ left, left = b.before.take (b.before.length - typedLength b.before) :=
    ⟨_, rfl⟩
  have hbefore : b.before = left ++ b.typed := by
    rw [hleft, typed, List.take_append_drop]
  have hcolumn : b.rows.column = Text.size left + Text.size b.typed := by
    rw [rows, byteColumn, ← Text.size_append, ← hbefore]
  have hcut : Text.cutOut? (Text.size left) (Text.size left + Text.size b.typed) b.line =
      some (left ++ b.after) := by
    rw [line, hbefore, List.append_assoc]
    exact Text.cutOut?_append left b.typed b.after
  have hrows : (⟨b.rows.lines.set b.rows.row (left ++ b.after), b.rows.row, Text.size left,
      b.rows.scroll⟩ : Rows) = { b with before := left }.rows := by
    simp [rows_eq]
  have hsplit : e.text.splitAt? e.cursor = some (e.before, e.placeholder ++ e.after) := by
    rw [Expansion.text, Expansion.cursor, List.append_assoc, Text.splitAt?_append]
  rw [applyCompletion?, typed?_rows, line?_rows]
  simp only [Option.bind_eq_bind, Option.bind_some, hcolumn, minus?_add, hcut, hsplit, hrows]
  simp only [insert?_rows, Option.bind_some]
  rw [rows_insertAfter, applyCompletion, ← hleft]
  · rfl
  · rw [after_insert]
    exact h

end TextBuffer

end ScriptBench
