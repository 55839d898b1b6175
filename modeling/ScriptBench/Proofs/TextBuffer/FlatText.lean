import ScriptBench.Proofs.Text.Lines
import ScriptBench.TextBuffer

/-! The buffer as one text with a cursor.

A buffer keeps lines and a cursor in one of them; what it stands for is one text, cut in two
at the cursor. `Shows` ties the two by the text and the cursor's offset in bytes, which
leaves one flat text only. Every operation on a buffer does to the flat text what its name
says, whether it stays in its line, joins two lines or breaks one. -/
namespace ScriptBench

/-- A text with a cursor: what stands before it, and what follows. -/
structure FlatText where
  before : Text
  after : Text
deriving DecidableEq, Repr

namespace FlatText

def text (f : FlatText) : Text := f.before ++ f.after

/-- The cursor's offset in bytes. -/
def offset (f : FlatText) : Nat := f.before.size

def insert (f : FlatText) (t : Text) : FlatText := { f with before := f.before ++ t }

def insertAfter (f : FlatText) (t : Text) : FlatText := { f with after := t ++ f.after }

/-- Puts a line below the line of the cursor, of which `rest` characters follow the cursor. -/
def insertBelow (f : FlatText) (rest : Nat) (t : Text) : FlatText :=
  { f with after := f.after.take rest ++ '\n' :: t ++ f.after.drop rest }

def delete (f : FlatText) : FlatText := { f with after := f.after.tail }

/-- The characters that are erased together around the cursor. -/
def pairs : List (Char × Char) := [('<', '>'), ('(', ')'), ('"', '"'), ('\'', '\'')]

/-- What still follows when the character before it is erased. -/
def leftBeside (erased : Char) : Text → Text
  | [] => []
  | d :: rest => if (erased, d) ∈ pairs then rest else d :: rest

def backspace (f : FlatText) : FlatText :=
  match f.before.getLast? with
  | none => f
  | some c => ⟨f.before.dropLast, leftBeside c f.after⟩

def moveLeft (f : FlatText) : FlatText :=
  match f.before.getLast? with
  | none => f
  | some c => ⟨f.before.dropLast, c :: f.after⟩

def moveRight (f : FlatText) : FlatText :=
  match f.after with
  | [] => f
  | c :: rest => ⟨f.before ++ [c], rest⟩

/-- The characters that are stepped over when they are typed again. -/
def overtyped : List Char := ['>', ')', '"', '\'']

/-- The words of the opcodes that are closed on a line of their own. -/
def blockOpeners : List Text := ["OP_IF".toList, "OP_NOTIF".toList]

/-- Puts what closes a pair after the cursor, or on a line of its own below. -/
def close (f : FlatText) (rest : Nat) (indentation : Text) : Option ClosingPair → FlatText
  | none => f
  | some p =>
    if p.opener ∈ blockOpeners then f.insertBelow rest (indentation ++ p.closer.trimStart)
    else f.insertAfter p.closer

/-- Text and offset say where the cursor is. -/
theorem eq_of_text_of_offset {f g : FlatText} (htext : f.text = g.text)
    (hoffset : f.offset = g.offset) : f = g := by
  obtain ⟨before, after⟩ := f
  obtain ⟨before', after'⟩ := g
  simp only [text, offset] at htext hoffset
  rcases List.append_eq_append_iff.mp htext with ⟨more, rfl, rfl⟩ | ⟨more, rfl, rfl⟩
  · rw [Text.eq_nil_of_size_append hoffset.symm, List.append_nil, List.nil_append]
  · rw [Text.eq_nil_of_size_append hoffset, List.append_nil, List.nil_append]

end FlatText

namespace TextBuffer

/-- The bytes of lines and of the line feeds after them. -/
def sizeWithFeeds : List Text → Nat
  | [] => 0
  | l :: rest => l.size + 1 + sizeWithFeeds rest

/-- The cursor's byte offset in the text. -/
def offset (b : TextBuffer) : Nat := sizeWithFeeds (b.lines.take b.row) + b.byteColumn

/-- The flat text has the text and the cursor of the buffer. -/
structure Shows (b : TextBuffer) (f : FlatText) : Prop where
  text : b.text = f.text
  offset : b.offset = f.offset

/-- The buffer's text, cut at the cursor. -/
def flat (b : TextBuffer) : FlatText :=
  ⟨b.above.reverse.flatMap (· ++ ['\n']) ++ b.before, b.after ++ b.below.flatMap ('\n' :: ·)⟩

theorem text_flat (b : TextBuffer) : b.text = b.flat.text := by
  rw [text, lines, Text.unlines_append_cons, Text.unlines_cons, line]
  simp only [flat, FlatText.text, List.append_assoc]

theorem size_flatMap_lineFeed (lines : List Text) :
    Text.size (lines.flatMap (· ++ ['\n'])) = sizeWithFeeds lines := by
  induction lines with
  | nil => rfl
  | cons l rest ih =>
    rw [List.flatMap_cons, Text.size_append, Text.size_append, ih]
    rfl

theorem offset_flat (b : TextBuffer) : b.offset = b.flat.offset := by
  have habove : b.lines.take b.row = b.above.reverse := by
    rw [lines, row, ← List.length_reverse, List.take_left]
  rw [offset, habove, FlatText.offset, flat, Text.size_append, size_flatMap_lineFeed, byteColumn]

theorem shows_flat (b : TextBuffer) : b.Shows b.flat := ⟨b.text_flat, b.offset_flat⟩

/-- There is one flat text for a buffer. -/
theorem shows_iff {b : TextBuffer} {f : FlatText} : b.Shows f ↔ f = b.flat := by
  constructor
  · intro h
    exact FlatText.eq_of_text_of_offset (h.text.symm.trans b.text_flat)
      (h.offset.symm.trans b.offset_flat)
  · rintro rfl
    exact b.shows_flat

/-! ### The operations -/

theorem insert_of_line (b : TextBuffer) {t line : Text} (h : t.lines = [line]) :
    b.insert t = { b with before := b.before ++ line } := by
  unfold insert
  rw [h]
  rfl

theorem insert_of_lines (b : TextBuffer) {t first last : Text} {middle : List Text}
    (h : t.lines = first :: (middle ++ [last])) :
    b.insert t =
      { b with above := middle.reverse ++ (b.before ++ first) :: b.above, before := last } := by
  have hlast : t.lines.reverse = last :: (middle.reverse ++ [first]) := by simp [h]
  have hothers : (middle.reverse ++ [first]).reverse = first :: middle := by simp
  unfold insert
  rw [hlast]
  -- The definition looks at the lines from the last one up, and then at the others again.
  generalize middle.reverse ++ [first] = others at hothers
  cases others with
  | nil => cases hothers
  | cons k rest => simp only [hothers]

/-- A text with line feeds goes into the line of the cursor with its first and last lines. -/
theorem flat_insert (b : TextBuffer) (t : Text) : (b.insert t).flat = b.flat.insert t := by
  have ht := Text.unlines_lines t
  rcases hlines : t.lines with _ | ⟨first, rest⟩
  · exact absurd hlines (Text.lines_ne_nil t)
  · rw [hlines] at ht
    rcases List.eq_nil_or_concat rest with rfl | ⟨middle, last, rfl⟩
    · rw [b.insert_of_line hlines, ← ht]
      simp [flat, FlatText.insert, Text.unlines]
    · rw [List.concat_eq_append] at hlines ht
      rw [b.insert_of_lines hlines, ← ht, ← List.cons_append, Text.unlines_append_cons]
      simp [flat, FlatText.insert, Text.unlines]

theorem flat_delete (b : TextBuffer) : b.delete.flat = b.flat.delete := by
  obtain ⟨above, before, after, below, scroll⟩ := b
  cases after with
  | cons c rest => rfl
  | nil =>
    cases below with
    | nil => rfl
    | cons l rest => rfl

theorem flat_moveRight (b : TextBuffer) : b.moveRight.flat = b.flat.moveRight := by
  obtain ⟨above, before, after, below, scroll⟩ := b
  cases after with
  | cons c rest => simp [moveRight, flat, FlatText.moveRight]
  | nil =>
    cases below with
    | nil => rfl
    | cons l rest => simp [moveRight, flat, FlatText.moveRight]

theorem flat_moveLeft (b : TextBuffer) : b.moveLeft.flat = b.flat.moveLeft := by
  obtain ⟨above, before, after, below, scroll⟩ := b
  cases hlast : before.getLast? with
  | some c =>
    obtain ⟨word, rfl⟩ := List.getLast?_eq_some_iff.mp hlast
    simp [moveLeft, flat, FlatText.moveLeft]
  | none =>
    obtain rfl : before = [] := List.getLast?_eq_none_iff.mp hlast
    cases above with
    | nil => rfl
    | cons l rest => simp [moveLeft, flat, FlatText.moveLeft]

theorem erasedTogether_iff {c d : Char} : erasedTogether c d = true ↔ (c, d) ∈ FlatText.pairs := by
  simp [erasedTogether, FlatText.pairs, or_assoc]

theorem closesByTyping_iff {c : Char} : closesByTyping c = true ↔ c ∈ FlatText.overtyped := by
  simp [closesByTyping, FlatText.overtyped, or_assoc]

theorem ne_of_mem_pairs {c d : Char} (h : (c, d) ∈ FlatText.pairs) : c ≠ '\n' ∧ d ≠ '\n' := by
  have hpairs : ∀ p ∈ FlatText.pairs, p.1 ≠ '\n' ∧ p.2 ≠ '\n' := by decide +kernel
  exact hpairs (c, d) h

/-- A line feed is erased alone. -/
theorem leftBeside_lineFeed (after : Text) : FlatText.leftBeside '\n' after = after := by
  cases after with
  | nil => rfl
  | cons d rest =>
    have hpair : ('\n', d) ∉ FlatText.pairs := fun h => (ne_of_mem_pairs h).1 rfl
    rw [FlatText.leftBeside, if_neg hpair]

/-- What follows the cursor in the text is what follows it in its line, or a line feed. -/
theorem head?_flat_after (b : TextBuffer) {c : Char} (hc : c ≠ '\n') :
    b.flat.after.head? = some c ↔ b.after.head? = some c := by
  obtain ⟨above, before, after, below, scroll⟩ := b
  cases after with
  | cons d rest => rfl
  | nil =>
    cases below with
    | nil => rfl
    | cons l rest => simp [flat, Ne.symm hc]

theorem flat_backspace (b : TextBuffer) : b.backspace.flat = b.flat.backspace := by
  obtain ⟨above, before, after, below, scroll⟩ := b
  cases hlast : before.getLast? with
  | some c =>
    obtain ⟨word, rfl⟩ := List.getLast?_eq_some_iff.mp hlast
    cases after with
    | cons d rest =>
      by_cases hpair : (c, d) ∈ FlatText.pairs
      · simp [backspace, flat, FlatText.backspace, FlatText.leftBeside,
          erasedTogether_iff.mpr hpair, hpair]
      · have hapart : erasedTogether c d = false := by
          simpa using mt erasedTogether_iff.mp hpair
        simp [backspace, flat, FlatText.backspace, FlatText.leftBeside, hapart, hpair]
    | nil =>
      cases below with
      | nil => simp [backspace, flat, FlatText.backspace, FlatText.leftBeside]
      | cons l rest =>
        have hpair : (c, '\n') ∉ FlatText.pairs := fun h => (ne_of_mem_pairs h).2 rfl
        simp [backspace, flat, FlatText.backspace, FlatText.leftBeside, hpair]
  | none =>
    obtain rfl : before = [] := List.getLast?_eq_none_iff.mp hlast
    cases above with
    | nil => rfl
    | cons l rest => simp [backspace, flat, FlatText.backspace, leftBeside_lineFeed]

/-- Outside of documentation comments, a line break brings the indentation along. -/
theorem flat_newline {b : TextBuffer} (h : Enter.action? b.before b.after = none) :
    b.newline.flat = b.flat.insert ('\n' :: indent b.line) := by
  unfold newline
  dsimp only
  rw [h]
  simp [flat, FlatText.insert]

theorem flat_overtype {b : TextBuffer} {c : Char} (hc : c ∈ FlatText.overtyped)
    (hnext : b.flat.after.head? = some c) : (b.insertChar c).flat = b.flat.moveRight := by
  have hne : c ≠ '\n' := by
    rintro rfl
    exact absurd hc (by decide)
  obtain ⟨rest, hafter⟩ := List.head?_eq_some_iff.mp ((b.head?_flat_after hne).mp hnext)
  simp [insertChar, hne, closesByTyping_iff.mpr hc, flat, FlatText.moveRight, hafter]

/-- The pairs that are closed on a line of their own are those of the two conditionals. -/
theorem closesOnNewLine_iff {before : Text} {state : LexState} {p : ClosingPair}
    (h : ClosingPair.after? before state = some p) :
    p.closesOnNewLine = true ↔ p.opener ∈ FlatText.blockOpeners := by
  have hall : ∀ p ∈ ClosingPair.all,
      (p.closesOnNewLine = true ↔ p.opener ∈ FlatText.blockOpeners) := by decide +kernel
  exact hall p (List.mem_of_find?_eq_some h)

/-- What closes a pair goes after the cursor or on a line of its own. -/
theorem flat_autoClose (b : TextBuffer) :
    b.autoClose.flat =
      b.flat.close b.after.length (indent b.line) (ClosingPair.after? b.before b.lineState) := by
  unfold autoClose
  cases hpair : ClosingPair.after? b.before b.lineState with
  | none => rfl
  | some p =>
    simp only [FlatText.close, ← closesOnNewLine_iff hpair]
    cases p.closesOnNewLine with
    | false => simp [flat, FlatText.insertAfter]
    | true => simp [flat, FlatText.insertBelow]

theorem flat_typed {b : TextBuffer} {c : Char} (hc : c ≠ '\n')
    (hnext : ¬ (c ∈ FlatText.overtyped ∧ b.flat.after.head? = some c)) :
    (b.insertChar c).flat =
      (b.flat.insert [c]).close b.after.length (indent (b.before ++ c :: b.after))
        (ClosingPair.after? (b.before ++ [c]) b.lineState) := by
  have hplain : (closesByTyping c && b.after.head? == some c) = false := by
    rw [b.head?_flat_after hc, ← closesByTyping_iff] at hnext
    simpa using hnext
  have htyped := flat_autoClose { b with before := b.before ++ [c] }
  unfold insertChar
  rw [if_neg hc, hplain]
  simpa [flat, FlatText.insert, line, lineState] using htyped

theorem flat_insertAfter (b : TextBuffer) (t : Text) :
    (b.insertAfter t).flat = b.flat.insertAfter t := by
  have ht := Text.unlines_lines (t ++ b.after)
  rcases hlines : (t ++ b.after).lines with _ | ⟨first, rest⟩
  · exact absurd hlines (Text.lines_ne_nil _)
  · rw [hlines, Text.unlines_cons] at ht
    simp only [insertAfter, hlines, flat, FlatText.insertAfter, List.flatMap_append]
    rw [← List.append_assoc, ht, List.append_assoc]

/-- The word that is completed stands before the cursor, and the expansion takes its place. -/
theorem exists_flat_applyCompletion (b : TextBuffer) (e : Expansion) : ∃ front ind,
    b.flat.before = front ++ b.typed ∧
      (b.applyCompletion e).flat =
        ⟨front ++ indented ind e.before, indented ind (e.placeholder ++ e.after) ++ b.flat.after⟩ := by
  let left := b.before.take (b.before.length - typedLength b.before)
  refine ⟨b.above.reverse.flatMap (· ++ ['\n']) ++ left, indent (left ++ b.after), ?_, ?_⟩
  · rw [List.append_assoc, typed, List.take_append_drop]
    rfl
  · rw [applyCompletion, flat_insertAfter, flat_insert]
    rfl

/-! ### Refinement -/

/-- Every operation does to the text and the cursor of a buffer what it does to a flat text. -/
structure Refines (b : TextBuffer) (f : FlatText) : Prop where
  insert : ∀ t, (b.insert t).Shows (f.insert t)
  delete : b.delete.Shows f.delete
  backspace : b.backspace.Shows f.backspace
  moveLeft : b.moveLeft.Shows f.moveLeft
  moveRight : b.moveRight.Shows f.moveRight
  newline : Enter.action? b.before b.after = none →
    b.newline.Shows (f.insert ('\n' :: indent b.line))
  overtype : ∀ c ∈ FlatText.overtyped, f.after.head? = some c → (b.insertChar c).Shows f.moveRight
  typed : ∀ c, c ≠ '\n' → ¬ (c ∈ FlatText.overtyped ∧ f.after.head? = some c) →
    (b.insertChar c).Shows
      ((f.insert [c]).close b.after.length (indent (b.before ++ c :: b.after))
        (ClosingPair.after? (b.before ++ [c]) b.lineState))

/-- **A buffer is a flat text with a cursor,** and its operations are those of the flat text. -/
theorem refines_flatText (b : TextBuffer) :
    (∃ f, b.Shows f) ∧ ∀ f, b.Shows f → b.Refines f := by
  refine ⟨⟨b.flat, b.shows_flat⟩, fun f h => ?_⟩
  obtain rfl := shows_iff.mp h
  exact {
    insert := fun t => shows_iff.mpr (b.flat_insert t).symm
    delete := shows_iff.mpr b.flat_delete.symm
    backspace := shows_iff.mpr b.flat_backspace.symm
    moveLeft := shows_iff.mpr b.flat_moveLeft.symm
    moveRight := shows_iff.mpr b.flat_moveRight.symm
    newline := fun h => shows_iff.mpr (flat_newline h).symm
    overtype := fun c hc hnext => shows_iff.mpr (flat_overtype hc hnext).symm
    typed := fun c hc hnext => shows_iff.mpr (flat_typed hc hnext).symm }

/-- Two lines, the cursor before the bracket at the end of the second one. -/
def bracketed : TextBuffer := (ofText ['a', '\n', '<', 'é', '>']).goto 1 2

theorem refines_flatText_bracketed :
    bracketed.Shows ⟨['a', '\n', '<', 'é'], ['>']⟩ ∧
    bracketed.backspace.Shows ⟨['a', '\n', '<'], ['>']⟩ ∧
    bracketed.newline.Shows ⟨['a', '\n', '<', 'é', '\n'], ['>']⟩ ∧
    (bracketed.insertChar '>').Shows ⟨['a', '\n', '<', 'é', '>'], []⟩ ∧
    (bracketed.insertChar '"').Shows ⟨['a', '\n', '<', 'é', '"'], ['"', '>']⟩ := by
  have hshows : bracketed.Shows ⟨['a', '\n', '<', 'é'], ['>']⟩ := ⟨by decide +kernel, by decide +kernel⟩
  have hrefines := (refines_flatText bracketed).2 _ hshows
  have hnewline := hrefines.newline (by decide +kernel)
  have hovertype := hrefines.overtype '>' (by decide +kernel) rfl
  have htyped := hrefines.typed '"' (by decide +kernel) (by decide +kernel)
  have hpair : ClosingPair.after? (bracketed.before ++ ['"']) bracketed.lineState =
      some ⟨['"'], ['"'], [.string]⟩ := by decide +kernel
  rw [hpair] at htyped
  exact ⟨hshows, hrefines.backspace, hnewline, hovertype, htyped⟩

/-- A line in which a word is about to open a block, with more to follow on the line. -/
def openingWord : TextBuffer := (ofText ['O', 'P', '_', 'I', ' ', 'x']).goto 0 4

/-- A block is closed below, and not by any text right after the cursor. -/
theorem openingWord_closesBelow :
    openingWord.Shows ⟨['O', 'P', '_', 'I'], [' ', 'x']⟩ ∧
    ¬ ∃ closer, (openingWord.insertChar 'F').Shows
      (((FlatText.mk ['O', 'P', '_', 'I'] [' ', 'x']).insert ['F']).insertAfter closer) := by
  refine ⟨⟨by decide +kernel, by decide +kernel⟩, ?_⟩
  rintro ⟨closer, hshows⟩
  have htext : (openingWord.insertChar 'F').text = "OP_IF x\nOP_ENDIF".toList := by decide +kernel
  have hlast := congrArg List.getLast? (htext.symm.trans hshows.text)
  rw [FlatText.text, FlatText.insertAfter, ← List.append_assoc, List.getLast?_append] at hlast
  cases hlast

end TextBuffer
end ScriptBench
