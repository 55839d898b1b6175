import ScriptBench.Proofs.SourceLine.Surroundings
import ScriptBench.Proofs.TextBuffer.Rows

/-! No operation on a text buffer goes out of bounds.

Whatever has been done to a buffer, no line of it holds a line feed, and its cursor as a
row number and a byte offset is in a line that exists and between two characters of it.
So the checked operations on rows have a result, and it is the buffer's own. Only scrolling
may have none, where a view is so high that the row behind it has no number. -/
namespace ScriptBench

/-- What can be done to a buffer. -/
inductive Edit where
  | type (c : Char)
  | insert (t : Text)
  | newline
  | backspace
  | delete
  | left
  | right
  | up
  | down
  | home
  | toEnd
  | goto (row column : Nat)
  | scrollToCursor (height : Nat)
  | complete (snippet : Text)
deriving DecidableEq, Repr

namespace TextBuffer

def edit (b : TextBuffer) : Edit → TextBuffer
  | .type c => b.insertChar c
  | .insert t => b.insert t
  | .newline => b.newline
  | .backspace => b.backspace
  | .delete => b.delete
  | .left => b.moveLeft
  | .right => b.moveRight
  | .up => b.moveUp
  | .down => b.moveDown
  | .home => b.moveHome
  | .toEnd => b.moveEnd
  | .goto row column => b.goto row column
  | .scrollToCursor height => b.scrollToCursor height
  | .complete snippet => b.applyCompletion (Expansion.ofSnippet snippet)

def run (b : TextBuffer) (edits : List Edit) : TextBuffer := edits.foldl edit b

end TextBuffer

namespace Rows

def edit? (r : Rows) : Edit → Option Rows
  | .type c => r.insertChar? c
  | .insert t => r.insert? t
  | .newline => r.newline?
  | .backspace => r.backspace?
  | .delete => r.delete?
  | .left => r.moveLeft?
  | .right => r.moveRight?
  | .up => r.moveUp?
  | .down => r.moveDown?
  | .home => some r.moveHome
  | .toEnd => r.moveEnd?
  | .goto row column => r.goto? row column
  | .scrollToCursor height => r.scrollToCursor? height
  | .complete snippet => r.applyCompletion? (Expansion.ofSnippet snippet)

def run? (r : Rows) (edits : List Edit) : Option Rows := edits.foldlM edit? r

/-- The cursor is at a place in the text, and lines are lines. -/
structure Valid (r : Rows) : Prop where
  nonempty : r.lines ≠ []
  noFeed : ∀ l ∈ r.lines, '\n' ∉ l
  row : r.row < r.lines.length
  column : ∃ l, r.lines[r.row]? = some l ∧ r.column ≤ l.size ∧ l.IsBoundary r.column

/-- A line is cut at the cursor only where the cursor is at a place in the text. -/
theorem isSome_cut?_iff (r : Rows) :
    r.cut?.isSome ↔ ∃ l, r.lines[r.row]? = some l ∧ l.IsBoundary r.column := by
  rw [cut?, line?]
  cases r.lines[r.row]? with
  | none => simp
  | some l => simp [Text.isSome_splitAt?_iff]

example : (Rows.mk [['é']] 0 1 0).delete? = none := by decide

end Rows

namespace TextBuffer

/-- No line holds a line feed, on either side of the cursor. -/
structure NoFeed (b : TextBuffer) : Prop where
  above : ∀ l ∈ b.above, '\n' ∉ l
  before : '\n' ∉ b.before
  after : '\n' ∉ b.after
  below : ∀ l ∈ b.below, '\n' ∉ l

theorem noFeed_iff {b : TextBuffer} : b.NoFeed ↔ ∀ l ∈ b.lines, '\n' ∉ l := by
  constructor
  · intro h l hl
    simp only [lines, List.mem_append, List.mem_reverse, List.mem_cons] at hl
    obtain hl | rfl | hl := hl
    · exact h.above l hl
    · simp [line, h.before, h.after]
    · exact h.below l hl
  · intro h
    have hline : '\n' ∉ b.line := h b.line (by simp [lines])
    simp only [line, List.mem_append, not_or] at hline
    exact ⟨fun l hl => h l (by simp [lines, hl]), hline.1, hline.2,
      fun l hl => h l (by simp [lines, hl])⟩

variable {b : TextBuffer}

/-- What keeps the lines keeps them without line feeds. -/
theorem NoFeed.of_lines_eq (h : b.NoFeed) {b' : TextBuffer} (heq : b'.lines = b.lines) :
    b'.NoFeed := noFeed_iff.mpr (heq ▸ noFeed_iff.mp h)

theorem noFeed_ofText (t : Text) : (ofText t).NoFeed := by
  have hlines (ls : List Text) (hne : ls ≠ []) : (ofLines ls).lines = ls := by
    cases ls with
    | nil => exact absurd rfl hne
    | cons l rest => rfl
  rw [noFeed_iff, ofText, hlines _ (by simpa using t.lines_ne_nil)]
  intro l hl
  obtain ⟨k, hk, rfl⟩ := List.mem_map.mp hl
  exact fun hmem => Text.not_mem_of_mem_lines hk (SourceLine.mem_of_mem_stripReturn hmem)

/-! ### Typing -/

theorem lineFeed_not_mem_indent (l : Text) : '\n' ∉ indent l := by
  intro h
  have hindent : Enter.isIndent '\n' = true := List.all_eq_true.mp List.all_takeWhile _ h
  exact absurd hindent (by decide)

theorem lineFeed_not_mem_append {before after : Text} {a : Enter.Action}
    (h : Enter.action? before after = some a) : '\n' ∉ a.append := by
  have hrules : ∀ r ∈ Enter.rules, '\n' ∉ r.action.append := by decide +kernel
  obtain ⟨r, hr, rfl⟩ := Option.map_eq_some_iff.mp h
  exact hrules r (List.mem_of_find?_eq_some hr)

theorem lineFeed_not_mem_closer {before : Text} {state : LexState} {p : ClosingPair}
    (h : ClosingPair.after? before state = some p) : '\n' ∉ p.closer := by
  have hall : ∀ p ∈ ClosingPair.all, '\n' ∉ p.closer := by decide +kernel
  exact hall p (List.mem_of_find?_eq_some h)

theorem NoFeed.newline (h : b.NoFeed) : b.newline.NoFeed := by
  have hindent := lineFeed_not_mem_indent b.line
  have habove : ∀ l ∈ b.before :: b.above, '\n' ∉ l := List.forall_mem_cons.mpr ⟨h.before, h.above⟩
  unfold TextBuffer.newline
  dsimp only
  split
  · exact ⟨habove, hindent, h.after, h.below⟩
  · rename_i a ha
    have happend := lineFeed_not_mem_append ha
    split
    · have hlast : '\n' ∉ indent b.line ++ b.after := by simp [hindent, h.after]
      exact ⟨habove, by simp [hindent, happend], List.not_mem_nil,
        List.forall_mem_cons.mpr ⟨hlast, h.below⟩⟩
    · have hkept := fun k => mt (List.mem_of_mem_take (i := k)) hindent
      exact ⟨habove, by simp [hkept, happend], h.after, h.below⟩

theorem NoFeed.autoClose (h : b.NoFeed) : b.autoClose.NoFeed := by
  unfold TextBuffer.autoClose
  split
  · exact h
  · rename_i p hp
    have hcloser := lineFeed_not_mem_closer hp
    split
    · have htrimmed : '\n' ∉ p.closer.trimStart := fun hmem =>
        hcloser ((List.dropWhile_sublist _).mem hmem)
      have hline : '\n' ∉ indent b.line ++ p.closer.trimStart := by
        simp [lineFeed_not_mem_indent, htrimmed]
      exact ⟨h.above, h.before, h.after, List.forall_mem_cons.mpr ⟨hline, h.below⟩⟩
    · exact ⟨h.above, h.before, by simp [hcloser, h.after], h.below⟩

theorem NoFeed.insertChar (h : b.NoFeed) (c : Char) : (b.insertChar c).NoFeed := by
  unfold TextBuffer.insertChar
  split
  · exact h.newline
  · rename_i hc
    have hbefore : '\n' ∉ b.before ++ [c] := by simp [h.before, Ne.symm hc]
    split
    · exact ⟨h.above, hbefore, fun hmem => h.after (List.mem_of_mem_tail hmem), h.below⟩
    · exact NoFeed.autoClose ⟨h.above, hbefore, h.after, h.below⟩

/-! ### Erasing -/

theorem NoFeed.backspace (h : b.NoFeed) : b.backspace.NoFeed := by
  unfold TextBuffer.backspace
  split
  · refine ⟨h.above, fun hmem => h.before ((List.dropLast_sublist _).mem hmem), ?_, h.below⟩
    dsimp only
    split
    · exact fun hmem => h.after (List.mem_of_mem_tail hmem)
    · exact h.after
  · split
    · exact h
    · rename_i l rest habove
      have hlines := h.above
      rw [habove, List.forall_mem_cons] at hlines
      exact ⟨hlines.2, hlines.1, h.after, h.below⟩

theorem NoFeed.delete (h : b.NoFeed) : b.delete.NoFeed := by
  have hafter := h.after
  unfold TextBuffer.delete
  split
  · rename_i c rest heq
    rw [heq, List.mem_cons, not_or] at hafter
    exact ⟨h.above, h.before, hafter.2, h.below⟩
  · split
    · exact h
    · rename_i l rest hbelow
      have hlines := h.below
      rw [hbelow, List.forall_mem_cons] at hlines
      exact ⟨h.above, h.before, hlines.1, hlines.2⟩

/-! ### Inserting -/

theorem NoFeed.insert (h : b.NoFeed) (t : Text) : (b.insert t).NoFeed := by
  have hfeed : ∀ l ∈ t.lines, '\n' ∉ l := fun l => Text.not_mem_of_mem_lines
  rcases hlines : t.lines with _ | ⟨first, rest⟩
  · exact absurd hlines (Text.lines_ne_nil t)
  · rcases List.eq_nil_or_concat rest with rfl | ⟨middle, last, rfl⟩
    · rw [b.insert_of_line hlines]
      rw [hlines] at hfeed
      simp only [List.mem_singleton, forall_eq] at hfeed
      exact ⟨h.above, by simp [h.before, hfeed], h.after, h.below⟩
    · rw [List.concat_eq_append] at hlines
      rw [b.insert_of_lines hlines]
      rw [hlines] at hfeed
      have hfirst : '\n' ∉ b.before ++ first := by simp [h.before, hfeed first]
      refine ⟨fun l hl => ?_, hfeed last (by simp), h.after, h.below⟩
      simp only [List.mem_append, List.mem_reverse, List.mem_cons] at hl
      obtain hl | rfl | hl := hl
      · exact hfeed l (by simp [hl])
      · exact hfirst
      · exact h.above l hl

theorem NoFeed.insertAfter (h : b.NoFeed) (t : Text) : (b.insertAfter t).NoFeed :=
  (h.insert t).of_lines_eq (b.lines_insertAfter h.after)

theorem NoFeed.applyCompletion (h : b.NoFeed) (e : Expansion) : (b.applyCompletion e).NoFeed := by
  have hleft : ({ b with before := b.before.take (b.before.length - typedLength b.before) } :
      TextBuffer).NoFeed :=
    ⟨h.above, fun hmem => h.before (List.mem_of_mem_take hmem), h.after, h.below⟩
  exact (hleft.insert _).insertAfter _

/-! ### Every operation -/

theorem NoFeed.edit (h : b.NoFeed) (e : Edit) : (b.edit e).NoFeed := by
  cases e with
  | type c => exact h.insertChar c
  | insert t => exact h.insert t
  | newline => exact h.newline
  | backspace => exact h.backspace
  | delete => exact h.delete
  | left => exact h.of_lines_eq b.lines_moveLeft
  | right => exact h.of_lines_eq b.lines_moveRight
  | up => exact h.of_lines_eq b.lines_moveUp
  | down => exact h.of_lines_eq b.lines_moveDown
  | home => exact h.of_lines_eq rfl
  | toEnd => exact h.of_lines_eq b.lines_moveEnd
  | goto row column => exact h.of_lines_eq (b.lines_goto row column)
  | scrollToCursor height => exact h.of_lines_eq (b.lines_scrollToCursor height)
  | complete snippet => exact h.applyCompletion _

/-- A checked operation has a result, which is that of the operation on the buffer, or it scrolls
and goes beyond the largest number. -/
theorem edit?_rows (h : b.NoFeed) (e : Edit) :
    b.rows.edit? e = some (b.edit e).rows ∨
      ∃ height, e = .scrollToCursor height ∧ b.rows.Overflows height ∧ b.rows.edit? e = none := by
  cases e with
  | type c => exact .inl (b.insertChar?_rows c)
  | insert t => exact .inl (b.insert?_rows t)
  | newline => exact .inl b.newline?_rows
  | backspace => exact .inl b.backspace?_rows
  | delete => exact .inl b.delete?_rows
  | left => exact .inl b.moveLeft?_rows
  | right => exact .inl b.moveRight?_rows
  | up => exact .inl b.moveUp?_rows
  | down => exact .inl b.moveDown?_rows
  | home => exact .inl (congrArg some b.moveHome_rows)
  | toEnd => exact .inl b.moveEnd?_rows
  | goto row column => exact .inl (b.goto?_rows row column)
  | scrollToCursor height =>
    have hscroll := b.scrollToCursor?_rows height
    cases hresult : b.scrollToCursor? height with
    | none =>
      rw [hresult] at hscroll
      exact .inr ⟨height, rfl, b.scrollToCursor?_eq_none_iff.mp hresult, hscroll⟩
    | some b' =>
      rw [hresult] at hscroll
      have hedit : b.edit (.scrollToCursor height) = b' := congrArg (·.getD b) hresult
      rw [hedit]
      exact .inl hscroll
  | complete snippet => exact .inl (b.applyCompletion?_rows h.after)

/-! ### Whole runs -/

theorem NoFeed.run (h : b.NoFeed) (edits : List Edit) : (b.run edits).NoFeed := by
  induction edits generalizing b with
  | nil => exact h
  | cons e rest ih => exact ih (h.edit e)

theorem run?_cons (r : Rows) (e : Edit) (rest : List Edit) :
    r.run? (e :: rest) = (r.edit? e).bind fun r' => r'.run? rest := List.foldlM_cons ..

/-- What the checked operations come to is what the operations on the buffer come to. -/
theorem rows_of_run? (h : b.NoFeed) {edits : List Edit} {r : Rows}
    (hr : b.rows.run? edits = some r) : r = (b.run edits).rows := by
  induction edits generalizing b with
  | nil => exact (Option.some.inj hr).symm
  | cons e rest ih =>
    rw [run?_cons] at hr
    obtain hedit | ⟨height, rfl, -, hedit⟩ := edit?_rows h e
    · rw [hedit] at hr
      exact ih (h.edit e) hr
    · rw [hedit] at hr
      cases hr

/-- The checked operations come to nothing just where one of them scrolls too far. -/
theorem run?_rows_eq_none_iff (h : b.NoFeed) {edits : List Edit} :
    b.rows.run? edits = none ↔ ∃ before height after r,
      edits = before ++ .scrollToCursor height :: after ∧ b.rows.run? before = some r ∧
        r.Overflows height := by
  induction edits generalizing b with
  | nil =>
    refine iff_of_false nofun ?_
    rintro ⟨before, height, after, r, hsplit, -⟩
    exact absurd hsplit.symm (by simp)
  | cons e rest ih =>
    rw [run?_cons]
    obtain hedit | ⟨height, rfl, hover, hedit⟩ := edit?_rows h e
    · rw [hedit, Option.bind_some, ih (h.edit e)]
      constructor
      · rintro ⟨before, height, after, r, rfl, hrun, hover⟩
        refine ⟨e :: before, height, after, r, rfl, ?_, hover⟩
        rw [run?_cons, hedit, Option.bind_some, hrun]
      · rintro ⟨before, height, after, r, hsplit, hrun, hover⟩
        cases before with
        | nil =>
          -- An operation that has a result does not scroll too far.
          obtain ⟨rfl, -⟩ := List.cons_eq_cons.mp hsplit
          obtain rfl := Option.some.inj hrun
          have hnone := b.scrollToCursor?_rows height
          rw [b.scrollToCursor?_eq_none_iff.mpr hover] at hnone
          exact nomatch hnone.symm.trans hedit
        | cons e' before =>
          obtain ⟨rfl, rfl⟩ := List.cons_eq_cons.mp hsplit
          rw [run?_cons, hedit, Option.bind_some] at hrun
          exact ⟨before, height, after, r, rfl, hrun, hover⟩
    · rw [hedit]
      exact iff_of_true rfl ⟨[], height, rest, b.rows, rfl, rfl, hover⟩

theorem valid_rows (h : b.NoFeed) : b.rows.Valid where
  nonempty := b.lines_ne_nil
  noFeed := noFeed_iff.mp h
  row := by simp [rows, lines, row]
  column := by
    have hboundary : b.line.IsBoundary b.byteColumn := Text.isBoundary_append b.before b.after
    exact ⟨b.line, b.line?_rows, hboundary.le_size, hboundary⟩

/-- The cursor's row is in view after scrolling to it. -/
theorem row_scrollToCursor? {b' : TextBuffer} {height : Nat} (hpos : 0 < height)
    (hb : b.scrollToCursor? height = some b') :
    b'.scroll ≤ b'.row ∧ b'.row < b'.scroll + height := by
  unfold scrollToCursor? at hb
  rw [if_neg (Nat.ne_of_gt hpos)] at hb
  split at hb
  · obtain rfl := Option.some.inj hb
    exact ⟨Nat.le_refl _, Nat.lt_add_of_pos_right hpos⟩
  · split at hb
    · cases hb
    · split at hb
      · obtain rfl := Option.some.inj hb
        simp only [row] at *
        omega
      · obtain rfl := Option.some.inj hb
        omega

/-- Scrolling brings the cursor's row into view unless it goes beyond the largest number. -/
theorem exists_scrollToCursor?_rows_iff {height : Nat} (hpos : 0 < height) :
    (∃ r, b.rows.scrollToCursor? height = some r ∧ r.scroll ≤ r.row ∧
      r.row < r.scroll + height) ↔ ¬ b.rows.Overflows height := by
  rw [← b.scrollToCursor?_eq_none_iff, b.scrollToCursor?_rows]
  cases hb : b.scrollToCursor? height with
  | none => exact iff_of_false nofun (· rfl)
  | some b' => exact iff_of_true ⟨b'.rows, rfl, row_scrollToCursor? hpos hb⟩ nofun

/-- **Whatever is done to a buffer, the rows and offsets that it stands for are within their
bounds:** the checked operations all have a result, unless one of them scrolls to a view that ends
beyond the largest number. The result is the buffer's, the cursor is at a place in the text, the
word before it can be read, and scrolling brings its row into any view that ends before that. -/
theorem run_inBounds (t : Text) (edits : List Edit) :
    ((Rows.ofText t).run? edits = none ↔ ∃ before height after r,
      edits = before ++ .scrollToCursor height :: after ∧
        (Rows.ofText t).run? before = some r ∧ r.Overflows height) ∧
    ∀ r, (Rows.ofText t).run? edits = some r →
      let b := (ofText t).run edits
      r = b.rows ∧ r.Valid ∧ r.typed? = some b.typed ∧ ∀ height, 0 < height →
        ((∃ r', r.scrollToCursor? height = some r' ∧ r'.scroll ≤ r'.row ∧
          r'.row < r'.scroll + height) ↔ ¬ r.Overflows height) := by
  have hfeed := noFeed_ofText t
  rw [← rows_ofText]
  refine ⟨run?_rows_eq_none_iff hfeed, fun r hr => ?_⟩
  obtain rfl := rows_of_run? hfeed hr
  exact ⟨rfl, valid_rows (hfeed.run edits), typed?_rows _,
    fun height => exists_scrollToCursor?_rows_iff⟩

/-- A word goes in below a letter of two bytes, and the cursor behind that letter. -/
def twoByteEdits : List Edit :=
  [.down, .insert "OP_I".toList, .type 'F', .complete "OP_IF\n  ${1}".toList, .up, .up,
    .toEnd]

theorem run_inBounds_twoBytes :
    let r : Rows := ⟨[['é'], "OP_IF".toList, "  ".toList, "OP_ENDIF".toList], 0, 2, 0⟩
    (Rows.ofText ['é', '\n']).run? twoByteEdits = some r ∧ r.Valid ∧
    ∃ r', r.scrollToCursor? 1 = some r' ∧ r'.scroll ≤ r'.row ∧ r'.row < r'.scroll + 1 := by
  intro r
  have hrun : (Rows.ofText ['é', '\n']).run? twoByteEdits = some r := by decide +kernel
  obtain ⟨-, hvalid, -, hscroll⟩ := (run_inBounds ['é', '\n'] twoByteEdits).2 r hrun
  exact ⟨hrun, hvalid, (hscroll 1 (by decide)).mpr fun h => absurd h.beyond (by decide)⟩

/-- The first row is out of view, and a view that begins at the second one is as high as a number
can say. -/
theorem scroll_leavesRows :
    let edits : List Edit := [.goto 1 0, .scrollToCursor 1]
    let r : Rows := ⟨[['a'], ['b'], ['c']], 1, 0, 1⟩
    (Rows.ofText ['a', '\n', 'b', '\n', 'c']).run? edits = some r ∧ r.Overflows maxRow ∧
    (Rows.ofText ['a', '\n', 'b', '\n', 'c']).run? (edits ++ [.scrollToCursor maxRow]) = none := by
  refine ⟨by decide +kernel, ⟨by decide, by decide, by decide⟩, by decide +kernel⟩

end TextBuffer

end ScriptBench
