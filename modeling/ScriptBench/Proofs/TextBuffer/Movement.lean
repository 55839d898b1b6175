import ScriptBench.Session.Event

/-! Moving the cursor and scrolling change no line of the text. -/
namespace ScriptBench.TextBuffer

theorem lines_ne_nil (b : TextBuffer) : b.lines ≠ [] := by simp [lines]

/-- The line at a row between the lines before and after it. -/
theorem take_append_getD_drop {lines : List Text} {row : Nat} (h : row < lines.length) :
    lines.take row ++ lines.getD row [] :: lines.drop (row + 1) = lines := by
  rw [← List.getElem_eq_getD (h := h), List.getElem_cons_drop h, List.take_append_drop]

theorem lines_place {lines : List Text} (h : lines ≠ []) (row column scroll : Nat) :
    (place lines row column scroll).lines = lines := by
  have hlength : 0 < lines.length := List.length_pos_iff.mpr h
  have hrow : min row (lines.length - 1) < lines.length := by omega
  simp only [place, TextBuffer.lines, line, List.reverse_reverse, List.take_append_drop]
  exact take_append_getD_drop hrow

@[simp] theorem lines_goto (b : TextBuffer) (row column : Nat) :
    (b.goto row column).lines = b.lines :=
  lines_place b.lines_ne_nil row column b.scroll

/-- Scrolling changes which rows are in view and nothing else. -/
theorem exists_scrollToCursor (b : TextBuffer) (height : Nat) :
    ∃ scroll, b.scrollToCursor height = { b with scroll } := by
  unfold scrollToCursor scrollToCursor?
  split
  · exact ⟨b.scroll, rfl⟩
  · split
    · exact ⟨_, rfl⟩
    · split
      · exact ⟨b.scroll, rfl⟩
      · split
        · exact ⟨_, rfl⟩
        · exact ⟨b.scroll, rfl⟩

@[simp] theorem lines_scrollToCursor (b : TextBuffer) (height : Nat) :
    (b.scrollToCursor height).lines = b.lines := by
  obtain ⟨scroll, h⟩ := b.exists_scrollToCursor height
  rw [h]
  rfl

theorem lines_moveLeft (b : TextBuffer) : b.moveLeft.lines = b.lines := by
  obtain ⟨above, before, after, below, scroll⟩ := b
  unfold moveLeft
  cases hlast : before.getLast? with
  | some c =>
    obtain ⟨word, rfl⟩ := List.getLast?_eq_some_iff.mp hlast
    simp [lines, line]
  | none =>
    obtain rfl : before = [] := List.getLast?_eq_none_iff.mp hlast
    cases above with
    | nil => rfl
    | cons l rest => simp [lines, line]

theorem lines_moveRight (b : TextBuffer) : b.moveRight.lines = b.lines := by
  obtain ⟨above, before, after, below, scroll⟩ := b
  cases after with
  | cons c rest => simp [moveRight, lines, line]
  | nil =>
    cases below with
    | nil => rfl
    | cons l rest => simp [moveRight, lines, line]

theorem lines_moveUp (b : TextBuffer) : b.moveUp.lines = b.lines := by
  unfold moveUp
  split
  · rfl
  · exact b.lines_goto ..

theorem lines_moveDown (b : TextBuffer) : b.moveDown.lines = b.lines := by
  unfold moveDown
  split
  · rfl
  · exact b.lines_goto ..

theorem lines_moveEnd (b : TextBuffer) : b.moveEnd.lines = b.lines := by
  simp [moveEnd, lines, line]

end TextBuffer

/-- What the keys of movement do to an editor leaves its lines as they are. -/
theorem Session.lines_movement {k : Key} {move : TextBuffer → TextBuffer}
    (h : movement? k = some move) (b : TextBuffer) : (move b).lines = b.lines := by
  unfold movement? at h
  split at h <;> cases h
  · exact b.lines_moveLeft
  · exact b.lines_moveRight
  · exact b.lines_moveUp
  · exact b.lines_moveDown
  · rfl
  · exact b.lines_moveEnd

end ScriptBench
