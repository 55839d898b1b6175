import ScriptBench.Hover
import ScriptBench.Proofs.Text.Offset
import ScriptBench.Proofs.Text.Strip
import ScriptBench.Proofs.Token.Matchers

/-! The word at a byte offset is a whole word of the line.

A line that is cut at an offset falls into what stands in front of a word, the word up to the cut,
the word behind the cut, and what follows it. The range is read off the sizes of these parts, and
two scans by index end where the parts do. Whatever looks like a whole word around the offset gives
the same parts, so there is no other range. Word characters take one byte each: an offset between
the ends of a word is never inside of a character, and all of them show the same hover. -/
namespace ScriptBench.Hover

open Text

variable {line front left right word back : Text} {n column start stop : Nat}

/-! ### Around a word -/

/-- A word with what stands in front of it and what follows it, neither of which goes on with it. -/
structure Framed (front word back : Text) : Prop where
  word : ∀ c ∈ word, isWordChar c = true
  front : ∀ c ∈ front.getLast?, isWordChar c = false
  back : ∀ c ∈ back.head?, isWordChar c = false

theorem Framed.wordBefore (h : Framed front (left ++ right) back) :
    wordBefore (front ++ left) = left := by
  rw [Hover.wordBefore, List.reverse_append, takeWhile_append_of_head?, List.reverse_reverse]
  · exact fun c hc => h.word c (List.mem_append_left right (List.mem_reverse.mp hc))
  · rw [List.head?_reverse]
    exact h.front

theorem Framed.wordAfter (h : Framed front (left ++ right) back) :
    wordAfter (right ++ back) = right :=
  takeWhile_append_of_head? (fun c hc => h.word c (List.mem_append_right left hc)) h.back

/-- Behind the front stands a word character exactly if the word has begun. -/
theorem Framed.getLast?_iff (h : Framed front (left ++ right) back) :
    (∃ c ∈ (front ++ left).getLast?, isWordChar c = true) ↔ left ≠ [] := by
  constructor
  · rintro ⟨c, hc, hword⟩ rfl
    rw [List.append_nil] at hc
    rw [h.front c hc] at hword
    cases hword
  · intro hne
    have hlast := List.getLast?_eq_some_getLast hne
    refine ⟨left.getLast hne, ?_, h.word _ (List.mem_append_left right (List.getLast_mem hne))⟩
    rw [List.getLast?_append, hlast]
    rfl

theorem Framed.head?_iff (h : Framed front (left ++ right) back) :
    (∃ c ∈ (right ++ back).head?, isWordChar c = true) ↔ right ≠ [] := by
  cases right with
  | nil =>
    refine iff_of_false ?_ (not_not.mpr rfl)
    rintro ⟨c, hc, hword⟩
    rw [h.back c hc] at hword
    cases hword
  | cons c right =>
    exact iff_of_true ⟨c, rfl, h.word c (by simp)⟩ (List.cons_ne_nil c right)

/-- Wherever a line is cut, there is a word around the cut, if only one of no characters. -/
theorem exists_framed (before after : Text) : ∃ front left right back : Text,
    before = front ++ left ∧ after = right ++ back ∧ Framed front (left ++ right) back := by
  refine ⟨(before.reverse.dropWhile isWordChar).reverse, wordBefore before, wordAfter after,
    after.dropWhile isWordChar, ?_, List.takeWhile_append_dropWhile.symm, ?_, ?_, ?_⟩
  · rw [wordBefore, ← List.reverse_append, List.takeWhile_append_dropWhile, List.reverse_reverse]
  · intro c hc
    obtain hc | hc := List.mem_append.mp hc
    · exact List.all_eq_true.mp List.all_takeWhile c (List.mem_reverse.mp hc)
    · exact List.all_eq_true.mp List.all_takeWhile c hc
  · rw [List.getLast?_reverse]
    exact head?_dropWhile isWordChar before.reverse
  · exact head?_dropWhile isWordChar after

/-! ### The range by the parts -/

theorem cut?_eq_some_iff {before after : Text} : cut? line column = some (before, after) ↔
    line = before ++ after ∧ before.size = min column line.size :=
  splitAt?_eq_some_iff

theorem cut?_parts_iff : cut? line column = some (front ++ left, right ++ back) ↔
    line = front ++ (left ++ right ++ back) ∧ front.size + left.size = min column line.size := by
  rw [cut?_eq_some_iff, size_append, List.append_assoc, List.append_assoc]

theorem isSome_cut?_iff : (cut? line column).isSome ↔ line.IsBoundary (min column line.size) :=
  isSome_splitAt?_iff

theorem cut?_cases (line : Text) (column : Nat) : cut? line column = none ∨
    ∃ front left right back : Text, cut? line column = some (front ++ left, right ++ back) ∧
      Framed front (left ++ right) back := by
  cases hcut : cut? line column with
  | none => exact .inl rfl
  | some parts =>
    obtain ⟨before, after⟩ := parts
    obtain ⟨front, left, right, back, rfl, rfl, h⟩ := exists_framed before after
    exact .inr ⟨front, left, right, back, rfl, h⟩

theorem wordRange?_of_cut?_eq_none (hcut : cut? line column = none) :
    wordRange? line column = none := by
  rw [wordRange?, hcut]
  rfl

theorem wordRange?_of_cut? (hcut : cut? line column = some (front ++ left, right ++ back))
    (h : Framed front (left ++ right) back) : wordRange? line column =
      if 0 < (left ++ right).size then some (front.size, front.size + (left ++ right).size)
      else none := by
  have hstart : size (front ++ left) - left.size = front.size := by
    rw [size_append, Nat.add_sub_cancel]
  have hstop : size (front ++ left) + right.size = front.size + size (left ++ right) := by
    rw [size_append, size_append, Nat.add_assoc]
  rw [wordRange?, hcut]
  simp only [Option.bind_eq_bind, Option.bind_some, h.wordBefore, h.wordAfter, hstart, hstop,
    Nat.lt_add_right_iff_pos]

theorem exists_framed_of_wordRange? (h : wordRange? line column = some (start, stop)) :
    ∃ front left right back : Text, cut? line column = some (front ++ left, right ++ back) ∧
      Framed front (left ++ right) back ∧ front.size = start ∧
      start + (left ++ right).size = stop ∧ 0 < (left ++ right).size := by
  obtain hcut | ⟨front, left, right, back, hcut, hframed⟩ := cut?_cases line column
  · rw [wordRange?_of_cut?_eq_none hcut] at h
    cases h
  · rw [wordRange?_of_cut? hcut hframed] at h
    split at h
    · rename_i hpos
      cases h
      exact ⟨front, left, right, back, hcut, hframed, rfl, rfl, hpos⟩
    · cases h

theorem word?_of_cut? (hcut : cut? line column = some (front ++ left, right ++ back))
    (h : Framed front (left ++ right) back) : word? line column = some (left ++ right) := by
  simp only [word?, hcut, Option.map_some, h.wordBefore, h.wordAfter]

/-- There is a word where a word character is next to the offset, on either side. -/
theorem isSome_wordRange?_iff : (wordRange? line column).isSome ↔
    line.IsBoundary (min column line.size) ∧
      ((∃ c ∈ line.charBefore? (min column line.size), isWordChar c = true) ∨
        ∃ c ∈ line.charAfter? (min column line.size), isWordChar c = true) := by
  rw [← isSome_cut?_iff]
  obtain hcut | ⟨front, left, right, back, hcut, h⟩ := cut?_cases line column
  · rw [wordRange?_of_cut?_eq_none hcut, hcut]
    simp
  · obtain ⟨hline, hsize⟩ := cut?_eq_some_iff.mp hcut
    have hrange : (wordRange? line column).isSome ↔ 0 < size (left ++ right) := by
      rw [wordRange?_of_cut? hcut h]
      simp
    rw [hrange, hcut, ← hsize, hline, charBefore?_append, charAfter?_append, h.getLast?_iff,
      h.head?_iff, size_pos_iff, Ne, List.append_eq_nil_iff, not_and_or]
    simp

/-! ### Scanning by index -/

/-- The range of a word by two scans: back over the word characters in front of the offset, and on
to the first character that is none, or to the end of the line. -/
def scannedRange? (line : Text) (column : Nat) : Option (Nat × Nat) := do
  let n := min column line.size
  let (before, after) ← line.splitAt? n
  let back := (charIndices 0 before).reverse.takeWhile (isWordChar ·.2)
  let start := (back.getLast?.map (·.1)).getD n
  let stop := (((charIndices 0 after).find? (!isWordChar ·.2)).map (n + ·.1)).getD line.size
  if start < stop then some (start, stop) else none

/-- The scan back ends where the word starts. -/
theorem Framed.scan_back (h : Framed front (left ++ right) back) :
    (((charIndices 0 (front ++ left)).reverse.takeWhile (isWordChar ·.2)).getLast?.map
      (·.1)).getD (size (front ++ left)) = front.size := by
  have hback : (charIndices 0 (front ++ left)).reverse.takeWhile (isWordChar ·.2) =
      (charIndices front.size left).reverse := by
    rw [charIndices_append, List.reverse_append, Nat.zero_add]
    refine takeWhile_append_of_head? (fun x hx => ?_) fun x hx => ?_
    · have hmem := mem_of_mem_charIndices (List.mem_reverse.mp hx)
      exact h.word x.2 (List.mem_append_left right hmem)
    · rw [List.head?_reverse] at hx
      refine h.front x.2 ?_
      rw [← map_charIndices 0 front, List.getLast?_map]
      exact Option.mem_map_of_mem _ hx
  rw [hback, List.getLast?_reverse]
  cases left with
  | nil => simp [charIndices]
  | cons c left => rfl

/-- The scan on ends where the word does. -/
theorem Framed.scan_on (h : Framed front (left ++ right) back) (n : Nat) :
    (((charIndices 0 (right ++ back)).find? (!isWordChar ·.2)).map (n + ·.1)).getD
      (n + size (right ++ back)) = n + right.size := by
  have hright : (charIndices 0 right).find? (!isWordChar ·.2) = none := by
    refine List.find?_eq_none.mpr fun x hx => ?_
    simp [h.word x.2 (List.mem_append_right left (mem_of_mem_charIndices hx))]
  rw [charIndices_append, List.find?_append, hright, Option.none_or, Nat.zero_add]
  cases back with
  | nil => simp [charIndices]
  | cons c back =>
    rw [charIndices, List.find?_cons_of_pos (by simp [h.back c rfl])]
    rfl

theorem scannedRange?_eq (line : Text) (column : Nat) :
    scannedRange? line column = wordRange? line column := by
  obtain hcut | ⟨front, left, right, back, hcut, h⟩ := cut?_cases line column
  · have hsplit : line.splitAt? (min column line.size) = none := hcut
    rw [wordRange?_of_cut?_eq_none hcut, scannedRange?, hsplit]
    rfl
  · have hsplit : line.splitAt? (min column line.size) = some (front ++ left, right ++ back) := hcut
    obtain ⟨hline, hsize⟩ := cut?_eq_some_iff.mp hcut
    have hend : line.size = size (front ++ left) + size (right ++ back) := by
      rw [hline, size_append]
    rw [wordRange?_of_cut? hcut h]
    simp only [scannedRange?, hsplit, Option.bind_eq_bind, Option.bind_some]
    rw [← hsize, hend, h.scan_back, h.scan_on, size_append front, size_append left, Nat.add_assoc]
    simp only [Nat.lt_add_right_iff_pos]

/-! ### Whole words -/

/-- A stretch of a line, between two byte offsets, that is a word and not a part of a longer one. -/
structure IsWholeWord (line : Text) (start stop : Nat) : Prop where
  start_lt_stop : start < stop
  isBoundary_start : line.IsBoundary start
  isBoundary_stop : line.IsBoundary stop
  word : ∃ word, line.slice? start stop = some word ∧ ∀ c ∈ word, isWordChar c = true
  front : ∀ c ∈ line.charBefore? start, isWordChar c = false
  back : ∀ c ∈ line.charAfter? stop, isWordChar c = false

theorem isWholeWord_iff : IsWholeWord line start stop ↔ ∃ front word back : Text,
    line = front ++ (word ++ back) ∧ front.size = start ∧ start + word.size = stop ∧
      0 < word.size ∧ Framed front word back := by
  constructor
  · intro h
    obtain ⟨word, hslice, hword⟩ := h.word
    obtain ⟨front, back, rfl, rfl, rfl⟩ := slice?_eq_some_iff.mp hslice
    have hfront := h.front
    have hback := h.back
    rw [charBefore?_append] at hfront
    rw [← List.append_assoc, ← size_append, charAfter?_append] at hback
    exact ⟨front, word, back, rfl, rfl, rfl, Nat.lt_add_right_iff_pos.mp h.start_lt_stop, hword,
      hfront, hback⟩
  · rintro ⟨front, word, back, rfl, rfl, rfl, hpos, h⟩
    have hstop : front ++ (word ++ back) = front ++ word ++ back := (List.append_assoc ..).symm
    refine ⟨Nat.lt_add_right_iff_pos.mpr hpos, isBoundary_append front _, ?_,
      ⟨word, slice?_append front word back, h.word⟩, ?_, ?_⟩
    · rw [hstop, ← size_append]
      exact isBoundary_append _ back
    · rw [charBefore?_append]
      exact h.front
    · rw [hstop, ← size_append, charAfter?_append]
      exact h.back

theorem isNarrow_isWordChar : Pattern.IsNarrow isWordChar :=
  (((Pattern.isNarrow_isLetter.or Pattern.isNarrow_isDigit).or
    (Pattern.isNarrow_beq (by decide))).or (Pattern.isNarrow_beq (by decide))).or
    (Pattern.isNarrow_beq (by decide))

theorem utf8Size_of_isWordChar {c : Char} (h : isWordChar c = true) : c.utf8Size = 1 := by
  refine Char.utf8Size_eq_one_iff.mpr (UInt32.le_iff_toNat_le.mpr (Nat.not_lt.mp fun hwide => ?_))
  rw [isNarrow_isWordChar c hwide] at h
  cases h

/-- An offset between the ends of a word cuts it in two. -/
theorem exists_cut (hword : ∀ c ∈ word, isWordChar c = true) (hstart : front.size ≤ n)
    (hstop : n ≤ front.size + word.size) :
    ∃ left right : Text, word = left ++ right ∧ front.size + left.size = n := by
  have hnarrow : ∀ c ∈ word, c.utf8Size = 1 := fun c hc => utf8Size_of_isWordChar (hword c hc)
  refine ⟨word.take (n - front.size), word.drop (n - front.size),
    (List.take_append_drop _ word).symm, ?_⟩
  rw [size_of_narrow fun c hc => hnarrow c (List.mem_of_mem_take hc), List.length_take]
  rw [size_of_narrow hnarrow] at hstop
  omega

/-- The range is that of the whole word that the offset is in or at an end of, and there is one such
word at most. -/
theorem wordRange?_eq_some_iff : wordRange? line column = some (start, stop) ↔
    IsWholeWord line start stop ∧ start ≤ min column line.size ∧ min column line.size ≤ stop := by
  rw [isWholeWord_iff]
  constructor
  · intro h
    obtain ⟨front, left, right, back, hcut, hframed, rfl, rfl, hpos⟩ :=
      exists_framed_of_wordRange? h
    obtain ⟨hline, hsize⟩ := cut?_parts_iff.mp hcut
    rw [← hsize, size_append]
    exact ⟨⟨front, left ++ right, back, hline, rfl, by rw [size_append], hpos, hframed⟩,
      Nat.le_add_right .., by omega⟩
  · rintro ⟨⟨front, word, back, hline, rfl, rfl, hpos, hframed⟩, hstart, hstop⟩
    -- The line is cut inside of the word, so that the word is found from both sides of the cut.
    obtain ⟨left, right, rfl, hsize⟩ := exists_cut hframed.word hstart hstop
    rw [wordRange?_of_cut? (cut?_parts_iff.mpr ⟨hline, hsize⟩) hframed, if_pos hpos]

example : wordRange? "é <OP_ADD".toList 99 = some (4, 10) := by decide

example : wordRange? "éOP_ADD".toList 1 = none := by decide

/-- **The range is that of the whole word at the offset**, where an offset beyond the line stands
for its end. There is one exactly when the offset falls between two characters, or at an end, and a
word character is next to it; and two scans by index find it. -/
theorem wordRange?_maximal (line : Text) (column : Nat) :
    let n := min column line.size
    ((wordRange? line column).isSome ↔ line.IsBoundary n ∧
      ((∃ c ∈ line.charBefore? n, isWordChar c = true) ∨
        ∃ c ∈ line.charAfter? n, isWordChar c = true)) ∧
    (∀ start stop : Nat, wordRange? line column = some (start, stop) ↔
      IsWholeWord line start stop ∧ start ≤ n ∧ n ≤ stop) ∧
    scannedRange? line column = wordRange? line column :=
  ⟨isSome_wordRange?_iff, fun _ _ => wordRange?_eq_some_iff, scannedRange?_eq line column⟩

/-! ### The hover of a word -/

/-- Any offset between the ends of a word finds it. -/
theorem wordRange?_between (h : wordRange? line column = some (start, stop)) (hstart : start ≤ n)
    (hstop : n ≤ stop) : wordRange? line n = some (start, stop) := by
  obtain ⟨hword, -, -⟩ := wordRange?_eq_some_iff.mp h
  rw [wordRange?_eq_some_iff, Nat.min_eq_left (hstop.trans hword.isBoundary_stop.le_size)]
  exact ⟨hword, hstart, hstop⟩

/-- The word is what stands at its range. -/
theorem slice?_of_wordRange? (h : wordRange? line column = some (start, stop)) :
    line.slice? start stop = word? line column := by
  obtain ⟨front, left, right, back, hcut, hframed, rfl, rfl, -⟩ := exists_framed_of_wordRange? h
  rw [word?_of_cut? hcut hframed, slice?_eq_some_iff]
  exact ⟨front, back, (cut?_parts_iff.mp hcut).1, rfl, rfl⟩

/-- The hover is the same all over a word, its ends included. -/
theorem ofPosition_between {lines : List Text} {row : Nat} (r : RuleSet)
    (hline : lines[row]? = some line) (h : wordRange? line column = some (start, stop))
    (hstart : start ≤ n) (hstop : n ≤ stop) :
    ofPosition r lines row n = ofPosition r lines row column := by
  have hn := wordRange?_between h hstart hstop
  have hword : word? line n = word? line column := by
    rw [← slice?_of_wordRange? hn, slice?_of_wordRange? h]
  have hopcode : opcode? r row line n = opcode? r row line column := by
    rw [opcode?, opcode?, hn, h, hword]
  rw [ofPosition, ofPosition, hline, Option.bind_some, Option.bind_some, hopcode]

end ScriptBench.Hover
