import ScriptBench.Proofs.Frame.CompletionPopup

/-! Popups that always have a place.

A popup has no place only where a coordinate of it is no word. Its lines are short, those of a hover
as well as those of a list of suggestions, and there are few of them; so it has a place wherever a
few rows below its anchor are words. -/
namespace ScriptBench

namespace Rect
variable {anchor : Position}

/-- Only the row below the box may be no word. -/
theorem isSome_anchored? (width : Nat) {height : Nat} (h : anchor.y + 1 + height ≤ maxWord)
    (bounds : Rect) : (anchored? anchor width height bounds).isSome = true := by
  have hbottom : word? (min (anchor.y + 1) maxWord + min height bounds.height) =
      some (min (anchor.y + 1) maxWord + min height bounds.height) := word?_of_le (by omega)
  simp only [anchored?, hbottom, Option.bind_eq_bind, Option.bind_some, Option.isSome_some]

end Rect

namespace Popup
variable {anchor : Position} {content : List Line}

/-- Few short lines. -/
structure Short (content : List Line) : Prop where
  rows : content.length ≤ 9
  columns : ∀ l ∈ content, l.length ≤ 200

theorem Short.isSome_layers? (h : Short content) (hroom : anchor.y + 12 ≤ maxWord) (border : Color)
    (bounds : Rect) : (layers? border anchor bounds content).isSome = true := by
  have hrows := h.rows
  have hcolumns : (content.map List.length).max?.getD 0 ≤ 200 := by
    refine CompletionPopup.max?_getD_le fun n hn => ?_
    obtain ⟨l, hl, rfl⟩ := List.mem_map.mp hn
    exact h.columns l hl
  unfold layers? box?
  generalize (content.map List.length).max?.getD 0 = width at hcolumns
  rw [word_of_le (Nat.le_trans hcolumns (by decide)), word_of_le (Nat.le_trans hrows (by decide)),
    word?_of_le (Nat.le_trans (Nat.add_le_add_right hcolumns 2) (by decide)),
    word?_of_le (Nat.le_trans (Nat.add_le_add_right hrows 2) (by decide))]
  have hplace : (Rect.anchored? anchor (width + 2) (content.length + 2) bounds).isSome = true :=
    Rect.isSome_anchored? (width + 2) (by omega) bounds
  obtain ⟨box, hbox⟩ := Option.isSome_iff_exists.mp hplace
  simp only [Option.bind_eq_bind, Option.bind_some, hbox, Option.isSome_some]

end Popup

/-! ### Suggestions -/

theorem CompletionPopup.isSome_layers? {anchor : Position} {items : List Suggestion}
    (hshort : ∀ item ∈ items, item.Short) (hroom : anchor.y + 12 ≤ maxWord) (bounds : Rect)
    (selected : Nat) : (layers? anchor bounds items selected).isSome = true := by
  by_cases hitems : items = []
  · subst hitems
    rfl
  · have hcontent : Popup.Short (content items selected) :=
      ⟨length_content_le items selected,
        fun l hl => Nat.le_trans (length_le_of_mem_content hshort hl) (by decide)⟩
    rw [layers?_of_ne_nil hitems]
    exact hcontent.isSome_layers? hroom Theme.border bounds

/-! ### Hovers -/

namespace Hover

/-- A hover has three lines at most, and none of them is long. -/
structure Short (h : Hover) : Prop where
  rows : h.contents.length ≤ 3
  columns : ∀ l ∈ h.contents, l.length ≤ 120

theorem short_source (lines : List Text) : (source lines).Short :=
  ⟨(by decide : 2 ≤ 3), (by decide : ∀ l ∈ ["**SOURCE**", "Stack script source"], l.length ≤ 120)⟩

theorem length_hexByte (b : UInt8) : (Bytes.hexByte b).length = 4 := by
  rw [Bytes.hexByte, String.length_append, Bytes.hex, String.length_ofList]
  simp [Bytes.hexDigits]

theorem length_name_le (r : RuleSet) : r.name.length ≤ 20 := by
  obtain ⟨network, version⟩ := r
  cases network <;> cases version <;> decide +kernel

/-- The word of an opcode is among those of the table. -/
theorem length_word_le {r : RuleSet} {word : String} {o : Opcode} (h : r.opcode? word = some o) :
    word.length ≤ 100 := by
  have hwords : ∀ o ∈ opcodes, ∀ w ∈ o.words, w.utf8ByteSize ≤ 100 := by decide +kernel
  have hmem : word ∈ o.words := by simpa using List.find?_some h
  have hknown := RuleSet.mem_opcodes (List.mem_of_find?_eq_some h)
  exact Nat.le_trans (length_le_utf8ByteSize word) (hwords o hknown word hmem)

theorem length_le_of_mem_opcodeContents {r : RuleSet} {word : String} {o : Opcode}
    (h : r.opcode? word = some o) : ∀ l ∈ opcodeContents r word o, l.length ≤ 120 := by
  have hword := length_word_le h
  have hname := length_name_le r
  intro l hl
  obtain rfl | hl := List.mem_cons.mp hl
  · have hopening : "**".length = 2 := rfl
    have hmiddle : "** \x60".length = 4 := rfl
    have hclosing : "\x60".length = 1 := rfl
    have hbyte := length_hexByte o.byte
    simp only [String.length_append, toString]
    omega
  obtain hl | hl := List.mem_append.mp hl
  · have hsize := Opcode.size_summary (Option.mem_toList.mp hl)
    exact Nat.le_trans (length_le_utf8ByteSize l) (Nat.le_trans hsize (by decide))
  · split at hl
    · have hopening : "Disabled on ".length = 12 := rfl
      have hclosing : ".".length = 1 := rfl
      rw [List.mem_singleton.mp hl]
      simp only [String.length_append, toString]
      omega
    · cases hl

theorem length_opcodeContents_le (r : RuleSet) (word : String) (o : Opcode) :
    (opcodeContents r word o).length ≤ 3 := by
  have hsummary : (Opcode.summary? word).toList.length ≤ 1 := by
    cases Opcode.summary? word <;> simp
  rw [opcodeContents, List.length_cons, List.length_append]
  split
  · rw [List.length_singleton]
    omega
  · rw [List.length_nil]
    omega

theorem short_opcode? {r : RuleSet} {row column : Nat} {line : Text} {h : Hover}
    (hh : opcode? r row line column = some h) : h.Short := by
  simp only [opcode?, Option.bind_eq_bind, Option.bind_eq_some_iff, Option.some.injEq] at hh
  obtain ⟨range, -, letters, -, o, ho, rfl⟩ := hh
  exact ⟨length_opcodeContents_le .., length_le_of_mem_opcodeContents ho⟩

theorem short_ofPosition (r : RuleSet) (lines : List Text) (row column : Nat) :
    (ofPosition r lines row column).Short := by
  unfold ofPosition
  split
  · rename_i h hh
    obtain ⟨line, -, hh⟩ := Option.bind_eq_some_iff.mp hh
    exact short_opcode? hh
  · exact short_source lines

end Hover

namespace HoverPopup

/-- Nothing is added to a text when it is marked. -/
theorem length_marked_le (isStrong : Bool) (t : Text) : (marked isStrong t).length ≤ t.length := by
  induction isStrong, t using marked.induct with
  | case1 => exact Nat.le_refl 0
  | case2 isStrong rest ih =>
    rw [marked]
    simp only [List.length_cons]
    omega
  | case3 isStrong rest hopen ih =>
    rw [marked.eq_3 _ _ _ hopen, if_pos rfl]
    exact Nat.le_succ_of_le ih
  | case4 isStrong c rest hopen hcode ih =>
    rw [marked.eq_3 _ _ _ hopen, if_neg hcode]
    exact Nat.succ_le_succ ih

theorem isSome_layers? {anchor : Position} {h : Hover} (hshort : h.Short)
    (hroom : anchor.y + 12 ≤ maxWord) (bounds : Rect) :
    (layers? anchor bounds h).isSome = true := by
  have hcontent : Popup.Short (h.contents.map (marked false ·.toList)) := by
    constructor
    · rw [List.length_map]
      exact Nat.le_trans hshort.rows (by decide)
    · intro l hl
      obtain ⟨t, ht, rfl⟩ := List.mem_map.mp hl
      have hlength := length_marked_le false t.toList
      rw [String.length_toList] at hlength
      exact Nat.le_trans hlength (Nat.le_trans (hshort.columns t ht) (by decide))
  exact hcontent.isSome_layers? hroom Theme.secondary bounds

end HoverPopup

end ScriptBench
