import ScriptBench.Frame
import ScriptBench.Proofs.Layout.Anchored
import ScriptBench.Proofs.Opcode.Table

/-! What a list of suggestions looks like on the screen.

At most eight suggestions are chosen for it so that the selected one is always among them: the
first eight, until the selected one is none of these and becomes the last of those that are chosen.
Their lines go into a box, which is cut to the area that it is in, and its height has no part in
the choice. So the lines at the end are left out when the area is too low for all of them, and
`CompletionPopup.highlights_iff` says when the selected one is. -/
namespace ScriptBench

namespace Rect
variable {r : Rect} {p : Position}

theorem Fits.contains_inner_iff (h : r.Fits) :
    r.inner.contains p = true ↔
      (r.x < p.x ∧ p.x + 1 < r.x + r.width) ∧ (r.y < p.y ∧ p.y + 1 < r.y + r.height) := by
  have hright := h.right
  have hbottom := h.bottom
  simp only [contains, Bool.and_eq_true, decide_eq_true_eq]
  unfold Rect.right Rect.bottom inner
  dsimp only
  omega

theorem Fits.contains_of_inner (h : r.Fits) (hp : r.inner.contains p = true) :
    r.contains p = true := by
  rw [h.contains_iff]
  have hinner := h.contains_inner_iff.mp hp
  omega

end Rect

/-! ### A box on a screen -/

/-- A screen has a ground in an area, and on it lines that are cut where the area ends. -/
def Screen.Shows (s : Screen) (area : Rect) (ground : Cell) (ls : List Line) : Prop :=
  ∀ p, area.contains p = true → s.at? p = some (Layer.lines area ls p ground)

/-- An empty line writes nothing. -/
theorem Layer.lines_empty (area : Rect) (p : Position) (c : Cell) :
    lines area [[]] p c = c := by
  unfold lines
  cases p.y - area.y <;> simp

namespace Box
variable {area : Rect} {p : Position}

theorem borderChar?_of_inner (harea : area.Fits) (hp : area.inner.contains p = true) :
    borderChar? area p = none := by
  obtain ⟨⟨hleft, hright⟩, htop, hbottom⟩ := harea.contains_inner_iff.mp hp
  have hnotLeft : (p.x == area.x) = false := by simpa using by omega
  have hnotRight : (p.x + 1 == area.right) = false := by
    rw [harea.right_eq]
    simpa using by omega
  have hnotTop : (p.y == area.y) = false := by simpa using by omega
  have hnotBottom : (p.y + 1 == area.bottom) = false := by
    rw [harea.bottom_eq]
    simpa using by omega
  simp [borderChar?, hnotLeft, hnotRight, hnotTop, hnotBottom]

/-- Inside the border of a box are its ground and its lines. -/
theorem foldl_layers (harea : area.Fits) (hp : area.inner.contains p = true)
    (border ground : Style) (content : List Line) (c : Cell) :
    (layers { area, border, ground } content).foldl (fun c l => l p c) c =
      Layer.lines area.inner content p (c.under ground) := by
  have hcontains := harea.contains_of_inner hp
  have hborder : borderLayer area border p (c.under ground) = c.under ground := by
    rw [borderLayer, if_pos hcontains, borderChar?_of_inner harea hp]
  simp only [layers, List.foldl_cons, List.foldl_nil, noteLayer, titleLayer, footerLayer,
    Layer.lineAtRight, List.drop_nil, Layer.lines_empty]
  rw [Layer.tint, if_pos hcontains, hborder]

end Box

namespace Popup
variable {border : Color} {anchor : Position} {bounds area : Rect} {content : List Line}

/-- An empty cell of a popup. -/
def ground : Cell := ⟨' ', .papered Theme.popup⟩

/-- A popup whose box has a place is drawn. -/
theorem exists_layers? (hbox : box? anchor bounds content = some area) (border : Color) :
    ∃ layers, layers? border anchor bounds content = some layers :=
  ⟨_, congrArg (Option.bind · _) hbox⟩

/-- Whatever is drawn before, inside the border of the box are the lines of the popup. -/
theorem foldl_layers {layers : List Layer}
    (hlayers : layers? border anchor bounds content = some layers)
    (hbox : box? anchor bounds content = some area) (harea : area.Fits) {p : Position}
    (hp : area.inner.contains p = true) (c : Cell) :
    layers.foldl (fun c l => l p c) c = Layer.lines area.inner content p ground := by
  have hclear : Layer.clear area p c = .blank := if_pos (harea.contains_of_inner hp)
  rw [layers?, hbox] at hlayers
  rw [← Option.some.inj hlayers, List.foldl_cons, hclear, Box.foldl_layers harea hp]
  rfl

end Popup

namespace CompletionPopup

/-- The lines of the popup. -/
def content (items : List Suggestion) (selected : Nat) : List Line :=
  itemLines items selected ++ docLines items selected

variable {anchor : Position} {bounds : Rect} {items : List Suggestion} {selected : Nat}

theorem layers?_of_ne_nil (hitems : items ≠ []) :
    layers? anchor bounds items selected =
      Popup.layers? Theme.border anchor bounds (content items selected) := by
  rw [layers?, if_neg (by simpa using hitems)]
  rfl

/-! ### The selected line -/

/-- The row of the selected suggestion among those that are chosen. -/
def selectedRow (selected : Nat) : Nat := selected - firstRow selected

theorem selectedRow_eq (selected : Nat) : selectedRow selected = min selected 7 := by
  unfold selectedRow firstRow maxRows
  omega

theorem firstRow_add_selectedRow (selected : Nat) :
    firstRow selected + selectedRow selected = selected := by
  unfold selectedRow firstRow maxRows
  omega

/-- The suggestions that are chosen. -/
def chosen (items : List Suggestion) (selected : Nat) : List Suggestion :=
  (items.drop (firstRow selected)).take maxRows

/-- The width of the longest label among them. -/
def labelWidth (items : List Suggestion) (selected : Nat) : Nat :=
  ((chosen items selected).map (·.label.length)).max?.getD 0

theorem getElem?_itemLines (items : List Suggestion) (selected i : Nat) :
    (itemLines items selected)[i]? = (chosen items selected)[i]?.map fun item =>
      (itemStyle (firstRow selected + i == selected)).line
        (itemText (labelWidth items selected) item) :=
  List.getElem?_mapIdx

/-- The selected suggestion is one of those that are chosen. -/
theorem getElem?_chosen {item : Suggestion} (hitem : items[selected]? = some item) :
    (chosen items selected)[selectedRow selected]? = some item := by
  have hrow : selectedRow selected < maxRows := by
    rw [selectedRow_eq]
    unfold maxRows
    omega
  rw [chosen, List.getElem?_take_of_lt hrow, List.getElem?_drop, firstRow_add_selectedRow, hitem]

/-- Its line is among those of the popup, in the style of what is selected. -/
theorem getElem?_content {item : Suggestion} (hitem : items[selected]? = some item) :
    (content items selected)[selectedRow selected]? =
      some ((itemStyle true).line (itemText (labelWidth items selected) item)) := by
  have hline := getElem?_itemLines items selected (selectedRow selected)
  rw [getElem?_chosen hitem, firstRow_add_selectedRow, beq_self_eq_true] at hline
  rw [content, List.getElem?_append_left (List.getElem?_eq_some_iff.mp hline).1]
  exact hline

theorem style_of_mem_line {style : Style} {t : Text} {cell : Cell} (h : cell ∈ style.line t) :
    cell.style = style := by
  obtain ⟨c, -, rfl⟩ := List.mem_map.mp h
  rfl

theorem itemStyle_highlighted_iff {isSelected : Bool} :
    (itemStyle isSelected).paper = some Theme.primary ↔ isSelected = true := by
  cases isSelected <;> decide

/-- No other line has a cell that is highlighted. -/
theorem eq_selectedRow_of_highlighted {i : Nat} {l : Line}
    (hl : (content items selected)[i]? = some l) {cell : Cell} (hcell : cell ∈ l)
    (hpaper : cell.style.paper = some Theme.primary) : i = selectedRow selected := by
  rw [content, List.getElem?_append] at hl
  split at hl
  · rw [getElem?_itemLines] at hl
    obtain ⟨item, -, rfl⟩ := Option.map_eq_some_iff.mp hl
    rw [style_of_mem_line hcell, itemStyle_highlighted_iff, beq_iff_eq] at hpaper
    have hrow := firstRow_add_selectedRow selected
    omega
  · have hdoc := List.mem_of_getElem? hl
    unfold docLines at hdoc
    split at hdoc
    · rw [List.mem_singleton.mp hdoc] at hcell
      rw [style_of_mem_line hcell] at hpaper
      cases hpaper
    · cases hdoc

end CompletionPopup

/-- A cell of an area has the colour behind it that marks what is selected. -/
def Screen.Highlights (s : Screen) (area : Rect) : Prop :=
  ∃ p cell, area.contains p = true ∧ s.at? p = some cell ∧ cell.style.paper = some Theme.primary

namespace CompletionPopup
variable {items : List Suggestion} {selected : Nat}

/-- The selected suggestion is on the screen exactly when the box has room for its row. -/
theorem highlights_iff {s : Screen} {area : Rect} (harea : area.Fits)
    (hselected : selected < items.length)
    (hshows : s.Shows area.inner Popup.ground (content items selected)) :
    s.Highlights area.inner ↔ 2 < area.width ∧ selectedRow selected + 2 < area.height := by
  constructor
  · rintro ⟨p, cell, hp, hcell, hpaper⟩
    obtain ⟨⟨hleft, hright⟩, htop, hbottom⟩ := harea.contains_inner_iff.mp hp
    rw [hshows p hp, Option.some.injEq, Layer.lines, if_pos hp] at hcell
    split at hcell
    · rename_i glyph hglyph
      obtain ⟨l, hl, hcolumn⟩ := Option.bind_eq_some_iff.mp hglyph
      have hglyphPaper : glyph.style.paper = some Theme.primary := by
        rw [← hcell] at hpaper
        refine (Option.or_eq_some_iff.mp hpaper).resolve_right fun h => ?_
        exact absurd h.2 (by decide)
      have hrow := eq_selectedRow_of_highlighted hl (List.mem_of_getElem? hcolumn) hglyphPaper
      simp only [Rect.inner] at hrow
      omega
    · rw [← hcell] at hpaper
      exact absurd hpaper (by decide)
  · rintro ⟨hwidth, hheight⟩
    have hline := getElem?_content (List.getElem?_eq_getElem hselected)
    have hp : area.inner.contains ⟨area.x + 1, area.y + 1 + selectedRow selected⟩ = true := by
      rw [harea.contains_inner_iff]
      dsimp only
      omega
    refine ⟨_, _, hp, hshows _ hp, ?_⟩
    rw [Layer.lines, if_pos hp]
    simp only [Rect.inner, Nat.add_sub_cancel_left, Nat.sub_self, hline, Option.bind_some]
    rfl

end CompletionPopup

/-! ### The size of the box -/

/-- A string has at most as many characters as bytes. -/
theorem length_le_utf8ByteSize (s : String) : s.length ≤ s.utf8ByteSize := by
  have hbytes (t : List Char) : t.length ≤ (t.flatMap String.utf8EncodeChar).length := by
    induction t with
    | nil => exact Nat.le_refl 0
    | cons c rest ih =>
      have hsize := c.utf8Size_pos
      simp only [List.flatMap_cons, List.length_append, List.length_cons,
        String.length_utf8EncodeChar]
      omega
  have hsize : s.utf8ByteSize = (s.toList.flatMap String.utf8EncodeChar).length := by
    rw [← String.size_toByteArray, ← String.utf8Encode_toList, List.utf8Encode,
      List.size_toByteArray]
  rw [hsize, ← String.length_toList]
  exact hbytes s.toList

theorem Opcode.size_summary {word doc : String} (h : summary? word = some doc) :
    doc.utf8ByteSize ≤ 100 := by
  have htable : ∀ entry ∈ summaries, entry.2.utf8ByteSize ≤ 100 := by decide +kernel
  have hnumbers : ∀ n ≤ 16, s!"Push the number {n}.".utf8ByteSize ≤ 100 := by decide +kernel
  unfold summary? at h
  split at h
  · rename_i n hn
    obtain ⟨-, hbounds⟩ := Option.filter_eq_some_iff.mp hn
    rw [Bool.and_eq_true, decide_eq_true_eq, decide_eq_true_eq] at hbounds
    cases h
    exact hnumbers n hbounds.2
  · obtain ⟨entry, hentry, rfl⟩ := Option.map_eq_some_iff.mp h
    exact htable entry (List.mem_of_find?_eq_some hentry)

namespace Suggestion

/-- The texts of a suggestion are far shorter than the widest box there can be. -/
structure Short (s : Suggestion) : Prop where
  label : s.label.length ≤ 100
  doc : ∀ doc, s.doc = some doc → doc.length ≤ 100

theorem Short.of_size {s : Suggestion} (hlabel : s.label.utf8ByteSize ≤ 100)
    (hdoc : ∀ doc, s.doc = some doc → doc.utf8ByteSize ≤ 100) : s.Short where
  label := Nat.le_trans (length_le_utf8ByteSize _) hlabel
  doc := fun _ h => Nat.le_trans (length_le_utf8ByteSize _) (hdoc _ h)

theorem short_of_mem_all {r : RuleSet} {item : Suggestion} (h : item ∈ all r) : item.Short := by
  have hwords : ∀ o ∈ opcodes, ∀ w ∈ o.words, w.utf8ByteSize ≤ 100 := by decide +kernel
  have hsnippets : ∀ item ∈ snippets, item.label.utf8ByteSize ≤ 100 ∧
      ∀ doc ∈ item.doc, doc.utf8ByteSize ≤ 100 := by decide +kernel
  obtain hitem | hitem := List.mem_append.mp h
  · obtain ⟨⟨word, byte⟩, hword, rfl⟩ := List.mem_map.mp hitem
    obtain ⟨o, ho, hmem⟩ := RuleSet.exists_of_mem_words hword
    exact .of_size (hwords o (RuleSet.mem_opcodes ho) _ hmem) fun _ => Opcode.size_summary
  · obtain ⟨hlabel, hdoc⟩ := hsnippets item hitem
    exact .of_size hlabel hdoc

end Suggestion

namespace CompletionPopup
variable {items : List Suggestion} {selected : Nat}

theorem length_content_le (items : List Suggestion) (selected : Nat) :
    (content items selected).length ≤ 9 := by
  have hitems : (itemLines items selected).length ≤ 8 := by
    rw [itemLines, List.length_mapIdx]
    exact List.length_take_le ..
  have hdoc : (docLines items selected).length ≤ 1 := by
    unfold docLines
    split <;> simp
  rw [content, List.length_append]
  omega

theorem length_itemText (width : Nat) (s : Suggestion) :
    (itemText width s).length = max width s.label.length + 3 := by
  simp only [itemText, padded, List.length_cons, List.length_append, List.length_replicate,
    List.length_nil, String.length_toList]
  omega

theorem length_line (style : Style) (t : Text) : (style.line t).length = t.length :=
  List.length_map ..

theorem mem_of_mem_chosen {item : Suggestion} (h : item ∈ chosen items selected) : item ∈ items :=
  List.mem_of_mem_drop (List.mem_of_mem_take h)

theorem max?_getD_le {l : List Nat} {k : Nat} (h : ∀ n ∈ l, n ≤ k) : l.max?.getD 0 ≤ k := by
  cases hmax : l.max? with
  | none => exact Nat.zero_le k
  | some n => exact h n (List.max?_mem hmax)

theorem length_le_of_mem_content (hshort : ∀ item ∈ items, item.Short) {l : Line}
    (hl : l ∈ content items selected) : l.length ≤ 103 := by
  obtain hl | hl := List.mem_append.mp hl
  · have hwidth : labelWidth items selected ≤ 100 := by
      refine max?_getD_le fun n hn => ?_
      obtain ⟨item, hitem, rfl⟩ := List.mem_map.mp hn
      exact (hshort item (mem_of_mem_chosen hitem)).label
    obtain ⟨i, hi⟩ := List.getElem?_of_mem hl
    rw [getElem?_itemLines] at hi
    obtain ⟨item, hitem, rfl⟩ := Option.map_eq_some_iff.mp hi
    have hlabel := (hshort item (mem_of_mem_chosen (List.mem_of_getElem? hitem))).label
    rw [length_line, length_itemText]
    omega
  · unfold docLines at hl
    split at hl
    · rename_i doc hdoc
      obtain ⟨item, hitem, hdoc⟩ := Option.bind_eq_some_iff.mp (Option.filter_eq_some_iff.mp hdoc).1
      have hlength := (hshort item (List.mem_of_getElem? hitem)).doc doc hdoc
      rw [List.mem_singleton.mp hl, Style.write, length_line, String.length_toList]
      omega
    · cases hl

/-- The box of short suggestions is cut to the area that it is in, and nothing else makes it too
small for the selected one. -/
theorem exists_box? (anchor : Position) {bounds : Rect} (hbounds : bounds.Fits)
    (hcells : bounds.width * bounds.height ≤ maxWord)
    (hroom : bounds.y + bounds.height + 11 ≤ maxWord) (htop : bounds.y ≤ anchor.y)
    (hbottom : anchor.y < bounds.y + bounds.height) (hselected : selected < items.length)
    (hshort : ∀ item ∈ items, item.Short) :
    ∃ box, Popup.box? anchor bounds (content items selected) = some box ∧ box.Within bounds ∧
      (2 < box.width ↔ 2 < bounds.width) ∧
      (selectedRow selected + 2 < box.height ↔ selectedRow selected + 2 < bounds.height) := by
  have hline := getElem?_content (List.getElem?_eq_getElem hselected)
  have hrow : selectedRow selected < (content items selected).length :=
    (List.getElem?_eq_some_iff.mp hline).1
  have hrows := length_content_le items selected
  have hleast : 3 ≤ ((content items selected).map List.length).max?.getD 0 := by
    have hmem := List.mem_map_of_mem (f := List.length) (List.mem_of_getElem? hline)
    have hle := List.le_max?_getD_of_mem (k := 0) hmem
    rw [length_line, length_itemText] at hle
    exact Nat.le_trans (Nat.le_add_left ..) hle
  have hmost : ((content items selected).map List.length).max?.getD 0 ≤ 103 := by
    refine max?_getD_le fun n hn => ?_
    obtain ⟨l, hl, rfl⟩ := List.mem_map.mp hn
    exact length_le_of_mem_content hshort hl
  unfold Popup.box?
  generalize ((content items selected).map List.length).max?.getD 0 = width at hleast hmost
  generalize (content items selected).length = height at hrow hrows
  have hend := hbounds.bottom_eq
  obtain ⟨box, hbox, ⟨hwithin, -⟩, hw, hh⟩ := @Rect.exists_anchored? bounds anchor (width + 2)
    (height + 2) (Rect.cells_cut_le hcells) htop (by omega) (by omega)
  refine ⟨box, ?_, hwithin, by omega, by omega⟩
  rw [word_of_le (Nat.le_trans hmost (by decide)), word_of_le (Nat.le_trans hrows (by decide)),
    word?_of_le (Nat.le_trans (Nat.add_le_add_right hmost 2) (by decide)),
    word?_of_le (Nat.le_trans (Nat.add_le_add_right hrows 2) (by decide))]
  exact hbox

end CompletionPopup

end ScriptBench
