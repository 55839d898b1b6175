import ScriptBench.Proofs.Frame.CompletionPopup
import ScriptBench.Proofs.Layout.EditorArea
import ScriptBench.Proofs.Layout.Reduced
import ScriptBench.Proofs.Layout.Tiling
import ScriptBench.Proofs.Session.Accepting
import ScriptBench.Proofs.Session.Dividers

/-! The selected suggestion of an open list.

In every session, an open list is for a word, has suggestions for it, and one of them is selected;
so accepting always puts a suggestion into the editor. The popup has a line for the selected one
too, but not always a row: it shows its lines from the first one on, as far as the screen has room
for them, and the selected one is not among them when the screen is too low. -/
namespace ScriptBench

/-! ### The popup on the screen -/

theorem Screen.at?_blank {width height : Nat} {p : Position} (hx : p.x < width)
    (hy : p.y < height) : (blank width height).at? p = some .blank := by
  simp [at?, blank, hx, hy]

/-- The editors begin at the left of the area that is split, and are not larger than it is. -/
theorem Quadrants.size_editor {area r : Rect} {o : PaneOffset} (ho : o.Limited)
    (hr : r = (split area o).stackEditor ∨ r = (split area o).witnessEditor) :
    r.x = area.x ∧ r.width ≤ area.width ∧ r.height ≤ area.height := by
  have hcolumns := Rect.share_le (area.right - area.x) (PaneOffset.firstShare_le ho.1)
  have hrows := Rect.share_le (area.bottom - area.y) (PaneOffset.firstShare_le ho.2)
  have hwidth : area.right - area.x ≤ area.width := by
    unfold Rect.right
    omega
  have hheight : area.bottom - area.y ≤ area.height := by
    unfold Rect.bottom
    omega
  obtain rfl | rfl := hr
  · exact ⟨rfl, Nat.le_trans hcolumns hwidth, Nat.le_trans hrows hheight⟩
  · exact ⟨rfl, Nat.le_trans hcolumns hwidth, Nat.le_trans (Nat.sub_le ..) hheight⟩

namespace Session
variable {s : Session} {width height : Nat} {anchor : Position}

theorem focusedArea_eq (s : Session) (v : View) :
    s.focusedArea v = v.quadrants.stackEditor ∨ s.focusedArea v = v.quadrants.witnessEditor := by
  unfold focusedArea
  cases s.focus
  · exact .inl rfl
  · exact .inr rfl

/-- The focused editor is in the area of the panes. -/
theorem within_focusedArea {screen : Rect} (hpanes : (View.ofScreen screen s.offset).panes.Fits)
    (hlimited : s.offset.Limited) : (s.focusedArea (View.ofScreen screen s.offset)).Within
      (View.ofScreen screen s.offset).panes := by
  refine (Quadrants.tile_split hpanes hlimited).within _ ?_
  obtain h | h := focusedArea_eq s (View.ofScreen screen s.offset)
  · exact h ▸ List.mem_cons_self
  · exact h ▸ List.mem_cons_of_mem _ (List.mem_cons_of_mem _ List.mem_cons_self)

/-- A screen that shows the cursor of an editor is no narrower than two columns and no lower than
four rows, and the cursor is above its last row. -/
theorem screen_of_cursor {screen : Rect} (hx : screen.x = 0) (hy : screen.y = 0)
    (hcells : screen.width * screen.height ≤ maxWord) (hlimited : s.offset.Limited)
    (hcursor : s.editorCursor? (View.ofScreen screen s.offset) = some (some anchor)) :
    2 ≤ screen.width ∧ 4 ≤ screen.height ∧ screen.Fits ∧ anchor.y + 1 < screen.height := by
  let panes : Rect := { screen with height := screen.height - 1 }
  obtain ⟨hleft, hwidth, hheight⟩ : (s.focusedArea (View.ofScreen screen s.offset)).x = screen.x ∧
      (s.focusedArea (View.ofScreen screen s.offset)).width ≤ screen.width ∧
      (s.focusedArea (View.ofScreen screen s.offset)).height ≤ screen.height - 1 :=
    @Quadrants.size_editor panes _ _ hlimited (focusedArea_eq s _)
  have hwithin (hpanes : panes.Fits) :
      (s.focusedArea (View.ofScreen screen s.offset)).Within panes :=
    within_focusedArea hpanes hlimited
  unfold editorCursor? at hcursor
  generalize s.focusedArea (View.ofScreen screen s.offset) = area at *
  obtain ⟨hcolumns, hrows⟩ : 2 ≤ screen.width ∧ 4 ≤ screen.height := by
    have hsize := EditorArea.size_of_cursorPosition? hcursor
    omega
  have hwide : screen.width * 4 ≤ maxWord := Nat.le_trans (Nat.mul_le_mul_left _ hrows) hcells
  have hhigh : 2 * screen.height ≤ maxWord := Nat.le_trans (Nat.mul_le_mul_right _ hcolumns) hcells
  have hscreen : screen.Fits := ⟨by omega, by omega⟩
  have hpanes : panes.Fits := ⟨by dsimp only [panes]; omega, by dsimp only [panes]; omega⟩
  obtain ⟨hview, -, -, hplace⟩ :=
    (EditorArea.cursorPosition?_eq_some_iff ((hwithin hpanes).fits hpanes)).mp hcursor
  have hbelow := hview.notBelow
  have hbottom := (hwithin hpanes).bottom
  dsimp only [panes] at hbottom
  exact ⟨hcolumns, hrows, hscreen, by omega⟩

/-- On such a screen the popup has a box, which lies inside the area of the panes, and the screen
alone says whether it has room for the row of the selected suggestion: under the ones above it,
inside the border, over the status bar. -/
theorem exists_box_of_cursor {screen : Rect} (hx : screen.x = 0) (hy : screen.y = 0)
    (hcells : screen.width * screen.height ≤ maxWord) (hlimited : s.offset.Limited)
    (hcursor : s.editorCursor? (View.ofScreen screen s.offset) = some (some anchor))
    {c : CompletionList} (hselected : c.selected < (s.suggestions c.typed).length) :
    ∃ box, Popup.box? anchor (View.ofScreen screen s.offset).panes
        (CompletionPopup.content (s.suggestions c.typed) c.selected) = some box ∧
      box.Within screen ∧ box.Fits ∧ (2 < box.width ↔ 3 ≤ screen.width) ∧
      (CompletionPopup.selectedRow c.selected + 2 < box.height ↔
        min c.selected 7 + 4 ≤ screen.height) := by
  obtain ⟨hcolumns, hrows, hscreen, hanchor⟩ := screen_of_cursor hx hy hcells hlimited hcursor
  have hhigh : 2 * screen.height ≤ maxWord := Nat.le_trans (Nat.mul_le_mul_right _ hcolumns) hcells
  generalize hv : (View.ofScreen screen s.offset).panes = panes
  obtain ⟨htop, hheight, hwidth⟩ :
      panes.y = screen.y ∧ panes.height = screen.height - 1 ∧ panes.width = screen.width := by
    rw [← hv]
    exact ⟨rfl, rfl, rfl⟩
  have hpanes : panes.Within screen := by
    rw [← hv]
    exact ⟨Nat.le_refl _, Nat.le_refl _, Nat.le_refl _,
      Nat.add_le_add_left (Nat.sub_le screen.height 1) _⟩
  have hroom : panes.y + panes.height + 11 ≤ maxWord := by
    unfold maxWord at *
    omega
  have hfew : panes.width * panes.height ≤ maxWord := by
    rw [hwidth, hheight]
    exact Nat.le_trans (Nat.mul_le_mul_left _ (Nat.sub_le ..)) hcells
  have hshort : ∀ item ∈ s.suggestions c.typed, item.Short := fun item hitem =>
    Suggestion.short_of_mem_all (List.mem_filter.mp (Suggestion.mem_filter_of_mem_suggest hitem)).1
  obtain ⟨box, hbox, hwithin, hcolumn, hrow⟩ := CompletionPopup.exists_box? anchor
    (hpanes.fits hscreen) hfew hroom (by omega) (by omega) hselected hshort
  refine ⟨box, hbox, hwithin.trans hpanes, (hwithin.trans hpanes).fits hscreen, ?_, ?_⟩
  · rw [hcolumn, hwidth]
    rfl
  · rw [hrow, hheight, CompletionPopup.selectedRow_eq]
    omega

/-- The popup is drawn last, over whatever is on the screen. -/
theorem exists_frame_shows (hmodal : s.modal = none) {c : CompletionList}
    (hopen : s.completion = some c) (hitems : s.suggestions c.typed ≠ []) {v : View}
    (hv : v = View.ofScreen (Rect.ofSize 0 0 width height) s.offset)
    (hcursor : s.editorCursor? v = some (some anchor)) {box : Rect}
    (hbox : Popup.box? anchor v.panes
      (CompletionPopup.content (s.suggestions c.typed) c.selected) = some box)
    (hwithin : box.Within (Rect.ofSize 0 0 width height)) (hfits : box.Fits) :
    ∃ f, s.frame? width height = some f ∧ f.screen.Shows box.inner Popup.ground
      (CompletionPopup.content (s.suggestions c.typed) c.selected) := by
  obtain ⟨layers, hlayers⟩ := Popup.exists_layers? hbox Theme.border
  have hoverlay : s.overlay? v (Rect.ofSize 0 0 width height) = some layers := by
    rw [← hlayers, ← CompletionPopup.layers?_of_ne_nil hitems, overlay?, hmodal]
    dsimp only
    rw [popupLayers?, hcursor, hopen]
    rfl
  have hshown : s.cursor? v (Rect.ofSize 0 0 width height) = some (some anchor) := by
    rw [cursor?, hmodal]
    exact hcursor
  let screen := Rect.ofSize 0 0 width height
  let statusArea : Rect := ⟨0, screen.height - 1, screen.width, min screen.height 1⟩
  refine ⟨⟨(Screen.blank screen.width screen.height).draw (s.paneLayers v statusArea ++ layers),
    some anchor⟩, ?_, fun p hp => ?_⟩
  · rw [frame?, ← hv, hoverlay, hshown]
    rfl
  · have hinside := hfits.contains_of_inner hp
    rw [hfits.contains_iff] at hinside
    have hx : p.x < (Rect.ofSize 0 0 width height).width :=
      Nat.lt_of_lt_of_le hinside.1.2 (Nat.le_trans hwithin.right (Nat.zero_add _).le)
    have hy : p.y < (Rect.ofSize 0 0 width height).height :=
      Nat.lt_of_lt_of_le hinside.2.2 (Nat.le_trans hwithin.bottom (Nat.zero_add _).le)
    rw [Screen.at?_draw, Screen.at?_blank hx hy, Option.map_some, List.foldl_append,
      Popup.foldl_layers hlayers hbox hfits hp]

/-! ### Accepting -/

/-- A session goes on with a suggestion in the place of the word at the cursor, and no list open. -/
structure Inserts (s : Session) (item : Suggestion) (t : Session) : Prop where
  closed : t.completion = none
  editor : t.focusedEditor =
    s.focusedEditor.applyCompletion (Expansion.ofSnippet item.body.toList)
  spliced : ∃ front ind, s.focusedEditor.flat.before = front ++ s.focusedEditor.typed ∧
    let e := Expansion.ofSnippet item.body.toList
    t.focusedEditor.flat =
      ⟨front ++ TextBuffer.indented ind e.before,
        TextBuffer.indented ind (e.placeholder ++ e.after) ++ s.focusedEditor.flat.after⟩

theorem inserts_complete {c : CompletionList} (hopen : s.completion = some c) {item : Suggestion}
    (hitem : (s.suggestions c.typed)[c.selected]? = some item) (now : Nat) :
    s.Inserts item (s.complete now) := by
  have hcomplete : s.complete now = (({ s with completion := none } : Session).updateFocused
      (·.applyCompletion (Expansion.ofSnippet item.body.toList))).edited now := by
    rw [complete, hopen]
    simp only [hitem]
  have heditor : (s.complete now).focusedEditor =
      s.focusedEditor.applyCompletion (Expansion.ofSnippet item.body.toList) := by
    rw [hcomplete, focusedEditor_edited, focusedEditor_updateFocused]
    rfl
  refine ⟨?_, heditor, ?_⟩
  · rw [hcomplete]
    exact completion_updateFocused ..
  · rw [heditor]
    exact s.focusedEditor.exists_flat_applyCompletion _

/-- The keys that accept the selected suggestion. -/
def IsAccepting (k : Key) (ctrl : Bool) : Prop :=
  k = .char ' ' ∧ ctrl = true ∨ k = .null ∧ ctrl = false

theorem step_accepting {k : Key} {ctrl : Bool} (hkey : IsAccepting k ctrl)
    (hmodal : s.modal = none) (now : Nat) : s.step (.key k ctrl now) = s.complete now := by
  obtain ⟨rfl, rfl⟩ | ⟨rfl, rfl⟩ := hkey
  · simp only [step, handleKey, hmodal]
    rfl
  · have hlist : s.listKey? .null = none := by
      unfold listKey?
      split <;> rfl
    simp only [step, handleKey, hmodal, hlist]
    rfl

/-! ### Whole runs -/

/-- **The selection of an open list is always one of its suggestions**, and accepting puts it where
the word at the cursor is. The popup has a line for it, and when the cursor is in view, the lines
of the popup are on the screen as far as its box has room for them: that of the selected one
exactly when the screen has rows enough. -/
theorem run_selects (r : RuleSet) (stack witness : Text) (template : Option Template)
    (events : List Event) :
    let s := (start r stack witness template).run events
    ∀ c, s.completion = some c →
      let items := s.suggestions c.typed
      let content := CompletionPopup.content items c.selected
      c.typed ≠ [] ∧ items ≠ [] ∧ c.selected < items.length ∧
      ∃ item, items[c.selected]? = some item ∧
        (∀ k ctrl now, IsAccepting k ctrl → s.Inserts item (s.step (.key k ctrl now))) ∧
        content[min c.selected 7]? =
          some ((CompletionPopup.itemStyle true).line
            (CompletionPopup.itemText (CompletionPopup.labelWidth items c.selected) item)) ∧
        ∀ width height anchor, width ≤ maxWord → height ≤ maxWord →
          let screen := Rect.ofSize 0 0 width height
          let v := View.ofScreen screen s.offset
          s.editorCursor? v = some (some anchor) →
          ∃ box f, Popup.box? anchor v.panes content = some box ∧
            s.frame? width height = some f ∧ f.screen.Shows box.inner Popup.ground content ∧
            (f.screen.Highlights box.inner ↔
              3 ≤ screen.width ∧ min c.selected 7 + 4 ≤ screen.height) := by
  intro s c hopen items content
  obtain ⟨halone, hselects⟩ := run_lists r stack witness template events
  have hmodal : s.modal = none := by
    refine Option.not_isSome_iff_eq_none.mp fun hsome => ?_
    have hclosed : s.completion = none := halone hsome
    rw [hopen] at hclosed
    cases hclosed
  have hselected : c.selected < items.length := hselects c hopen
  have hitems : items ≠ [] := List.ne_nil_of_length_pos (Nat.zero_lt_of_lt hselected)
  have htyped : c.typed ≠ [] := by
    intro hnil
    refine hitems ?_
    change Suggestion.suggest _ c.typed = []
    rw [hnil]
    rfl
  have hitem : items[c.selected]? = some items[c.selected] := List.getElem?_eq_getElem hselected
  have hlimited : s.offset.Limited :=
    (Dividers.sound_run (Dividers.sound_start r stack witness template) events).limited
  refine ⟨htyped, hitems, hselected, _, hitem, fun k ctrl now hkey => ?_, ?_, ?_⟩
  · rw [step_accepting hkey hmodal]
    exact inserts_complete hopen hitem now
  · rw [← CompletionPopup.selectedRow_eq]
    exact CompletionPopup.getElem?_content hitem
  · intro width height anchor hw hh screen v hcursor
    obtain ⟨box, hbox, hwithin, hfits, hcolumns, hrows⟩ :=
      exists_box_of_cursor rfl rfl (Rect.cells_ofSize 0 0 hw hh) hlimited hcursor hselected
    obtain ⟨f, hf, hshows⟩ := exists_frame_shows hmodal hopen hitems rfl hcursor hbox hwithin hfits
    refine ⟨box, f, hbox, hf, hshows, ?_⟩
    rw [← hcolumns, ← hrows]
    exact CompletionPopup.highlights_iff hfits hselected hshows

/-- The list for a word that has been typed is accepted with either key, and on a screen of usual
size its selection is shown. -/
theorem run_selects_wordTyped :
    let s := (start RuleSet.standard ['\n'] [] none).run wordTyped
    let items := s.suggestions ['O', 'P']
    let v := View.ofScreen (Rect.ofSize 0 0 80 24) s.offset
    s.completion = some ⟨['O', 'P'], 0⟩ ∧
    ∃ item anchor, items[0]? = some item ∧
      s.Inserts item (s.step (.key (.char ' ') true 0)) ∧
      s.Inserts item (s.step (.key .null false 0)) ∧
      s.editorCursor? v = some (some anchor) ∧
      ∃ box f, Popup.box? anchor v.panes (CompletionPopup.content items 0) = some box ∧
        s.frame? 80 24 = some f ∧ f.screen.Highlights box.inner := by
  intro s items v
  have hs : s = { twoLetters with completion := some ⟨['O', 'P'], 0⟩ } := run_wordTyped
  have hopen : s.completion = some ⟨['O', 'P'], 0⟩ := by rw [hs]
  have hsome : s.editorCursor? v = some (some ⟨8, 1⟩) := by
    unfold v
    rw [hs]
    decide +kernel
  obtain ⟨-, -, -, item, hitem, hinserts, -, hscreen⟩ :=
    run_selects RuleSet.standard ['\n'] [] none wordTyped _ hopen
  obtain ⟨box, f, hbox, hf, -, hshown⟩ := hscreen 80 24 _ (by decide) (by decide) hsome
  exact ⟨hopen, item, _, hitem, hinserts _ _ 0 (.inl ⟨rfl, rfl⟩),
    hinserts _ _ 0 (.inr ⟨rfl, rfl⟩), hsome, box, f, hbox, hf, hshown.mpr (by decide)⟩

/-- A bracket is typed into an empty editor, its list is asked for and its last suggestion
selected, on a screen of six rows. -/
def lastSelected : List Event :=
  [.key (.char '<') false 0, .key (.char ' ') true 0, .key .up false 0, .draw 80 6]

theorem count_bracketOpened : (bracketOpened.suggestions ['<']).length = 4 := by
  have hrules : bracketOpened.rules = RuleSet.standard := by decide +kernel
  rw [suggestions, hrules, Suggestion.suggest, if_neg (by decide), List.length_mergeSort,
    Suggestion.filter_all_bracket]
  decide +kernel

theorem run_lastSelected :
    (start RuleSet.standard [] [] none).run lastSelected =
      ({ bracketOpened with completion := some ⟨['<'], 3⟩ } : Session).layOut 80 6 := by
  have hmodal : bracketOpened.modal = none := by decide +kernel
  have hclosed : bracketOpened.completion = none := by decide +kernel
  have htyped : bracketOpened.focusedEditor.typed = ['<'] := by decide +kernel
  obtain ⟨item, hitem⟩ :
      ∃ item, item ∈ bracketOpened.suggestions bracketOpened.focusedEditor.typed := by
    rw [htyped]
    exact List.exists_mem_of_length_pos (by rw [count_bracketOpened]; decide)
  have hasked : bracketOpened.complete 0 =
      { bracketOpened with completion := some ⟨['<'], 0⟩ } := by
    have hlist := @refreshCompletion_of_mem bracketOpened askingLeast item
      (by rw [htyped]; decide) hitem hclosed
    rw [htyped] at hlist
    rw [complete, hclosed]
    dsimp only
    rw [hlist]
    rfl
  have hup : ({ bracketOpened with completion := some ⟨['<'], 0⟩ } : Session).step
      (.key .up false 0) = { bracketOpened with completion := some ⟨['<'], 3⟩ } := by
    have habove : selectAbove 0 (bracketOpened.suggestions ['<']).length = 3 := by
      rw [count_bracketOpened]
      rfl
    rw [← habove]
    simp only [step, handleKey, hmodal]
    rfl
  have hrun : (start RuleSet.standard [] [] none).run lastSelected =
      ((bracketOpened.step (.key (.char ' ') true 0)).step (.key .up false 0)).layOut 80 6 := rfl
  rw [hrun, step_accepting (.inl ⟨rfl, rfl⟩) hmodal, hasked, hup]

/-- The screen is too low for the last of four suggestions. -/
theorem run_selects_outOfView :
    let s := (start RuleSet.standard [] [] none).run lastSelected
    let items := s.suggestions ['<']
    let v := View.ofScreen (Rect.ofSize 0 0 80 6) s.offset
    s.completion = some ⟨['<'], 3⟩ ∧
    ∃ anchor box f, s.editorCursor? v = some (some anchor) ∧
      Popup.box? anchor v.panes (CompletionPopup.content items 3) = some box ∧
      s.frame? 80 6 = some f ∧ ¬ f.screen.Highlights box.inner := by
  intro s items v
  have hs : s = ({ bracketOpened with completion := some ⟨['<'], 3⟩ } : Session).layOut 80 6 :=
    run_lastSelected
  have hopen : s.completion = some ⟨['<'], 3⟩ := by
    rw [hs]
    rfl
  have hmodal : s.modal = none := by
    rw [hs]
    decide +kernel
  have hcursor : s.editorCursor? v = some (some ⟨7, 1⟩) := by
    unfold v
    rw [hs]
    decide +kernel
  obtain ⟨-, hselects⟩ := run_lists RuleSet.standard [] [] none lastSelected
  have hselected := hselects _ hopen
  have hlimited : s.offset.Limited :=
    (Dividers.sound_run (Dividers.sound_start ..) lastSelected).limited
  obtain ⟨box, hbox, hwithin, hfits, -, hrows⟩ :=
    exists_box_of_cursor rfl rfl (by decide) hlimited hcursor hselected
  have hitems : s.suggestions ['<'] ≠ [] :=
    List.ne_nil_of_length_pos (Nat.zero_lt_of_lt hselected)
  obtain ⟨f, hf, hshows⟩ := exists_frame_shows hmodal hopen hitems rfl hcursor hbox hwithin hfits
  refine ⟨hopen, _, box, f, hcursor, hbox, hf, fun hshown => ?_⟩
  have hroom := ((CompletionPopup.highlights_iff hfits hselected hshows).mp hshown).2
  exact absurd (hrows.mp hroom) (by decide)

end Session

end ScriptBench
