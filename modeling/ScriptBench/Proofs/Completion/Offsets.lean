import ScriptBench.Completion.Snippet
import ScriptBench.Proofs.Text.Offset

/-! The cursor of a snippet as a byte offset.

An expansion is cut around the placeholder at its cursor. Here a snippet is read in one pass
instead: the text grows piece by piece, and a stop is recorded with the size that the text has at
that moment, long before it is known which stop the cursor goes to. Text is only ever added behind
a stop, so the offsets stay where they were, and the recorded cursor is that of the expansion. -/
namespace ScriptBench

/-- A stop that has been read. -/
structure CursorStop where
  number : Nat
  /-- Where the placeholder begins, in bytes. -/
  offset : Nat
  /-- The size of the placeholder in bytes. -/
  length : Nat
deriving DecidableEq, Repr

/-- What has been read of a snippet. -/
structure Recording where
  text : Text
  stops : List CursorStop
deriving DecidableEq, Repr

namespace Recording

/-- One piece more. -/
def add (r : Recording) (s : SnippetPiece) : Recording where
  text := r.text ++ s.shown
  stops := r.stops ++ (s.stopNumber?.map (⟨·, r.text.size, s.shown.size⟩)).toList

def ofSnippet (snippet : Text) : Recording := (SnippetPiece.parse snippet).foldl add ⟨[], []⟩

/-- The first of the stops with the lowest number above zero, or else the first stop zero. -/
def target? (r : Recording) : Option CursorStop :=
  ((r.stops.filter (0 < ·.number)).minOn? (·.number)).or (r.stops.find? (·.number == 0))

/-- Where the cursor goes, in bytes. -/
def cursor (r : Recording) : Nat := (r.target?.map (·.offset)).getD r.text.size

/-- How much is selected there, in bytes. -/
def selection (r : Recording) : Nat := (r.target?.map (·.length)).getD 0

end Recording

/-- What is lowest is the first element that has the lowest value. -/
theorem minOn?_eq_find? {α : Type} (f : α → Nat) (l : List α) :
    l.minOn? f = (l.map f).min?.bind fun n => l.find? (f · == n) := by
  induction l with
  | nil => rfl
  | cons x l ih =>
    rw [List.minOn?_cons, List.map_cons, List.min?_cons, ih, Option.bind_some]
    cases hmin : (l.map f).min? with
    | none =>
      obtain rfl : l = [] := by simpa using hmin
      simp
    | some n =>
      obtain ⟨y, hy, hyn⟩ : ∃ y, l.find? (f · == n) = some y ∧ f y = n := by
        obtain ⟨y, hy, hyn⟩ := List.mem_map.mp (List.min?_mem hmin)
        cases hfind : l.find? (f · == n) with
        | none =>
          rw [List.find?_eq_none] at hfind
          exact absurd hyn (by simpa using hfind y hy)
        | some z => exact ⟨z, rfl, by simpa using List.find?_some hfind⟩
      rw [Option.bind_some, hy, Option.elim_some, Option.elim_some, List.find?_cons]
      by_cases hle : f x ≤ n
      · rw [minOn_eq_left (hyn ▸ hle), Nat.min_eq_left hle, beq_self_eq_true]
      · have hne : (f x == n) = false := beq_eq_false_iff_ne.mpr fun heq => hle (Nat.le_of_eq heq)
        rw [minOn_eq_right (hyn ▸ hle), Nat.min_eq_right (Nat.le_of_not_le hle), hne, hy]

namespace SnippetPiece

/-! ### Pieces -/

/-- The stops of some pieces, behind so many bytes. -/
def placed (k : Nat) : List SnippetPiece → List CursorStop
  | [] => []
  | s :: rest => (s.stopNumber?.map (⟨·, k, s.shown.size⟩)).toList ++ placed (k + s.shown.size) rest

theorem foldl_add (pieces : List SnippetPiece) (r : Recording) :
    pieces.foldl Recording.add r =
      ⟨r.text ++ pieces.flatMap shown, r.stops ++ placed r.text.size pieces⟩ := by
  induction pieces generalizing r with
  | nil => simp [placed]
  | cons s rest ih =>
    rw [List.foldl_cons, ih, Recording.add, Text.size_append, placed, List.flatMap_cons,
      List.append_assoc, List.append_assoc]

theorem map_number_placed (k : Nat) (pieces : List SnippetPiece) :
    (placed k pieces).map (·.number) = pieces.filterMap stopNumber? := by
  induction pieces generalizing k with
  | nil => rfl
  | cons s rest ih =>
    rw [placed, List.map_append, ih, List.filterMap_cons]
    cases s.stopNumber? <;> rfl

section
variable {p : SnippetPiece → Bool} {s : SnippetPiece}

theorem cutAt_cons_of_pos (h : p s = true) (rest : List SnippetPiece) :
    cutAt p (s :: rest) = ⟨[], s.shown, rest.flatMap shown⟩ := by
  rw [cutAt, if_pos h]

theorem cutAt_cons_of_neg (h : p s = false) (rest : List SnippetPiece) :
    cutAt p (s :: rest) = { cutAt p rest with before := s.shown ++ (cutAt p rest).before } := by
  rw [cutAt, if_neg (by simp [h])]

end

theorem text_cutAt (p : SnippetPiece → Bool) (pieces : List SnippetPiece) :
    (cutAt p pieces).text = pieces.flatMap shown := by
  induction pieces with
  | nil => rfl
  | cons s rest ih =>
    cases h : p s with
    | true => rw [cutAt_cons_of_pos h, List.flatMap_cons]; rfl
    | false =>
      rw [cutAt_cons_of_neg h, List.flatMap_cons, ← ih]
      simp only [Expansion.text, List.append_assoc]

theorem cutAt_none (pieces : List SnippetPiece) :
    cutAt (fun _ => false) pieces = ⟨pieces.flatMap shown, [], []⟩ := by
  induction pieces with
  | nil => rfl
  | cons s rest ih => rw [cutAt_cons_of_neg rfl, ih, List.flatMap_cons]

/-- The first stop with a number is where pieces are cut for it. -/
theorem find?_placed {n : Nat} {pieces : List SnippetPiece} {k : Nat} {c : CursorStop}
    (h : (placed k pieces).find? (·.number == n) = some c) :
    let e := cutAt (·.stopNumber? == some n) pieces
    c.offset = k + e.cursor ∧ c.length = e.selection := by
  induction pieces generalizing k with
  | nil => cases h
  | cons s rest ih =>
    rw [placed, List.find?_append] at h
    by_cases hs : s.stopNumber? = some n
    · have hc : ⟨n, k, s.shown.size⟩ = c := by simpa [hs] using h
      rw [cutAt_cons_of_pos (by simp [hs]), ← hc]
      exact ⟨rfl, rfl⟩
    · have hskip : (s.stopNumber?.map (⟨·, k, s.shown.size⟩ : Nat → CursorStop)).toList.find?
          (·.number == n) = none := by
        cases hnumber : s.stopNumber? with
        | none => rfl
        | some m =>
          have hne : m ≠ n := fun heq => hs (heq ▸ hnumber)
          simp [hne]
      rw [hskip, Option.none_or] at h
      obtain ⟨hoffset, hlength⟩ := ih h
      rw [cutAt_cons_of_neg (by simp [hs])]
      refine ⟨?_, hlength⟩
      rw [hoffset, Expansion.cursor, Expansion.cursor, Text.size_append, Nat.add_assoc]

/-! ### The stop that the cursor goes to -/

theorem mem_of_target? {pieces : List SnippetPiece} {n : Nat} (h : target? pieces = some n) :
    n ∈ pieces.filterMap stopNumber? := by
  unfold target? at h
  dsimp only at h
  split at h
  · rename_i m hmin
    cases h
    exact (List.mem_filter.mp (List.min?_mem hmin)).1
  · split at h
    · rename_i hzero
      cases h
      simpa using hzero
    · cases h

/-- A number that a piece has is that of a stop. -/
theorem exists_find?_placed {pieces : List SnippetPiece} {n : Nat}
    (h : n ∈ pieces.filterMap stopNumber?) (k : Nat) :
    ∃ c, (placed k pieces).find? (·.number == n) = some c := by
  rw [← map_number_placed k] at h
  obtain ⟨c, hc, rfl⟩ := List.mem_map.mp h
  rw [← Option.isSome_iff_exists, List.find?_isSome]
  exact ⟨c, hc, by simp⟩

/-- Both ways of choosing a stop agree. -/
theorem target?_recording (pieces : List SnippetPiece) (t : Text) :
    Recording.target? ⟨t, placed 0 pieces⟩ =
      (target? pieces).bind fun n => (placed 0 pieces).find? (·.number == n) := by
  have hpositive : ((placed 0 pieces).filter (0 < ·.number)).map (·.number) =
      (pieces.filterMap stopNumber?).filter (0 < ·) := by
    rw [← map_number_placed 0, List.filter_map]
    rfl
  rw [Recording.target?, minOn?_eq_find?, hpositive, target?]
  cases hmin : ((pieces.filterMap stopNumber?).filter (0 < ·)).min? with
  | some n =>
    obtain ⟨hn, hpos⟩ := List.mem_filter.mp (List.min?_mem hmin)
    obtain ⟨c, hc⟩ := exists_find?_placed hn 0
    have hfind : ((placed 0 pieces).filter (0 < ·.number)).find? (·.number == n) = some c := by
      rw [List.find?_filter, ← hc]
      refine congrArg (List.find? · _) (funext fun c => ?_)
      by_cases hcn : c.number = n
      · simpa [hcn] using hpos
      · simp [hcn]
    simp only [Option.bind_some, hfind, hc, Option.some_or]
  | none =>
    simp only [Option.bind_none, Option.none_or]
    split
    · rfl
    · rename_i hzero
      rw [Option.bind_none, List.find?_eq_none]
      intro c hc hc0
      have hmem := List.mem_map_of_mem (f := (·.number)) hc
      rw [map_number_placed, eq_of_beq hc0] at hmem
      exact hzero (by simpa using hmem)

end SnippetPiece

/-- The recorded text and offsets are those of the expansion. -/
theorem Recording.ofSnippet_eq (snippet : Text) :
    let r := ofSnippet snippet
    let e := Expansion.ofSnippet snippet
    r.text = e.text ∧ r.cursor = e.cursor ∧ r.selection = e.selection := by
  obtain ⟨pieces, hpieces⟩ : ∃ pieces, SnippetPiece.parse snippet = pieces := ⟨_, rfl⟩
  have hr : ofSnippet snippet =
      ⟨pieces.flatMap SnippetPiece.shown, SnippetPiece.placed 0 pieces⟩ := by
    rw [ofSnippet, hpieces, SnippetPiece.foldl_add]
    rfl
  simp only [hr, cursor, selection, SnippetPiece.target?_recording, Expansion.ofSnippet, hpieces]
  cases hn : SnippetPiece.target? pieces with
  | none =>
    dsimp only
    rw [SnippetPiece.cutAt_none]
    simp [Expansion.text, Expansion.cursor, Expansion.selection, Text.size]
  | some n =>
    obtain ⟨c, hc⟩ := SnippetPiece.exists_find?_placed (SnippetPiece.mem_of_target? hn) 0
    obtain ⟨hoffset, hlength⟩ := SnippetPiece.find?_placed hc
    dsimp only
    rw [SnippetPiece.text_cutAt, Option.bind_some, hc, Option.map_some, Option.map_some,
      Option.getD_some, Option.getD_some, hoffset, hlength, Nat.zero_add]
    exact ⟨rfl, rfl, rfl⟩

/-! ### Escapes -/

namespace SnippetPiece

/-- A text with a backslash before each dollar sign. -/
def escaped (t : Text) : Text := t.flatMap fun c => if c = '$' then ['\\', '$'] else [c]

theorem head?_escaped (t : Text) : (escaped t).head? ≠ some '$' := by
  cases t with
  | nil => simp [escaped]
  | cons c t =>
    by_cases h : c = '$'
    · simp [escaped, h]
    · simp [escaped, h]

/-- Each dollar sign is read behind its own backslash, so all characters are plain. -/
theorem parse_escaped (t : Text) : parse (escaped t) = t.map char := by
  induction t with
  | nil => simp [escaped, parse]
  | cons c t ih =>
    rw [escaped, List.flatMap_cons, ← escaped, List.map_cons, ← ih]
    by_cases h : c = '$'
    · subst h
      rw [if_pos rfl, List.cons_append, List.singleton_append, parse]
    · rw [if_neg h, List.singleton_append, parse]
      · rintro rest rfl hrest
        exact head?_escaped t (by rw [hrest]; rfl)
      · exact fun rest hc => absurd hc h
      · exact fun d rest hc => absurd hc h

theorem flatMap_shown_char (t : Text) : (t.map char).flatMap shown = t := by
  rw [List.flatMap_map]
  exact List.flatMap_singleton' t

theorem target?_char (t : Text) : target? (t.map char) = none := by
  have hnumbers : (t.map char).filterMap stopNumber? = [] := by simp [stopNumber?]
  rw [target?, hnumbers]
  rfl

end SnippetPiece

namespace Expansion

theorem ofSnippet_escaped (t : Text) : ofSnippet (SnippetPiece.escaped t) = ⟨t, [], []⟩ := by
  rw [ofSnippet, SnippetPiece.parse_escaped, SnippetPiece.target?_char]
  dsimp only
  rw [SnippetPiece.cutAt_none, SnippetPiece.flatMap_shown_char]

/-- **The cursor of a snippet stays where it was recorded**, and the text can be cut there and
behind the selection; and a text whose dollar signs are escaped is expanded to itself. -/
theorem ofSnippet_offsets :
    (∀ snippet : Text,
      let e := ofSnippet snippet
      let r := Recording.ofSnippet snippet
      r.text = e.text ∧ r.cursor = e.cursor ∧ r.selection = e.selection ∧
        r.cursor ≤ r.text.size ∧ r.cursor + r.selection ≤ r.text.size ∧
        r.text.IsBoundary r.cursor ∧ r.text.IsBoundary (r.cursor + r.selection) ∧
        (r.text.splitAt? r.cursor).isSome) ∧
    ∀ t : Text,
      let e := ofSnippet (SnippetPiece.escaped t)
      e.text = t ∧ e.cursor = t.size ∧ e.selection = 0 := by
  refine ⟨fun snippet => ?_, fun t => ?_⟩
  · obtain ⟨htext, hcursor, hselection⟩ := Recording.ofSnippet_eq snippet
    have hstart : (ofSnippet snippet).text.IsBoundary (ofSnippet snippet).cursor := by
      rw [text, List.append_assoc]
      exact Text.isBoundary_append _ _
    have hstop : (ofSnippet snippet).text.IsBoundary
        ((ofSnippet snippet).cursor + (ofSnippet snippet).selection) := by
      rw [text, cursor, selection, ← Text.size_append]
      exact Text.isBoundary_append _ _
    dsimp only
    rw [htext, hcursor, hselection]
    exact ⟨rfl, rfl, rfl, hstart.le_size, hstop.le_size, hstart, hstop,
      Text.isSome_splitAt?_iff.mpr hstart⟩
  · dsimp only
    rw [ofSnippet_escaped]
    exact ⟨by simp [text], rfl, rfl⟩

end Expansion

end ScriptBench
