import Mathlib.Data.List.Forall2
import ScriptBench.Frame.EditorPane
import ScriptBench.Proofs.Text.Offset
import ScriptBench.Proofs.Token.Positions

/-! The tokens of a line tile it.

A line is scanned in steps. Each takes the character it stands on and perhaps more, so
the steps spell the line and no token is empty. Joining neighbours keeps both, and only
push delimiters are left beside one of their kind. So the byte ranges of the tokens follow
one another from the start of the line to its end, and every cut falls between two
characters. -/
namespace ScriptBench.Token

/-! ### Steps -/

theorem line_cons (t : Token) (ts : List Token) : line (t :: ts) = t.text ++ line ts := rfl

/-- The steps over a line spell it. -/
theorem line_steps (state : LexState) (t : Text) : line (steps state t).1 = t := by
  induction hlen : t.length using Nat.strongRecOn generalizing state t with
  | ind n ih =>
    cases t with
    | nil => rw [steps]; rfl
    | cons c rest =>
      have htail := ih _ (by rw [← hlen, List.length_cons, List.length_drop]; omega)
        (step state c rest).next (rest.drop (step state c rest).more) rfl
      rw [steps, line_cons, htail, List.cons_append, List.take_append_drop]

/-- A step takes the character it stands on. -/
theorem text_ne_nil_of_mem_steps {state : LexState} {t : Text} {u : Token}
    (h : u ∈ (steps state t).1) : u.text ≠ [] := by
  induction hlen : t.length using Nat.strongRecOn generalizing state t with
  | ind n ih =>
    cases t with
    | nil =>
      rw [steps] at h
      cases h
    | cons c rest =>
      rw [steps] at h
      obtain rfl | h := List.mem_cons.mp h
      · exact List.cons_ne_nil c _
      · exact ih _ (by rw [← hlen, List.length_cons, List.length_drop]; omega) h rfl

/-- There are no more non-empty pieces than characters. -/
theorem length_le_of_text_ne_nil {ts : List Token} (h : ∀ t ∈ ts, t.text ≠ []) :
    ts.length ≤ (line ts).length := by
  induction ts with
  | nil => exact Nat.le_refl _
  | cons t ts ih =>
    have hrest := ih fun u hu => h u (List.mem_cons_of_mem t hu)
    have hpos := List.length_pos_iff.mpr (h t (List.mem_cons_self ..))
    rw [line_cons, List.length_append, List.length_cons]
    omega

/-! ### Joining -/

theorem line_join (ts : List Token) : line (join ts) = line ts := by
  induction ts with
  | nil => rfl
  | cons t rest ih =>
    rw [line_cons, ← ih, join]
    cases join rest with
    | nil => rfl
    | cons u tail =>
      dsimp only
      split
      · rw [line_cons, line_cons, List.append_assoc]
      · rfl

theorem text_ne_nil_of_mem_join {ts : List Token} (h : ∀ t ∈ ts, t.text ≠ []) :
    ∀ t ∈ join ts, t.text ≠ [] := by
  induction ts with
  | nil => exact h
  | cons t rest ih =>
    have hhead := h t (List.mem_cons_self ..)
    have hrest := ih fun u hu => h u (List.mem_cons_of_mem t hu)
    rw [join]
    cases hjoin : join rest with
    | nil => simpa using hhead
    | cons u tail =>
      rw [hjoin, List.forall_mem_cons] at hrest
      dsimp only
      split
      · exact List.forall_mem_cons.mpr ⟨List.append_ne_nil_of_left_ne_nil hhead _, hrest.2⟩
      · exact List.forall_mem_cons.mpr ⟨hhead, List.forall_mem_cons.mpr hrest⟩

/-- Neighbours that stay apart. -/
def Apart (t u : Token) : Prop := t.kind = u.kind → t.kind = .pushDelimiter

theorem isChain_apart_join (ts : List Token) : (join ts).IsChain Apart := by
  induction ts with
  | nil => exact .nil
  | cons t rest ih =>
    rw [join]
    cases hjoin : join rest with
    | nil => exact .singleton t
    | cons u tail =>
      rw [hjoin] at ih
      dsimp only
      split
      · rename_i hsame
        -- What is joined has the kind of the neighbour it took in.
        cases tail with
        | nil => exact .singleton _
        | cons v tail =>
          obtain ⟨huv, htail⟩ := List.isChain_cons_cons.mp ih
          refine List.isChain_cons_cons.mpr ⟨fun hkind => ?_, htail⟩
          exact hsame.1.trans (huv (hsame.1.symm.trans hkind))
      · rename_i hdiffer
        refine List.isChain_cons_cons.mpr ⟨fun hkind => ?_, ih⟩
        exact not_not.mp fun hne => hdiffer ⟨hkind, hne⟩

/-! ### Byte ranges -/

/-- Ranges that lead from one offset to another without gaps, none of them empty. -/
def Abut (start stop : Nat) : List (Nat × Nat) → Prop
  | [] => start = stop
  | r :: rest => r.1 = start ∧ r.1 < r.2 ∧ Abut r.2 stop rest

theorem size_pos {t : Text} (h : t ≠ []) : 0 < t.size := by
  cases t with
  | nil => exact absurd rfl h
  | cons c t =>
    have := c.utf8Size_pos
    rw [Text.size]
    omega

theorem abut_spans {ts : List Token} (h : ∀ t ∈ ts, t.text ≠ []) (start : Nat) :
    Abut start (start + (line ts).size) (spans start ts) := by
  induction ts generalizing start with
  | nil => rfl
  | cons t ts ih =>
    have hpos := size_pos (h t (List.mem_cons_self ..))
    have hrest := ih (fun u hu => h u (List.mem_cons_of_mem t hu)) (start + t.text.size)
    rw [line_cons, Text.size_append, ← Nat.add_assoc]
    exact ⟨rfl, Nat.lt_add_of_pos_right hpos, hrest⟩

/-- The range of a token holds its text, and is cut out between characters. -/
structure Holds (line : Text) (range : Nat × Nat) (t : Token) : Prop where
  begins : line.IsBoundary range.1
  ends : line.IsBoundary range.2
  text : line.slice? range.1 range.2 = some t.text

theorem holds_spans (before : Text) (ts : List Token) :
    List.Forall₂ (Holds (before ++ line ts)) (spans before.size ts) ts := by
  induction ts generalizing before with
  | nil => exact .nil
  | cons t ts ih =>
    have hrest := ih (before ++ t.text)
    rw [Text.size_append, List.append_assoc] at hrest
    refine .cons ⟨?_, ?_, ?_⟩ hrest
    · exact Text.isBoundary_append before _
    · rw [← Text.size_append, line_cons, ← List.append_assoc]
      exact Text.isBoundary_append _ _
    · exact Text.slice?_append before t.text (line ts)

/-! ### Tiling -/

/-- The tokens cover the line and each other not at all. -/
structure Tile (line : Text) (tokens : List Token) : Prop where
  nonempty : ∀ t ∈ tokens, t.text ≠ []
  /-- The texts of the tokens make up the line. -/
  spells : Token.line tokens = line
  /-- So do the spans that the line is drawn with. -/
  drawn : ∀ r, (EditorPane.highlight r tokens).map (·.char) = line
  /-- Their byte ranges lead from the start of the line to its end. -/
  abut : Abut 0 line.size (spans 0 tokens)
  holds : List.Forall₂ (Holds line) (spans 0 tokens) tokens
  /-- Only push delimiters stand beside one of their kind. -/
  apart : tokens.IsChain Apart

theorem line_scan (state : LexState) (t : Text) : line (scan state t).1 = t :=
  (line_join _).trans (line_steps state t)

theorem text_ne_nil_of_mem_scan (state : LexState) (t : Text) :
    ∀ u ∈ (scan state t).1, u.text ≠ [] :=
  text_ne_nil_of_mem_join fun _ => text_ne_nil_of_mem_steps

/-- **Scanning a line ends, and the tokens tile it,** whatever the line begins inside of.
There are at most as many steps as characters. Going through the line by positions, with checked
indices and slices, finds the same tokens at the same byte ranges. -/
theorem scan_tiles (state : LexState) (t : Text) :
    (steps state t).1.length ≤ t.length ∧ Tile t (scan state t).1 ∧
      ∃ found, positions? state t = some (found, (scan state t).2) ∧
        found.map (·.kind) = (scan state t).1.map (·.kind) ∧
        found.map (fun s => (s.start, s.stop)) = spans 0 (scan state t).1 := by
  have hspells := line_scan state t
  have hnonempty := text_ne_nil_of_mem_scan state t
  refine ⟨?_, ?_, _, positions?_eq state t, kind_placed 0 _, spans_placed 0 _⟩
  · have hsteps : ∀ u ∈ (steps state t).1, u.text ≠ [] := fun _ => text_ne_nil_of_mem_steps
    have hcount := length_le_of_text_ne_nil hsteps
    rwa [line_steps] at hcount
  · have habut := abut_spans hnonempty 0
    have hholds := holds_spans [] (scan state t).1
    rw [Nat.zero_add, hspells] at habut
    rw [List.nil_append, hspells] at hholds
    exact {
      nonempty := hnonempty
      spells := hspells
      drawn := fun r => (EditorPane.highlight_text r _).trans hspells
      abut := habut
      holds := hholds
      apart := isChain_apart_join _ }

end ScriptBench.Token
