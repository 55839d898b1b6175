import Mathlib.Data.List.Infix
import ScriptBench.Proofs.Text.Strip
import ScriptBench.Proofs.Token.Place

/-! What the end of a line is inside of, as the lexer sees it.

A letter typed at the end of a line becomes a part of what the line ends inside of, so the
kind of the last token then says what that is. `context?` reads it off the line as it stands:
the state at its end, and the last token. A comment that is the last token may be a block
comment that has ended; such a line is taken for a comment to its end when there are two
slashes anywhere in it, in the comment or in a string before it. Everywhere else the context is
what the lexer says. -/
namespace ScriptBench

namespace Text

/-- A part that is found is a part. -/
theorem after?_isSome_iff {part t : Text} : (after? part t).isSome = true ↔ part <:+: t := by
  induction t with
  | nil =>
    cases part with
    | nil => simp [after?, stripStart?]
    | cons c part => simp [after?, stripStart?]
  | cons c t ih =>
    rw [after?, Option.isSome_or, Bool.or_eq_true, ih, List.infix_cons_iff]
    refine or_congr ?_ Iff.rfl
    rw [Option.isSome_iff_exists]
    constructor
    · rintro ⟨rest, hrest⟩
      exact ⟨rest, (eq_append_of_stripStart? hrest).symm⟩
    · rintro ⟨rest, hrest⟩
      exact ⟨rest, by rw [← hrest, stripStart?_append]⟩

theorem contains_iff_infix {t part : Text} : contains t part = true ↔ part <:+: t :=
  after?_isSome_iff

/-- Blanks at the front do not matter to a part that does not begin with one. -/
theorem infix_trimStart_iff {c : Char} {part t : Text} (hc : isBlank c = false) :
    c :: part <:+: trimStart t ↔ c :: part <:+: t := by
  induction t with
  | nil => rfl
  | cons d t ih =>
    rw [trimStart, List.dropWhile_cons]
    split
    case isTrue hd =>
      have hfront : ¬c :: part <+: d :: t := by
        rw [List.cons_prefix_cons]
        rintro ⟨rfl, -⟩
        rw [hc] at hd
        cases hd
      rw [← trimStart, ih, List.infix_cons_iff]
      exact (or_iff_right hfront).symm
    case isFalse => rfl

end Text

namespace Token

/-- Joining neighbours keeps the kind of the last token. -/
theorem getLast?_join (ts : List Token) :
    (join ts).getLast?.map (·.kind) = ts.getLast?.map (·.kind) := by
  induction ts with
  | nil => rfl
  | cons t rest ih =>
    rw [List.getLast?_cons, join]
    cases hjoin : join rest with
    | nil =>
      rw [hjoin] at ih
      have hrest : rest.getLast? = none := Option.map_eq_none_iff.mp ih.symm
      rw [hrest]
      rfl
    | cons u tail =>
      rw [hjoin, List.getLast?_cons] at ih
      obtain ⟨v, hv, hkind⟩ := Option.map_eq_some_iff.mp ih.symm
      rw [hv]
      dsimp only
      split
      · rename_i hsame
        -- What is joined has the kind of the neighbour it took in.
        cases htail : tail.getLast? with
        | none =>
          rw [htail] at hkind
          rw [List.getLast?_cons, htail]
          exact congrArg some (hsame.1.trans hkind.symm)
        | some w =>
          rw [htail] at hkind
          rw [List.getLast?_cons, htail]
          exact congrArg some hkind.symm
      · rw [List.getLast?_cons, List.getLast?_cons]
        exact congrArg some hkind.symm

/-- A text leads to a place, and so do its tokens. -/
theorem Leads.getLast?_scan {state : LexState} {t : Text} {place : Place} (h : Leads state t place)
    (hne : t ≠ []) : ∃ u, (scan state t).1.getLast? = some u ∧ u.kind.context? = place.last := by
  obtain ⟨v, hv, hlast⟩ := h.getLast?_steps hne
  have hjoin := getLast?_join (steps state t).1
  rw [hv] at hjoin
  obtain ⟨u, hu, hkind⟩ := Option.map_eq_some_iff.mp hjoin
  exact ⟨u, hu, hkind ▸ hlast⟩

/-- A block comment ends at the end of the text: without its last slash the text is still inside
of one. -/
def ClosesComment (state : LexState) (t : Text) : Prop :=
  (scan state t).2 = .root ∧ ∃ p, t = p ++ ['/'] ∧ (scan state p).2 = .blockComment

/-- So it is just where the text leads behind a block comment. -/
theorem Leads.closesComment_iff {state : LexState} {t : Text} {place : Place}
    (h : Leads state t place) : ClosesComment state t ↔ place = .closed .blockComment := by
  constructor
  · rintro ⟨hroot, p, rfl, hp⟩
    obtain ⟨front, hfront⟩ := exists_leads state p
    have hstate : front.state = .blockComment := hfront.ending.symm.trans hp
    obtain rfl : front = .inside .blockComment := by
      cases front with
      | inside s => exact congrArg Place.inside hstate
      | _ => cases hstate
    obtain hinside | hclosed := hfront.concat_inside '/'
    · exact absurd (hinside.ending.symm.trans hroot) (by decide)
    -- The state, the last token and what a letter becomes tell this place from the others.
    have hplace : place.state = .root := h.ending.symm.trans hroot
    have hlast : place.last = some .comment := h.last_eq hclosed (by simp)
    have htyped : place.typed.last = none :=
      (h.letter (c := 'a') rfl).last_eq (hclosed.letter rfl) (by simp)
    cases place with
    | code | lineComment => simp_all [Place.last, Place.typed]
    | closed s => cases s <;> simp_all [Place.last, LexState.context?]
    | inside s => simp_all [Place.last, Place.typed]
  · rintro rfl
    obtain ⟨p, rfl, hp⟩ := h.exists_of_closed
    exact ⟨h.ending, p, rfl, hp.ending⟩

end Token

/-- Whether the last token is a comment. -/
theorem Token.Leads.any_comment_iff {state : LexState} {t : Text} {place : Place}
    (h : Leads state t place) (hroot : place.state = .root) :
    (scan state t).1.getLast?.any (·.kind = .comment) = true ↔ place.last = some .comment := by
  cases t with
  | nil =>
    have hplace := h.eq_of_nil
    split at hplace
    · subst hplace
      simp [scan, steps, join, Place.last]
    · rename_i hstate
      subst hplace
      exact absurd hroot hstate
  | cons c t =>
    obtain ⟨u, hu, hlast⟩ := h.getLast?_scan (List.cons_ne_nil c t)
    rw [hu, ← hlast, Option.any_some, decide_eq_true_iff]
    cases u.kind <;> simp [TokenKind.context?]

/-- What `context?` finds, from the place that the line leads to. -/
theorem context?_of_leads {state : LexState} {t : Text} {place : Token.Place}
    (h : Token.Leads state t place) :
    context? t state =
      if place = .closed .blockComment ∧ ['/', '/'] <:+: t then some .comment
      else place.typed.last := by
  have hending : (Token.scan state t).2 = place.state := h.ending
  have hslashes : Text.contains t.trimStart ['/', '/'] = true ↔ ['/', '/'] <:+: t :=
    Text.contains_iff_infix.trans (Text.infix_trimStart_iff (by decide))
  have hcomment := h.any_comment_iff
  unfold context?
  dsimp only
  rw [hending]
  cases place with
  | code =>
    simp only [Token.Place.state, Bool.and_eq_true, hcomment rfl]
    simp [Token.Place.last, Token.Place.typed]
  | closed s =>
    simp only [Token.Place.state, Bool.and_eq_true, hcomment rfl, hslashes]
    cases s <;> simp [Token.Place.last, Token.Place.typed, LexState.context?]
  | lineComment =>
    have hinfix := h.slashes_infix
    simp only [Token.Place.state, Bool.and_eq_true, hcomment rfl, hslashes]
    simp [Token.Place.last, Token.Place.typed, hinfix]
  | inside s =>
    cases s with
    | root =>
      simp only [Token.Place.state, Bool.and_eq_true, hcomment rfl]
      simp [Token.Place.last, Token.Place.typed, LexState.context?]
    | _ => simp [Token.Place.state, Token.Place.last, Token.Place.typed, LexState.context?]

/-- **The context of a line's end is what the lexer makes of a letter typed there,** unless the
line ends with a block comment and has two slashes anywhere. Then the context is a comment,
and the letter stands outside. -/
theorem context?_eq_iff (before : Text) (state : LexState) :
    ∃ u, (Token.scan state (before ++ ['a'])).1.getLast? = some u ∧
      (context? before state = u.kind.context? ↔
        ¬(Token.ClosesComment state before ∧ ['/', '/'] <:+: before)) ∧
      (Token.ClosesComment state before ∧ ['/', '/'] <:+: before →
        context? before state = some .comment ∧ u.kind.context? = none) := by
  obtain ⟨place, hplace⟩ := Token.exists_leads state before
  obtain ⟨u, hu, hkind⟩ := (hplace.letter (c := 'a') rfl).getLast?_scan (by simp)
  refine ⟨u, hu, ?_⟩
  rw [hkind, context?_of_leads hplace, hplace.closesComment_iff]
  by_cases hmisread : place = .closed .blockComment ∧ ['/', '/'] <:+: before
  · have houtside : place.typed.last = none := by
      rw [hmisread.1]
      rfl
    rw [if_pos hmisread, houtside]
    simp [hmisread]
  · rw [if_neg hmisread]
    exact ⟨iff_of_true rfl hmisread, fun h => absurd h hmisread⟩

/-- Behind a block comment with two slashes in it, the line is taken for a comment. -/
theorem context?_behindSlashes :
    ¬∃ u, (Token.scan .root ("/* // */".toList ++ ['a'])).1.getLast? = some u ∧
      context? "/* // */".toList .root = u.kind.context? := by
  decide +kernel

end ScriptBench
