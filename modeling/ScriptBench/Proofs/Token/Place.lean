import ScriptBench.Proofs.Token.Pieces
import ScriptBench.Proofs.Token.Tiling

/-! Where the end of a text is.

A text is a row of pieces: stretches of code, single slashes, comments to the end of the line,
and strings and block comments, which are opened and go up to their end or over the end of the
line. `Leads` reads them off one after another, and so says where the end of the text is: the
state of the lexer there, the kind of the last token, and what becomes of both when a character
is added. The last two are not functions of the state: outside of strings and block comments the
text may go on with code, or with a comment to the end of the line. -/
namespace ScriptBench.Token

/-! ### Places -/

/-- Where the end of a text is: behind code, behind a string or block comment that has just
ended, in a comment to the end of the line, or inside of a string or block comment. -/
inductive Place where
  | code
  | closed (state : LexState)
  | lineComment
  | inside (state : LexState)
deriving DecidableEq

namespace Place

/-- The state of the lexer. -/
def state : Place → LexState
  | inside s => s
  | _ => .root

/-- What the last token is. -/
def last : Place → Option TokenContext
  | code => none
  | closed s | inside s => s.context?
  | lineComment => some .comment

/-- The place after one more letter. -/
def typed : Place → Place
  | closed _ => code
  | p => p

end Place

/-- A text that begins in a state leads to a place. -/
inductive Leads : LexState → Text → Place → Prop
  | plain {p : Text} (hp : ∀ c ∈ p, opensInert c = false) : Leads .root p .code
  | stretch {p rest : Text} {c : Char} {place : Place} (hp : ∀ c ∈ p, opensInert c = false)
      (hc : opensInert c = true) (h : Leads .root (c :: rest) place) :
      Leads .root (p ++ c :: rest) place
  | slash {rest : Text} {place : Place} (hkeeps : KeepsSlash rest) (h : Leads .root rest place) :
      Leads .root ('/' :: rest) place
  | lineComment (rest : Text) : Leads .root ('/' :: '/' :: rest) .lineComment
  | opens {state : LexState} {rest : Text} {place : Place} (hstate : state ≠ .root)
      (h : Leads state rest place) : Leads .root (state.opener ++ rest) place
  | ended {state : LexState} {t : Text} (hstate : state ≠ .root)
      (ht : state.end? t = some t.length) : Leads state t (.closed state)
  | after {state : LexState} {t rest : Text} {c : Char} {place : Place} (hstate : state ≠ .root)
      (ht : state.end? t = some t.length) (h : Leads .root (c :: rest) place) :
      Leads state (t ++ c :: rest) place
  | inside {state : LexState} {t : Text} (hstate : state ≠ .root) (ht : state.end? t = none) :
      Leads state t (.inside state)

theorem opener_ne_nil {state : LexState} (h : state ≠ .root) : state.opener ≠ [] := by
  cases state <;> simp_all [LexState.opener]

/-- In front of an opening character there is a piece that begins with it. -/
theorem exists_leads_of_opens {c : Char} (hc : opensInert c = true) {rest : Text}
    (ih : ∀ state t, t.length ≤ rest.length → ∃ place, Leads state t place) :
    ∃ place, Leads .root (c :: rest) place := by
  simp only [opensInert, Bool.or_eq_true, beq_iff_eq] at hc
  obtain (rfl | rfl) | rfl := hc
  · by_cases hkeeps : KeepsSlash rest
    · obtain ⟨place, hplace⟩ := ih .root rest (Nat.le_refl _)
      exact ⟨place, .slash hkeeps hplace⟩
    · obtain ⟨d, hd, hopens⟩ : ∃ d, rest.head? = some d ∧ (d = '/' ∨ d = '*') := by
        simpa [KeepsSlash, ← or_iff_not_imp_left] using hkeeps
      obtain ⟨rest, rfl⟩ := List.head?_eq_some_iff.mp hd
      obtain rfl | rfl := hopens
      · exact ⟨_, .lineComment rest⟩
      · obtain ⟨place, hplace⟩ := ih .blockComment rest (Nat.le_succ _)
        exact ⟨place, .opens (by simp : LexState.blockComment ≠ .root) hplace⟩
  · obtain ⟨place, hplace⟩ := ih .doubleString rest (Nat.le_refl _)
    exact ⟨place, .opens (by simp : LexState.doubleString ≠ .root) hplace⟩
  · obtain ⟨place, hplace⟩ := ih .singleString rest (Nat.le_refl _)
    exact ⟨place, .opens (by simp : LexState.singleString ≠ .root) hplace⟩

/-- Every text leads somewhere. -/
theorem exists_leads (state : LexState) (t : Text) : ∃ place, Leads state t place := by
  -- By induction on the length: a piece may take several characters.
  induction hlen : t.length using Nat.strongRecOn generalizing state t with
  | ind n ih =>
    by_cases hstate : state = .root
    case neg =>
      cases hend : state.end? t with
      | none => exact ⟨_, .inside hstate hend⟩
      | some k =>
        obtain ⟨hpos, hle, htake⟩ := end?_take hend
        have hended : state.end? (t.take k) = some (t.take k).length := by
          rw [htake, List.length_take_of_le hle]
        have hlength : (t.drop k).length = n - k := by rw [List.length_drop, hlen]
        rw [← List.take_append_drop k t]
        cases hdrop : t.drop k with
        | nil =>
          rw [List.append_nil]
          exact ⟨_, .ended hstate hended⟩
        | cons c rest =>
          rw [hdrop] at hlength
          obtain ⟨place, hplace⟩ := ih _ (by omega) .root (c :: rest) rfl
          exact ⟨place, .after hstate hended hplace⟩
    case pos =>
      subst hstate
      obtain ⟨p, rest, rfl, hp, hopens⟩ := exists_stretch_append t
      cases rest with
      | nil => exact ⟨_, .plain (by simpa using hp)⟩
      | cons c rest =>
        rw [List.length_append, List.length_cons] at hlen
        have hleads : ∃ place, Leads .root (c :: rest) place :=
          exists_leads_of_opens (hopens c rfl) fun state u hu =>
            ih u.length (by omega) state u rfl
        obtain ⟨place, hplace⟩ := hleads
        exact ⟨place, .stretch hp (hopens c rfl) hplace⟩

namespace Leads
variable {state : LexState} {t : Text} {place : Place}

/-- Nothing leads to where the text begins. -/
theorem eq_of_nil (h : Leads state [] place) :
    place = if state = .root then .code else .inside state := by
  generalize ht : ([] : Text) = u at h
  cases h with
  | plain => rfl
  | opens hstate => exact absurd (List.append_eq_nil_iff.mp ht.symm).1 (opener_ne_nil hstate)
  | ended hstate hend =>
    subst ht
    exact absurd (end?_take hend).1 (Nat.lt_irrefl 0)
  | inside hstate => rw [if_neg hstate]
  | _ => simp at ht

/-- The state that the lexer ends in. -/
theorem ending (h : Leads state t place) : (steps state t).2 = place.state := by
  induction h with
  | plain hp =>
    obtain ⟨ts, -, hsteps⟩ := steps_plain hp
    rw [hsteps]
    rfl
  | stretch hp hc _ ih =>
    obtain ⟨ts, -, hsteps⟩ := steps_stretch hp (forall_head?_cons hc)
    rw [hsteps, ih]
  | slash hkeeps _ ih => rw [steps_slash hkeeps, ih]
  | lineComment rest => rw [steps_lineComment]; rfl
  | opens hstate _ ih => rw [steps_opener hstate, ih]
  | @ended state t hstate ht =>
    have hsteps := steps_ended hstate ht []
    rw [List.append_nil] at hsteps
    rw [hsteps, steps]
    rfl
  | after hstate ht _ ih => rw [steps_ended hstate ht, ih]
  | @inside state t hstate ht =>
    cases t with
    | nil => rw [steps]; rfl
    | cons c t => rw [steps_inside hstate (List.cons_ne_nil c t) ht]; rfl

/-- What the last token is. -/
theorem getLast?_steps (h : Leads state t place) (hne : t ≠ []) :
    ∃ u, (steps state t).1.getLast? = some u ∧ u.kind.context? = place.last := by
  induction h with
  | @plain p hp =>
    obtain ⟨ts, hts, hsteps⟩ := steps_plain hp
    have hline := line_steps .root p
    rw [hsteps] at hline ⊢
    have htsne : ts ≠ [] := by
      rintro rfl
      exact hne hline.symm
    exact ⟨_, List.getLast?_eq_some_getLast htsne, hts _ (List.getLast_mem htsne)⟩
  | stretch hp hc _ ih =>
    obtain ⟨u, hu, hkind⟩ := ih (List.cons_ne_nil _ _)
    obtain ⟨ts, -, hsteps⟩ := steps_stretch hp (forall_head?_cons hc)
    refine ⟨u, ?_, hkind⟩
    rw [hsteps, List.getLast?_append, hu]
    rfl
  | @slash rest place hkeeps h ih =>
    rw [steps_slash hkeeps]
    cases rest with
    | nil =>
      rw [h.eq_of_nil, steps]
      exact ⟨_, rfl, rfl⟩
    | cons c rest =>
      obtain ⟨u, hu, hkind⟩ := ih (List.cons_ne_nil _ _)
      exact ⟨u, by rw [List.getLast?_cons, hu]; rfl, hkind⟩
  | lineComment rest =>
    rw [steps_lineComment]
    exact ⟨_, rfl, rfl⟩
  | @opens state rest place hstate h ih =>
    rw [steps_opener hstate]
    cases rest with
    | nil =>
      rw [h.eq_of_nil, if_neg hstate, steps]
      exact ⟨_, rfl, state.context?_kind⟩
    | cons c rest =>
      obtain ⟨u, hu, hkind⟩ := ih (List.cons_ne_nil _ _)
      exact ⟨u, by rw [List.getLast?_cons, hu]; rfl, hkind⟩
  | @ended state t hstate ht =>
    have hsteps := steps_ended hstate ht []
    rw [List.append_nil, steps] at hsteps
    rw [hsteps]
    exact ⟨_, rfl, state.context?_kind⟩
  | after hstate ht _ ih =>
    obtain ⟨u, hu, hkind⟩ := ih (List.cons_ne_nil _ _)
    rw [steps_ended hstate ht]
    exact ⟨u, by rw [List.getLast?_cons, hu]; rfl, hkind⟩
  | @inside state t hstate ht =>
    rw [steps_inside hstate hne ht]
    exact ⟨_, rfl, state.context?_kind⟩

theorem last_eq {place' : Place} (h : Leads state t place) (h' : Leads state t place')
    (hne : t ≠ []) : place.last = place'.last := by
  obtain ⟨u, hu, hlast⟩ := h.getLast?_steps hne
  obtain ⟨v, hv, hlast'⟩ := h'.getLast?_steps hne
  obtain rfl : u = v := Option.some.inj (hu.symm.trans hv)
  exact hlast.symm.trans hlast'

/-! ### One more character -/

theorem keepsSlash_concat {rest : Text} {c : Char} (h : KeepsSlash rest)
    (hc : rest = [] → c ≠ '/' ∧ c ≠ '*') : KeepsSlash (rest ++ [c]) := by
  cases rest with
  | nil =>
    intro d hd
    cases hd
    exact hc rfl
  | cons d rest => exact h

/-- A letter goes on with what the text is inside of, or with code. -/
theorem letter (h : Leads state t place) {c : Char} (hc : Pattern.isLetter c = true) :
    Leads state (t ++ [c]) place.typed := by
  have hne {d : Char} (hd : Pattern.isLetter d = false) : c ≠ d := by
    rintro rfl
    rw [hc] at hd
    cases hd
  have hslash : c ≠ '/' := hne (by decide)
  have hstar : c ≠ '*' := hne (by decide)
  have hplain : opensInert c = false := by
    have hdouble : c ≠ '"' := hne (by decide)
    have hsingle : c ≠ '\'' := hne (by decide)
    simp [opensInert, hslash, hdouble, hsingle]
  have hcode : Leads .root [c] .code := .plain (List.forall_mem_singleton.mpr hplain)
  induction h with
  | plain hp => exact .plain (List.forall_mem_append.mpr ⟨hp, List.forall_mem_singleton.mpr hplain⟩)
  | stretch hp hd _ ih =>
    rw [List.append_assoc]
    exact .stretch hp hd ih
  | slash hkeeps _ ih => exact .slash (keepsSlash_concat hkeeps fun _ => ⟨hslash, hstar⟩) ih
  | lineComment rest => exact .lineComment _
  | opens hstate _ ih =>
    rw [List.append_assoc]
    exact .opens hstate ih
  | ended hstate ht => exact .after hstate ht hcode
  | after hstate ht _ ih =>
    rw [List.append_assoc]
    exact .after hstate ht ih
  | inside hstate ht =>
    obtain hnone | ⟨hopens, -⟩ := end?_concat ht c
    · exact .inside hstate hnone
    · rw [hplain] at hopens
      cases hopens

/-- One more character inside of a string or block comment ends it, or goes on with it. -/
theorem concat_inside {s : LexState} (h : Leads state t (.inside s)) (c : Char) :
    Leads state (t ++ [c]) (.inside s) ∨ Leads state (t ++ [c]) (.closed s) := by
  generalize hplace : Place.inside s = place at h
  induction h with
  | plain => cases hplace
  | stretch hp hd _ ih =>
    rw [List.append_assoc]
    exact (ih hplace).imp (.stretch hp hd) (.stretch hp hd)
  | slash hkeeps h ih =>
    have hkeeps := keepsSlash_concat (c := c) hkeeps fun hnil => by
      subst hnil hplace
      cases h.eq_of_nil
    exact (ih hplace).imp (.slash hkeeps) (.slash hkeeps)
  | lineComment => cases hplace
  | opens hstate _ ih =>
    rw [List.append_assoc]
    exact (ih hplace).imp (.opens hstate) (.opens hstate)
  | ended => cases hplace
  | after hstate ht _ ih =>
    rw [List.append_assoc]
    exact (ih hplace).imp (.after hstate ht) (.after hstate ht)
  | inside hstate ht =>
    cases hplace
    exact (end?_concat ht c).imp (.inside hstate) (fun hend => .ended hstate hend.2)

/-- In front of its last character a block comment has not ended. -/
theorem exists_of_closed (h : Leads state t (.closed .blockComment)) :
    ∃ u, t = u ++ ['/'] ∧ Leads state u (.inside .blockComment) := by
  generalize hplace : Place.closed .blockComment = place at h
  induction h with
  | plain => cases hplace
  | @stretch p rest c place hp hd _ ih =>
    obtain ⟨u, hu, hinside⟩ := ih hplace
    cases u with
    | nil => cases hinside.eq_of_nil
    | cons d u =>
      obtain ⟨rfl, rfl⟩ := List.cons.inj hu
      exact ⟨p ++ c :: u, by simp, .stretch hp hd hinside⟩
  | slash hkeeps _ ih =>
    obtain ⟨u, rfl, hinside⟩ := ih hplace
    cases u with
    | nil => cases hinside.eq_of_nil
    | cons d u => exact ⟨'/' :: d :: u, rfl, .slash hkeeps hinside⟩
  | lineComment => cases hplace
  | @opens state rest place hstate _ ih =>
    obtain ⟨u, rfl, hinside⟩ := ih hplace
    exact ⟨state.opener ++ u, (List.append_assoc ..).symm, .opens hstate hinside⟩
  | ended hstate ht =>
    cases hplace
    obtain ⟨u, rfl, hu⟩ := exists_of_commentEnd? ht
    exact ⟨u, rfl, .inside hstate hu⟩
  | @after state t rest c place hstate ht _ ih =>
    obtain ⟨u, hu, hinside⟩ := ih hplace
    cases u with
    | nil => cases hinside.eq_of_nil
    | cons d u =>
      obtain ⟨rfl, rfl⟩ := List.cons.inj hu
      exact ⟨t ++ c :: u, by simp, .after hstate ht hinside⟩
  | inside => cases hplace

/-- A comment to the end of the line begins with two slashes. -/
theorem slashes_infix (h : Leads state t .lineComment) : ['/', '/'] <:+: t := by
  generalize hplace : Place.lineComment = place at h
  induction h with
  | lineComment rest => exact (List.prefix_append ['/', '/'] rest).isInfix
  | stretch _ _ _ ih | opens _ _ ih | after _ _ _ ih =>
    exact (ih hplace).trans (List.suffix_append _ _).isInfix
  | slash _ _ ih => exact (ih hplace).trans (List.suffix_cons _ _).isInfix
  | _ => cases hplace

end Leads

end ScriptBench.Token
