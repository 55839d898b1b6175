import ScriptBench.Editing.Enter
import ScriptBench.Proofs.Editing.Context
import ScriptBench.Proofs.Text.Regex

/-! The comment patterns, as the regular expressions they are written as.

Blanks at the ends of a text are no matter of choice: what an expression asks for behind `\s*`
begins with something else than a blank, so the blanks are just those that `Text.trimStart` takes
off, and the same holds of an indentation. What may stand in a comment is stated character by
character, a star being one that no slash follows; up to the end of the text this means that there
is no `*/` in it. -/
namespace ScriptBench.Enter

open Regex

variable {rs : List Regex} {before part after t : Text}

/-! ### The expressions -/

/-- `\s*` -/
def blanks : Regex := star (one Text.isBlank)

/-- `(\t|[ ])*[ ]` -/
def margin : Regex := all [star (alt (char '\t') (char ' ')), char ' ']

/-- `([^*]|\*(?!/))*` -/
def unclosed : Regex := star (alt (one (· != '*')) (all [char '*', notAhead (char '/')]))

/-- `^\s*/\*\*(?!/)([^*]|\*(?!/))*$` -/
def opening : Regex := whole [blanks, verbatim "/**".toList, notAhead (char '/'), unclosed]

/-- `^\s*\*/$` -/
def closing : Regex := whole [blanks, verbatim "*/".toList]

/-- `^(\t|[ ])*[ ]\*([ ]([^*]|\*(?!/))*)?$` -/
def body : Regex := whole [margin, char '*', optional (all [char ' ', unclosed])]

/-- `^(\s*(\/\*\*|\*)).*` -/
def continuation : Regex :=
  all [start, blanks, alt (verbatim "/**".toList) (char '*'), star (one (· != '\n'))]

/-- `^(\t|[ ])*[ ]\*\/\s*$` -/
def ending : Regex := whole [margin, verbatim "*/".toList, blanks]

/-- `^(\t|[ ])*[ ]\*[^/]*\*\/\s*$` -/
def ruleEnding : Regex :=
  whole [margin, char '*', star (one (· != '/')), verbatim "*/".toList, blanks]

/-! ### Their parts -/

theorem matches_blanks_cons : (all (blanks :: rs)).Matches before part after ↔
    ∃ m n, part = m ++ n ∧ (∀ c ∈ m, Text.isBlank c = true) ∧
      (all rs).Matches (before ++ m) n after := matches_star_one_cons

theorem matches_blanks : (all [blanks]).Matches before part after ↔
    ∀ c ∈ part, Text.isBlank c = true :=
  matches_all_singleton.trans matches_star_one

theorem matches_margin : margin.Matches before part after ↔
    ∃ ind, part = ind ++ [' '] ∧ ∀ c ∈ ind, isIndent c = true := by
  have hone (before part after : Text) : (alt (char '\t') (char ' ')).Matches before part after ↔
      ∃ c, part = [c] ∧ isIndent c = true := by
    simp only [Matches, matches_char, isIndent, Bool.or_eq_true, beq_iff_eq]
    constructor
    · rintro (rfl | rfl)
      · exact ⟨'\t', rfl, .inr rfl⟩
      · exact ⟨' ', rfl, .inl rfl⟩
    · rintro ⟨c, rfl, rfl | rfl⟩
      · exact .inr rfl
      · exact .inl rfl
  rw [margin, matches_all_cons]
  constructor
  · rintro ⟨ind, n, rfl, hind, hspace⟩
    rw [matches_all_singleton, matches_char] at hspace
    subst hspace
    exact ⟨ind, rfl, (matches_star_of_class hone).mp hind⟩
  · rintro ⟨ind, rfl, hind⟩
    exact ⟨ind, [' '], rfl, (matches_star_of_class hone).mpr hind,
      matches_all_singleton.mpr (matches_char.mpr rfl)⟩

theorem matches_margin_cons : (all (margin :: rs)).Matches before part after ↔
    ∃ ind n, part = ind ++ ' ' :: n ∧ (∀ c ∈ ind, isIndent c = true) ∧
      (all rs).Matches (before ++ (ind ++ [' '])) n after := by
  rw [matches_all_cons]
  constructor
  · rintro ⟨m, n, rfl, hmargin, hrest⟩
    obtain ⟨ind, rfl, hind⟩ := matches_margin.mp hmargin
    exact ⟨ind, n, by simp, hind, hrest⟩
  · rintro ⟨ind, n, rfl, hind, hrest⟩
    exact ⟨ind ++ [' '], n, by simp, matches_margin.mpr ⟨ind, rfl, hind⟩, hrest⟩

theorem forall_bne_iff {c : Char} : (∀ d ∈ t, (d != c) = true) ↔ c ∉ t := by
  simp only [bne_iff_ne]
  exact ⟨fun h hmem => h c hmem rfl, fun h d hd heq => h (heq ▸ hd)⟩

/-- What no `*/` stands in, where nothing follows. -/
theorem matches_unclosed : unclosed.Matches before part [] ↔ ¬['*', '/'] <:+: part := by
  have hone (before part after : Text) :
      (alt (one (· != '*')) (all [char '*', notAhead (char '/')])).Matches before part after ↔
        ∃ c, part = [c] ∧ (c = '*' → after.head? ≠ some '/') := by
    simp only [matches_alt, matches_char_cons, matches_all_singleton, matches_notAhead_char,
      matches_one, bne_iff_ne]
    constructor
    · rintro (⟨c, rfl, hc⟩ | ⟨n, rfl, rfl, hhead⟩)
      · exact ⟨c, rfl, fun h => absurd h hc⟩
      · exact ⟨'*', rfl, fun _ => hhead⟩
    · rintro ⟨c, rfl, hc⟩
      by_cases h : c = '*'
      · subst h
        exact .inr ⟨[], rfl, rfl, hc rfl⟩
      · exact .inl ⟨c, rfl, h⟩
  rw [unclosed, matches_star_iff hone]
  constructor
  · rintro hall ⟨x, y, rfl⟩
    exact hall x '*' ('/' :: y) (by simp) rfl (by simp)
  · rintro hnot x c y rfl rfl hhead
    rw [List.append_nil] at hhead
    obtain ⟨rest, rfl⟩ := List.head?_eq_some_iff.mp hhead
    exact hnot ⟨x, rest, by simp⟩

/-! ### What the code takes off -/

theorem opener_append (rest : Text) : "/**".toList ++ rest = '/' :: '*' :: '*' :: rest := rfl

theorem afterIndent?_eq_some_iff {c : Char} {rest : Text} (hc : isIndent c = false) :
    afterIndent? t = some (c :: rest) ↔
      ∃ ind, t = ind ++ ' ' :: c :: rest ∧ ∀ d ∈ ind, isIndent d = true := by
  unfold afterIndent?
  constructor
  · intro h
    split at h
    · rename_i hlast
      obtain ⟨ind, hind⟩ := List.getLast?_eq_some_iff.mp hlast
      refine ⟨ind, ?_, fun d hd => ?_⟩
      · rw [List.append_cons, ← Option.some.inj h, ← hind, List.takeWhile_append_dropWhile]
      · exact List.all_eq_true.mp List.all_takeWhile d (hind ▸ List.mem_append_left _ hd)
    · cases h
  · rintro ⟨ind, rfl, hind⟩
    have hall : ∀ d ∈ ind ++ [' '], isIndent d = true := by
      intro d hd
      obtain hd | hd := List.mem_append.mp hd
      · exact hind d hd
      · rw [List.mem_singleton.mp hd]
        rfl
    rw [List.append_cons, List.takeWhile_append_of_pos hall, List.dropWhile_append_of_pos hall,
      List.takeWhile_cons_of_neg (by simp [hc]), List.dropWhile_cons_of_neg (by simp [hc])]
    simp

/-- What is left behind an indentation and a star. -/
theorem afterStar?_eq_some_iff {rest : Text} :
    (afterIndent? t).bind (Text.stripStart? ['*']) = some rest ↔
      ∃ ind, t = ind ++ ' ' :: '*' :: rest ∧ ∀ d ∈ ind, isIndent d = true := by
  rw [Option.bind_eq_some_iff, ← afterIndent?_eq_some_iff rfl]
  constructor
  · rintro ⟨u, hu, hrest⟩
    rw [hu, Text.stripStart?_eq_some_iff.mp hrest]
    rfl
  · intro h
    exact ⟨'*' :: rest, h, Text.stripStart?_append ['*'] rest⟩

/-- What is left when blanks behind a `*/` are taken off. -/
theorem trimEnd_eq_close_iff {front : Text} : Text.trimEnd t = front ++ ['*', '/'] ↔
    ∃ trail, t = front ++ '*' :: '/' :: trail ∧ ∀ c ∈ trail, Text.isBlank c = true := by
  rw [List.append_cons, Text.trimEnd_eq_concat_iff rfl]
  simp only [List.append_assoc, List.cons_append, List.nil_append]

/-! ### The patterns -/

theorem opensComment_iff : opensComment t = true ↔ opening.Accepts t := by
  rw [opening, accepts_whole_iff, matches_blanks_cons]
  simp only [matches_verbatim_cons, matches_notAhead_char_cons, matches_all_singleton,
    matches_unclosed, opensComment, Option.any_eq_true, Text.stripStart?_eq_some_iff, opener_append,
    Text.trimStart_eq_cons_iff (show Text.isBlank '/' = false from rfl), List.append_nil,
    Bool.and_eq_true, Bool.not_eq_true', bne_iff_ne, ← Bool.not_eq_true, Text.contains_iff_infix]
  constructor
  · rintro ⟨rest, ⟨lead, rfl, hlead⟩, hrest⟩
    exact ⟨lead, _, rfl, hlead, rest, rfl, hrest⟩
  · rintro ⟨lead, _, rfl, hlead, rest, rfl, hrest⟩
    exact ⟨rest, ⟨lead, rfl, hlead⟩, hrest⟩

theorem closesComment_iff : closesComment t = true ↔ closing.Accepts t := by
  rw [closing, accepts_whole_iff, matches_blanks_cons]
  simp only [matches_all_singleton, matches_verbatim, closesComment, beq_iff_eq,
    Text.trimStart_eq_cons_iff (show Text.isBlank '*' = false from rfl)]
  constructor
  · rintro ⟨lead, rfl, hlead⟩
    exact ⟨lead, _, rfl, hlead, rfl⟩
  · rintro ⟨lead, _, rfl, hlead, rfl⟩
    exact ⟨lead, rfl, hlead⟩

theorem isCommentBody_iff : isCommentBody t = true ↔ body.Accepts t := by
  have hrest (rest : Text) :
      (rest.isEmpty || (rest.head? == some ' ' && !Text.contains rest ['*', '/'])) = true ↔
        rest = [] ∨ ∃ n, rest = ' ' :: n ∧ ¬['*', '/'] <:+: n := by
    cases rest with
    | nil => simp
    | cons c rest =>
      simp only [Bool.or_eq_true, Bool.and_eq_true, List.isEmpty_cons, List.head?_cons, beq_iff_eq,
        Option.some.injEq, Bool.not_eq_true', ← Bool.not_eq_true, Text.contains_iff_infix,
        List.infix_cons_iff, List.cons_prefix_cons]
      constructor
      · rintro (hnil | ⟨rfl, hnot⟩)
        · cases hnil
        · exact .inr ⟨rest, rfl, fun hinfix => hnot (.inr hinfix)⟩
      · rintro (hnil | ⟨n, heq, hnot⟩)
        · cases hnil
        · obtain ⟨rfl, rfl⟩ := List.cons.inj heq
          refine .inr ⟨rfl, ?_⟩
          rintro (⟨hstar, -⟩ | hinfix)
          · cases hstar
          · exact hnot hinfix
  rw [body, accepts_whole_iff, matches_margin_cons]
  simp only [matches_char_cons, matches_all_singleton, matches_optional, matches_unclosed,
    isCommentBody, Option.any_eq_true, afterStar?_eq_some_iff, hrest]
  constructor
  · rintro ⟨rest, ⟨ind, rfl, hind⟩, hrest⟩
    exact ⟨ind, _, rfl, hind, rest, rfl, hrest⟩
  · rintro ⟨ind, _, rfl, hind, rest, rfl, hrest⟩
    exact ⟨rest, ⟨ind, rfl, hind⟩, hrest⟩

/-- What follows a comment's start, or a star, is no matter. -/
theorem continuesComment_iff_exists : continuesComment t = true ↔
    ∃ lead first rest, t = lead ++ (first ++ rest) ∧ (∀ c ∈ lead, Text.isBlank c = true) ∧
      (first = "/**".toList ∨ first = ['*']) := by
  simp only [continuesComment, Bool.or_eq_true, Option.isSome_iff_exists, beq_iff_eq,
    List.head?_eq_some_iff, Text.stripStart?_eq_some_iff, opener_append,
    Text.trimStart_eq_cons_iff (show Text.isBlank '/' = false from rfl),
    Text.trimStart_eq_cons_iff (show Text.isBlank '*' = false from rfl)]
  constructor
  · rintro (⟨rest, lead, rfl, hlead⟩ | ⟨rest, lead, rfl, hlead⟩)
    · exact ⟨lead, _, rest, rfl, hlead, .inl rfl⟩
    · exact ⟨lead, _, rest, rfl, hlead, .inr rfl⟩
  · rintro ⟨lead, _, rest, rfl, hlead, rfl | rfl⟩
    · exact .inl ⟨rest, lead, rfl, hlead⟩
    · exact .inr ⟨rest, lead, rfl, hlead⟩

theorem matches_continuation : continuation.Matches [] part after ↔
    ∃ lead first rest, part = lead ++ (first ++ rest) ∧ (∀ c ∈ lead, Text.isBlank c = true) ∧
      (first = "/**".toList ∨ first = ['*']) ∧ '\n' ∉ rest := by
  rw [continuation, matches_start_cons, matches_blanks_cons]
  simp only [matches_alt_cons, matches_verbatim, matches_char, matches_all_singleton,
    matches_star_one, forall_bne_iff, true_and]
  constructor
  · rintro ⟨lead, _, rfl, hlead, first, rest, rfl, hfirst, hrest⟩
    exact ⟨lead, first, rest, rfl, hlead, hfirst, hrest⟩
  · rintro ⟨lead, first, rest, rfl, hlead, hfirst, hrest⟩
    exact ⟨lead, _, rfl, hlead, first, rest, rfl, hfirst, hrest⟩

theorem continuesComment_iff : continuesComment t = true ↔ continuation.Accepts t := by
  rw [continuesComment_iff_exists]
  constructor
  · rintro ⟨lead, first, rest, rfl, hlead, hfirst⟩
    refine ⟨[], lead ++ first, rest, by simp, matches_continuation.mpr ?_⟩
    exact ⟨lead, first, [], by simp, hlead, hfirst, List.not_mem_nil⟩
  · rintro ⟨before, part, after, rfl, h⟩
    obtain ⟨rfl, -⟩ := matches_start_cons.mp h
    obtain ⟨lead, first, rest, rfl, hlead, hfirst, -⟩ := matches_continuation.mp h
    exact ⟨lead, first, rest ++ after, by simp, hlead, hfirst⟩

/-- Without line feeds the whole text is a match. -/
theorem continuesComment_iff_matches (ht : '\n' ∉ t) :
    continuesComment t = true ↔ continuation.Matches [] t [] := by
  rw [continuesComment_iff_exists, matches_continuation]
  constructor
  · rintro ⟨lead, first, rest, rfl, hlead, hfirst⟩
    refine ⟨lead, first, rest, rfl, hlead, hfirst, fun hmem => ht ?_⟩
    exact List.mem_append_right lead (List.mem_append_right first hmem)
  · rintro ⟨lead, first, rest, rfl, hlead, hfirst, -⟩
    exact ⟨lead, first, rest, rfl, hlead, hfirst⟩

theorem endsComment_iff : endsComment t = true ↔ ending.Accepts t := by
  have hclose (rest : Text) : Text.trimEnd rest = ['*', '/'] ↔
      ∃ trail, rest = '*' :: '/' :: trail ∧ ∀ c ∈ trail, Text.isBlank c = true :=
    @trimEnd_eq_close_iff rest []
  rw [ending, accepts_whole_iff, matches_margin_cons]
  simp only [matches_verbatim_cons, matches_blanks, endsComment, Option.any_eq_true, beq_iff_eq,
    hclose]
  constructor
  · rintro ⟨_, hafter, trail, rfl, htrail⟩
    obtain ⟨ind, rfl, hind⟩ := (afterIndent?_eq_some_iff rfl).mp hafter
    exact ⟨ind, _, rfl, hind, trail, rfl, htrail⟩
  · rintro ⟨ind, _, rfl, hind, trail, rfl, htrail⟩
    exact ⟨_, (afterIndent?_eq_some_iff rfl).mpr ⟨ind, rfl, hind⟩, trail, rfl, htrail⟩

theorem endsCommentRule_iff : endsCommentRule t = true ↔ ruleEnding.Accepts t := by
  rw [ruleEnding, accepts_whole_iff, matches_margin_cons]
  simp only [matches_char_cons, matches_star_one_cons, matches_verbatim_cons, matches_blanks,
    endsCommentRule, Option.any_eq_true, afterStar?_eq_some_iff, Text.stripEnd?_eq_some_iff,
    trimEnd_eq_close_iff, forall_bne_iff, Bool.not_eq_true', ← Bool.not_eq_true, List.elem_iff]
  constructor
  · rintro ⟨_, ⟨ind, rfl, hind⟩, middle, ⟨trail, rfl, htrail⟩, hmiddle⟩
    exact ⟨ind, _, rfl, hind, _, rfl, middle, _, rfl, hmiddle, trail, rfl, htrail⟩
  · rintro ⟨ind, _, rfl, hind, _, rfl, middle, _, rfl, hmiddle, trail, rfl, htrail⟩
    exact ⟨_, ⟨ind, rfl, hind⟩, middle, ⟨trail, rfl, htrail⟩, hmiddle⟩

/-- **The patterns accept what their expressions accept,** in a text of any length and with any
number of stars, slashes and blanks. All but one go up to the end of the text; that one matches a
text without line feeds as a whole. -/
theorem patterns_exact (t : Text) :
    (opensComment t = true ↔ opening.Accepts t) ∧
      (closesComment t = true ↔ closing.Accepts t) ∧
      (isCommentBody t = true ↔ body.Accepts t) ∧
      (continuesComment t = true ↔ continuation.Accepts t) ∧
      (endsComment t = true ↔ ending.Accepts t) ∧
      (endsCommentRule t = true ↔ ruleEnding.Accepts t) ∧
      ('\n' ∉ t → (continuesComment t = true ↔ continuation.Matches [] t [])) :=
  ⟨opensComment_iff, closesComment_iff, isCommentBody_iff, continuesComment_iff, endsComment_iff,
    endsCommentRule_iff, continuesComment_iff_matches⟩

/-- A star after blanks goes on, with all that follows it. -/
theorem patterns_exact_star : continuation.Matches [] "\t * a /**/".toList [] := by
  obtain ⟨-, -, -, -, -, -, h⟩ := patterns_exact "\t * a /**/".toList
  exact (h (by decide)).mp (by decide)

end ScriptBench.Enter
