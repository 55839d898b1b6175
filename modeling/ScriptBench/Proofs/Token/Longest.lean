import ScriptBench.Proofs.Text.Regex
import ScriptBench.Proofs.Text.Strip
import ScriptBench.Token.Pattern

/-! The patterns of identifiers and literals take the longest match.

Digits with underscores between them are the texts of digits and underscores that begin and end
with a digit. So the longest of them at the front of a text is found by taking all digits and
underscores there are, and giving back the underscores at the end: whatever else begins the text
and ends with a digit begins what is left, too. -/
namespace ScriptBench.Pattern

open Regex

variable {digit : Char → Bool} {c : Char} {before part after s t : Text}

/-! ### The expressions -/

def isNameStart (c : Char) : Bool := isLetter c || c == '_'

def isNamePart (c : Char) : Bool := isAlphanumeric c || c == '.' || c == '_' || c == '-'

/-- `[a-zA-Z_][.a-zA-Z0-9_-]+` -/
def identifier : Regex := all [one isNameStart, plus (one isNamePart)]

/-- `-?[0-9]+(_+[0-9]+)*` -/
def integer : Regex :=
  all [optional (char '-'), plus (one isDigit), star (all [plus (char '_'), plus (one isDigit)])]

/-- `[0-9a-fA-F](_*[0-9a-fA-F])+` -/
def hex : Regex := all [one isHexDigit, plus (all [star (char '_'), one isHexDigit])]

/-! ### Identifiers -/

/-- A first character and at least one more. -/
def IsIdentifier (t : Text) : Prop :=
  ∃ c rest, t = c :: rest ∧ isNameStart c = true ∧ rest ≠ [] ∧ ∀ d ∈ rest, isNamePart d = true

theorem matches_identifier : identifier.Matches before part after ↔ IsIdentifier part := by
  rw [identifier, matches_one_cons]
  simp only [matches_all_singleton, matches_plus_one, IsIdentifier]

theorem identifier?_cons (c : Char) (rest : Text) : identifier? (c :: rest) =
    if isNameStart c && !(rest.takeWhile isNamePart).isEmpty then
      some ((rest.takeWhile isNamePart).length + 1)
    else none := rfl

theorem longest_identifier? (t : Text) : IsLongestFront IsIdentifier t (identifier? t) := by
  cases t with
  | nil =>
    rintro m hm ⟨c, rest, rfl, -⟩
    cases List.prefix_nil.mp hm
  | cons c rest =>
    have htail (m : Text) (hm : m <+: c :: rest) (hmatch : IsIdentifier m) :
        isNameStart c = true ∧ ∃ n, m = c :: n ∧ n ≠ [] ∧ n <+: rest.takeWhile isNamePart := by
      obtain ⟨d, n, rfl, hd, hne, hpart⟩ := hmatch
      obtain ⟨rfl, after, rfl⟩ := List.cons_prefix_cons.mp hm
      refine ⟨hd, n, rfl, hne, ?_⟩
      rw [List.takeWhile_append_of_pos hpart]
      exact List.prefix_append n _
    rw [identifier?_cons]
    split
    case isTrue h =>
      simp only [Bool.and_eq_true, Bool.not_eq_true', List.isEmpty_eq_false_iff] at h
      refine ⟨⟨c :: rest.takeWhile isNamePart, ?_, ?_, rfl⟩, fun m hm hmatch => ?_⟩
      · exact List.cons_prefix_cons.mpr ⟨rfl, List.takeWhile_prefix _⟩
      · exact ⟨c, _, rfl, h.1, h.2, List.all_eq_true.mp List.all_takeWhile⟩
      · obtain ⟨-, n, rfl, -, hn⟩ := htail m hm hmatch
        exact Nat.succ_le_succ hn.length_le
    case isFalse h =>
      intro m hm hmatch
      obtain ⟨hc, n, -, hne, hn⟩ := htail m hm hmatch
      refine h ?_
      simp only [Bool.and_eq_true, Bool.not_eq_true', List.isEmpty_eq_false_iff]
      exact ⟨hc, fun hnil => hne (List.prefix_nil.mp (hnil ▸ hn))⟩

/-! ### Digits with underscores between them -/

/-- Digits and underscores, up to a digit. -/
inductive EndsOnDigit (digit : Char → Bool) : Text → Prop where
  | nil : EndsOnDigit digit []
  | digit {c : Char} {t : Text} (hc : digit c = true) (ht : EndsOnDigit digit t) :
    EndsOnDigit digit (c :: t)
  | underscore {t : Text} (ht : EndsOnDigit digit t) (hne : t ≠ []) : EndsOnDigit digit ('_' :: t)

namespace EndsOnDigit

theorem tail (h : EndsOnDigit digit (c :: t)) : EndsOnDigit digit t := by
  cases h with
  | digit _ ht => exact ht
  | underscore ht _ => exact ht

theorem append (hs : EndsOnDigit digit s) (ht : EndsOnDigit digit t) :
    EndsOnDigit digit (s ++ t) := by
  induction hs with
  | nil => exact ht
  | digit hc _ ih => exact .digit hc ih
  | underscore _ hne ih => exact .underscore ih (List.append_ne_nil_of_left_ne_nil hne t)

theorem of_digits (h : ∀ c ∈ t, digit c = true) : EndsOnDigit digit t := by
  induction t with
  | nil => exact .nil
  | cons c t ih =>
    obtain ⟨hc, ht⟩ := List.forall_mem_cons.mp h
    exact .digit hc (ih ht)

theorem underscores_append (hs : ∀ c ∈ s, c = '_') (ht : EndsOnDigit digit t) (hne : t ≠ []) :
    EndsOnDigit digit (s ++ t) := by
  induction s with
  | nil => exact ht
  | cons c s ih =>
    obtain ⟨rfl, hrest⟩ := List.forall_mem_cons.mp hs
    exact .underscore (ih hrest) (List.append_ne_nil_of_right_ne_nil s hne)

theorem flatten {parts : List Text} (h : ∀ m ∈ parts, EndsOnDigit digit m) :
    EndsOnDigit digit parts.flatten := by
  induction parts with
  | nil => exact .nil
  | cons m parts ih =>
    obtain ⟨hm, hparts⟩ := List.forall_mem_cons.mp h
    exact hm.append (ih hparts)

theorem mem (h : EndsOnDigit digit t) : ∀ c ∈ t, (digit c || c == '_') = true := by
  induction h with
  | nil => simp
  | digit hc _ ih => exact List.forall_mem_cons.mpr ⟨by rw [hc, Bool.true_or], ih⟩
  | underscore _ _ ih => exact List.forall_mem_cons.mpr ⟨Bool.or_true _, ih⟩

theorem last (h : EndsOnDigit digit t) : ∀ c ∈ t.getLast?, digit c = true := by
  induction h with
  | nil => simp
  | @digit c t hc _ ih =>
    cases t with
    | nil => simpa using hc
    | cons d t => simpa using ih
  | @underscore t _ hne ih =>
    cases t with
    | nil => exact absurd rfl hne
    | cons d t => simpa using ih

theorem of_last (hmem : ∀ c ∈ t, (digit c || c == '_') = true)
    (hlast : ∀ c ∈ t.getLast?, digit c = true) : EndsOnDigit digit t := by
  induction t with
  | nil => exact .nil
  | cons c t ih =>
    obtain ⟨hc, hmem⟩ := List.forall_mem_cons.mp hmem
    by_cases ht : t = []
    · subst ht
      exact .digit (hlast c rfl) .nil
    · have hrest := ih hmem (by rwa [List.getLast?_cons_of_ne_nil ht] at hlast)
      obtain hdigit | hunderscore := Bool.or_eq_true_iff.mp hc
      · exact .digit hdigit hrest
      · rw [beq_iff_eq.mp hunderscore]
        exact .underscore hrest ht

theorem countP_pos (h : EndsOnDigit digit t) (hne : t ≠ []) : 0 < t.countP digit := by
  induction h with
  | nil => exact absurd rfl hne
  | digit hc _ _ =>
    rw [List.countP_cons_of_pos hc]
    exact Nat.succ_pos _
  | underscore _ hrest ih =>
    rw [List.countP_cons]
    exact Nat.add_pos_left (ih hrest) _

/-- Cut behind every digit. -/
theorem iff_exists_flatten : EndsOnDigit digit t ↔ ∃ parts : List Text, t = parts.flatten ∧
    ∀ m ∈ parts, ∃ s c, m = s ++ [c] ∧ (∀ d ∈ s, d = '_') ∧ digit c = true := by
  constructor
  · intro h
    induction h with
    | nil => exact ⟨[], rfl, by simp⟩
    | @digit c t hc _ ih =>
      obtain ⟨parts, rfl, hparts⟩ := ih
      exact ⟨[c] :: parts, rfl, List.forall_mem_cons.mpr ⟨⟨[], c, rfl, by simp, hc⟩, hparts⟩⟩
    | underscore _ hne ih =>
      obtain ⟨parts, rfl, hparts⟩ := ih
      cases parts with
      | nil => exact absurd rfl hne
      | cons m parts =>
        obtain ⟨⟨s, c, rfl, hs, hc⟩, hrest⟩ := List.forall_mem_cons.mp hparts
        have hfirst : ∀ d ∈ '_' :: s, d = '_' := List.forall_mem_cons.mpr ⟨rfl, hs⟩
        exact ⟨('_' :: s ++ [c]) :: parts, rfl,
          List.forall_mem_cons.mpr ⟨⟨'_' :: s, c, rfl, hfirst, hc⟩, hrest⟩⟩
  · rintro ⟨parts, rfl, hparts⟩
    refine flatten fun m hm => ?_
    obtain ⟨s, c, rfl, hs, hc⟩ := hparts m hm
    exact underscores_append hs (.digit hc .nil) (List.cons_ne_nil c [])

/-- Underscores, and digits behind them. -/
def IsGroup (digit : Char → Bool) (t : Text) : Prop :=
  ∃ s m, t = s ++ m ∧ (s ≠ [] ∧ ∀ c ∈ s, c = '_') ∧ m ≠ [] ∧ ∀ c ∈ m, digit c = true

/-- Cut in front of the underscores. -/
theorem iff_exists_groups : EndsOnDigit digit t ↔ ∃ (m : Text) (parts : List Text),
    t = m ++ parts.flatten ∧ (∀ c ∈ m, digit c = true) ∧ ∀ k ∈ parts, IsGroup digit k := by
  constructor
  · intro h
    induction h with
    | nil => exact ⟨[], [], rfl, by simp, by simp⟩
    | @digit c t hc _ ih =>
      obtain ⟨m, parts, rfl, hm, hparts⟩ := ih
      exact ⟨c :: m, parts, rfl, List.forall_mem_cons.mpr ⟨hc, hm⟩, hparts⟩
    | underscore _ hne ih =>
      obtain ⟨m, parts, rfl, hm, hparts⟩ := ih
      -- The underscore goes before the first digits, or before the underscores before them.
      by_cases hnil : m = []
      · subst hnil
        cases parts with
        | nil => exact absurd rfl hne
        | cons k parts =>
          obtain ⟨⟨s, m, rfl, ⟨-, hs⟩, hdigits⟩, hrest⟩ := List.forall_mem_cons.mp hparts
          have hfirst : '_' :: s ≠ [] ∧ ∀ d ∈ '_' :: s, d = '_' :=
            ⟨List.cons_ne_nil '_' s, List.forall_mem_cons.mpr ⟨rfl, hs⟩⟩
          exact ⟨[], ('_' :: s ++ m) :: parts, rfl, by simp,
            List.forall_mem_cons.mpr ⟨⟨'_' :: s, m, rfl, hfirst, hdigits⟩, hrest⟩⟩
      · have hgroup : IsGroup digit ('_' :: m) := ⟨['_'], m, rfl, by simp, hnil, hm⟩
        exact ⟨[], ('_' :: m) :: parts, rfl, by simp, List.forall_mem_cons.mpr ⟨hgroup, hparts⟩⟩
  · rintro ⟨m, parts, rfl, hm, hparts⟩
    refine (of_digits hm).append (flatten fun k hk => ?_)
    obtain ⟨s, n, rfl, ⟨-, hs⟩, hne, hn⟩ := hparts k hk
    exact underscores_append hs (of_digits hn) hne

end EndsOnDigit

/-! ### Literals -/

/-- A digit, and more digits with underscores between them. -/
def IsGrouped (digit : Char → Bool) (t : Text) : Prop :=
  ∃ c rest, t = c :: rest ∧ digit c = true ∧ EndsOnDigit digit rest

/-- Decimal digits, after a sign or not. -/
def IsInteger (t : Text) : Prop :=
  ∃ sign m, t = sign ++ m ∧ (sign = [] ∨ sign = ['-']) ∧ IsGrouped isDigit m

/-- At least two hexadecimal digits. -/
def IsHex (t : Text) : Prop :=
  ∃ c rest, t = c :: rest ∧ isHexDigit c = true ∧ rest ≠ [] ∧ EndsOnDigit isHexDigit rest

theorem matches_group : (all [plus (char '_'), plus (one digit)]).Matches before part after ↔
    EndsOnDigit.IsGroup digit part := by
  rw [matches_all_cons]
  simp only [matches_all_singleton, matches_plus_char, matches_plus_one, EndsOnDigit.IsGroup]

theorem matches_grouped :
    (all [plus (one digit), star (all [plus (char '_'), plus (one digit)])]).Matches
      before part after ↔ IsGrouped digit part := by
  rw [matches_all_cons]
  simp only [matches_all_singleton, matches_plus_one,
    matches_star_flatten fun _ _ _ => matches_group]
  constructor
  · rintro ⟨m, _, rfl, ⟨hne, hm⟩, parts, rfl, hparts⟩
    obtain ⟨c, m, rfl⟩ := List.exists_cons_of_ne_nil hne
    obtain ⟨hc, hrest⟩ := List.forall_mem_cons.mp hm
    exact ⟨c, m ++ parts.flatten, rfl, hc,
      EndsOnDigit.iff_exists_groups.mpr ⟨m, parts, rfl, hrest, hparts⟩⟩
  · rintro ⟨c, _, rfl, hc, hrest⟩
    obtain ⟨m, parts, rfl, hm, hparts⟩ := EndsOnDigit.iff_exists_groups.mp hrest
    exact ⟨c :: m, _, rfl, ⟨List.cons_ne_nil c m, List.forall_mem_cons.mpr ⟨hc, hm⟩⟩, parts, rfl,
      hparts⟩

theorem matches_integer : integer.Matches before part after ↔ IsInteger part := by
  rw [integer, matches_all_cons]
  simp only [matches_optional, matches_char, matches_grouped, IsInteger]

theorem matches_hex : hex.Matches before part after ↔ IsHex part := by
  have hplaced (before part after : Text) :
      (all [star (char '_'), one isHexDigit]).Matches before part after ↔
        ∃ s c, part = s ++ [c] ∧ (∀ d ∈ s, d = '_') ∧ isHexDigit c = true := by
    rw [matches_all_cons]
    simp only [matches_all_singleton, matches_star_char, matches_one]
    constructor
    · rintro ⟨s, _, rfl, hs, c, rfl, hc⟩
      exact ⟨s, c, rfl, hs, hc⟩
    · rintro ⟨s, c, rfl, hs, hc⟩
      exact ⟨s, [c], rfl, hs, c, rfl, hc⟩
  have hnonempty (before after : Text) :
      ¬(all [star (char '_'), one isHexDigit]).Matches before [] after := by
    rw [hplaced]
    rintro ⟨s, c, hnil, -⟩
    exact List.append_ne_nil_of_right_ne_nil s (List.cons_ne_nil c []) hnil.symm
  rw [hex, matches_one_cons]
  simp only [matches_all_singleton, matches_plus_iff hnonempty, matches_star_flatten hplaced,
    ← EndsOnDigit.iff_exists_flatten, IsHex]

/-! ### Digits and underscores up to the last digit -/

theorem digitRun_prefix_takeWhile (digit : Char → Bool) (t : Text) :
    digitRun digit t <+: t.takeWhile fun c => digit c || c == '_' := by
  rw [← List.reverse_suffix, digitRun, List.reverse_reverse]
  exact List.dropWhile_suffix _

theorem digitRun_prefix (digit : Char → Bool) (t : Text) : digitRun digit t <+: t :=
  (digitRun_prefix_takeWhile digit t).trans (List.takeWhile_prefix _)

theorem endsOnDigit_digitRun (digit : Char → Bool) (t : Text) :
    EndsOnDigit digit (digitRun digit t) := by
  have hmem : ∀ c ∈ digitRun digit t, (digit c || c == '_') = true := by
    intro c hc
    have htake : c ∈ t.takeWhile fun c => digit c || c == '_' :=
      (digitRun_prefix_takeWhile digit t).subset hc
    exact List.all_eq_true.mp List.all_takeWhile c htake
  refine .of_last hmem fun c hc => ?_
  have hclass := hmem c (List.mem_of_getLast? hc)
  rw [digitRun, List.getLast?_reverse] at hc
  have hnot := Text.head?_dropWhile (· == '_') _ c hc
  simpa [hnot] using hclass

/-- What ends on a digit goes into the run as a whole. -/
theorem digitRun_append (hdigit : digit '_' = false) (hs : EndsOnDigit digit s) :
    digitRun digit (s ++ t) = s ++ digitRun digit t := by
  have hstay : s.reverse.dropWhile (· == '_') = s.reverse := by
    cases hreverse : s.reverse with
    | nil => rfl
    | cons c rest =>
      have hc : digit c = true := by
        refine hs.last c ?_
        rw [← List.head?_reverse, hreverse]
        rfl
      refine List.dropWhile_cons_of_neg fun hunderscore => ?_
      rw [beq_iff_eq.mp hunderscore, hdigit] at hc
      cases hc
  rw [digitRun, List.takeWhile_append_of_pos hs.mem, List.reverse_append, List.dropWhile_append,
    hstay, digitRun]
  split
  · rename_i hempty
    rw [List.isEmpty_iff.mp hempty, List.reverse_reverse, List.reverse_nil, List.append_nil]
  · rw [List.reverse_append, List.reverse_reverse]

/-- The run is the longest text of a language whose texts end on digits, when the language keeps a
text to which digits and underscores are added up to a digit. -/
theorem longest_digitRun {L : Text → Prop} {cond : Bool} (hdigit : digit '_' = false)
    (hL : ∀ m, L m → EndsOnDigit digit m)
    (hmore : ∀ m n, L m → EndsOnDigit digit (m ++ n) → L (m ++ n))
    (hcond : cond = true ↔ L (digitRun digit t)) :
    IsLongestFront L t (if cond then some (digitRun digit t).length else none) := by
  have hfront (m : Text) (hm : m <+: t) (hmatch : L m) :
      m <+: digitRun digit t ∧ L (digitRun digit t) := by
    obtain ⟨rest, rfl⟩ := hm
    have hends := endsOnDigit_digitRun digit (m ++ rest)
    rw [digitRun_append hdigit (hL m hmatch)] at hends ⊢
    exact ⟨List.prefix_append m _, hmore m _ hmatch hends⟩
  split
  case isTrue h =>
    refine ⟨⟨_, digitRun_prefix digit t, hcond.mp h, rfl⟩, fun m hm hmatch => ?_⟩
    exact (hfront m hm hmatch).1.length_le
  case isFalse h =>
    exact fun m hm hmatch => h (hcond.mpr (hfront m hm hmatch).2)

theorem EndsOnDigit.isGrouped_iff (h : EndsOnDigit digit t) :
    t.head?.any digit = true ↔ IsGrouped digit t := by
  cases t with
  | nil => simp [IsGrouped]
  | cons c rest =>
    rw [List.head?_cons, Option.any_some]
    constructor
    · exact fun hc => ⟨c, rest, rfl, hc, h.tail⟩
    · rintro ⟨_, _, heq, hc, -⟩
      obtain ⟨rfl, rfl⟩ := List.cons.inj heq
      exact hc

/-- Counting the digits tells that there is more than the first. -/
theorem EndsOnDigit.isHex_iff (h : EndsOnDigit isHexDigit t) :
    (t.head? != some '_' && decide (2 ≤ t.countP isHexDigit)) = true ↔ IsHex t := by
  simp only [Bool.and_eq_true, bne_iff_ne, decide_eq_true_eq]
  cases t with
  | nil => simp [IsHex]
  | cons c rest =>
    constructor
    · rintro ⟨hfirst, hcount⟩
      have hne : c ≠ '_' := fun heq => hfirst (congrArg some heq)
      have hc : isHexDigit c = true := by simpa [hne] using h.mem c List.mem_cons_self
      refine ⟨c, rest, rfl, hc, ?_, h.tail⟩
      rintro rfl
      rw [List.countP_singleton, if_pos hc] at hcount
      omega
    · rintro ⟨_, _, heq, hc, hne, hrest⟩
      obtain ⟨rfl, rfl⟩ := List.cons.inj heq
      constructor
      · intro hfirst
        rw [Option.some.inj hfirst] at hc
        cases hc
      · rw [List.countP_cons_of_pos hc]
        exact Nat.succ_le_succ (hrest.countP_pos hne)

theorem longest_natural? (t : Text) : IsLongestFront (IsGrouped isDigit) t (natural? t) := by
  refine longest_digitRun rfl ?_ ?_ (endsOnDigit_digitRun isDigit t).isGrouped_iff
  · rintro _ ⟨c, rest, rfl, hc, hrest⟩
    exact .digit hc hrest
  · rintro _ n ⟨c, rest, rfl, hc, -⟩ hends
    exact ⟨c, rest ++ n, rfl, hc, hends.tail⟩

theorem longest_hex? (t : Text) : IsLongestFront IsHex t (hex? t) := by
  refine longest_digitRun rfl ?_ ?_ (endsOnDigit_digitRun isHexDigit t).isHex_iff
  · rintro _ ⟨c, rest, rfl, hc, -, hrest⟩
    exact .digit hc hrest
  · rintro _ n ⟨c, rest, rfl, hc, hne, -⟩ hends
    exact ⟨c, rest ++ n, rfl, hc, List.append_ne_nil_of_left_ne_nil hne n, hends.tail⟩

theorem longest_integer? (t : Text) : IsLongestFront IsInteger t (integer? t) := by
  unfold integer?
  split
  · rename_i rest
    refine (longest_natural? rest).cons fun m hm => ?_
    constructor
    · rintro ⟨sign, k, rfl, rfl | rfl, hk⟩
      · -- A sign is no digit.
        obtain ⟨c, k, rfl, hc, -⟩ := hk
        obtain ⟨rfl, -⟩ := List.cons_prefix_cons.mp hm
        cases hc
      · exact ⟨k, rfl, hk⟩
    · rintro ⟨k, rfl, hk⟩
      exact ⟨['-'], k, rfl, .inr rfl, hk⟩
  · rename_i hsign
    refine (longest_natural? t).congr fun m hm => ?_
    constructor
    · rintro ⟨sign, k, rfl, rfl | rfl, hk⟩
      · exact hk
      · obtain ⟨rest, rfl⟩ := hm
        exact absurd rfl (hsign (k ++ rest))
    · exact fun hk => ⟨[], m, rfl, .inl rfl, hk⟩

/-! ### At any place of a text -/

variable {i : Nat}

theorem isLongest_identifier (hi : i ≤ t.length) :
    identifier.IsLongest t i ((identifier? (t.drop i)).map (i + ·)) :=
  (longest_identifier? (t.drop i)).isLongest (fun _ _ _ => matches_identifier) hi

theorem isLongest_integer (hi : i ≤ t.length) :
    integer.IsLongest t i ((integer? (t.drop i)).map (i + ·)) :=
  (longest_integer? (t.drop i)).isLongest (fun _ _ _ => matches_integer) hi

theorem isLongest_hex (hi : i ≤ t.length) :
    hex.IsLongest t i ((hex? (t.drop i)).map (i + ·)) :=
  (longest_hex? (t.drop i)).isLongest (fun _ _ _ => matches_hex) hi

end ScriptBench.Pattern
