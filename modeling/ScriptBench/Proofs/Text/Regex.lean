import ScriptBench.Text

/-! Regular expressions, with anchors and negative look-ahead.

An expression matches a part of a text between what stands before the part and what stands after
it. Both are there for the anchors and the look-ahead; everything else asks about the part alone. A
text is accepted when some part of it is matched. Of the matches at a place of a text the longest
one has the last end, if there are any. -/
namespace ScriptBench

inductive Regex where
  | empty
  /-- The start of a text, `^`. -/
  | start
  /-- The end of a text, `$`. -/
  | stop
  /-- One character of a class. -/
  | one (p : Char → Bool)
  | seq (r s : Regex)
  | alt (r s : Regex)
  /-- Any number of times, `r*`. -/
  | star (r : Regex)
  /-- Nothing, where `r` does not match what follows, `(?!r)`. -/
  | notAhead (r : Regex)

namespace Regex

/-! ### Expressions -/

def char (c : Char) : Regex := one (· == c)

/-- Expressions one after another. -/
def all (rs : List Regex) : Regex := rs.foldr seq empty

def verbatim (t : Text) : Regex := all (t.map char)

/-- At most once, `r?`. -/
def optional (r : Regex) : Regex := alt r empty

/-- At least once, `r+`. -/
def plus (r : Regex) : Regex := seq r (star r)

/-- From the start of a text to its end, `^…$`. -/
def whole (rs : List Regex) : Regex := all (start :: (rs ++ [stop]))

/-! ### Matches -/

/-- Parts one after another, each of which stands as `P` says between what is before it and what
is after it. -/
inductive Repeats (P : Text → Text → Text → Prop) : Text → Text → Text → Prop where
  | nil (before after : Text) : Repeats P before [] after
  | cons {before m n after : Text} (first : P before m (n ++ after))
    (rest : Repeats P (before ++ m) n after) : Repeats P before (m ++ n) after

def Matches : Regex → (before part after : Text) → Prop
  | empty, _, part, _ => part = []
  | start, before, part, _ => part = [] ∧ before = []
  | stop, _, part, after => part = [] ∧ after = []
  | one p, _, part, _ => ∃ c, part = [c] ∧ p c = true
  | seq r s, before, part, after =>
    ∃ m n, part = m ++ n ∧ r.Matches before m (n ++ after) ∧ s.Matches (before ++ m) n after
  | alt r s, before, part, after => r.Matches before part after ∨ s.Matches before part after
  | star r, before, part, after => Repeats r.Matches before part after
  | notAhead r, before, part, after =>
    part = [] ∧ ∀ m rest, after = m ++ rest → ¬ r.Matches before m rest

/-- Some part of the text is a match. -/
def Accepts (r : Regex) (t : Text) : Prop :=
  ∃ before part after, t = before ++ (part ++ after) ∧ r.Matches before part after

/-- What stands between two places of a text is a match. -/
def MatchesAt (r : Regex) (t : Text) (i j : Nat) : Prop :=
  ∃ before part after, t = before ++ (part ++ after) ∧ before.length = i ∧ i + part.length = j ∧
    r.Matches before part after

/-- The end of the longest match at a place, or nothing if there is no match at that place. -/
def IsLongest (r : Regex) (t : Text) (i : Nat) : Option Nat → Prop
  | none => ∀ j, ¬ r.MatchesAt t i j
  | some j => r.MatchesAt t i j ∧ ∀ k, r.MatchesAt t i k → k ≤ j

variable {r s : Regex} {rs : List Regex} {p : Char → Bool} {before part after t : Text}

/-! ### One after another -/

theorem matches_all_cons : (all (r :: rs)).Matches before part after ↔
    ∃ m n, part = m ++ n ∧ r.Matches before m (n ++ after) ∧
      (all rs).Matches (before ++ m) n after := Iff.rfl

theorem matches_char {c : Char} : (char c).Matches before part after ↔ part = [c] := by
  constructor
  · rintro ⟨d, rfl, hd⟩
    rw [beq_iff_eq.mp hd]
  · rintro rfl
    exact ⟨c, rfl, beq_self_eq_true c⟩

theorem matches_verbatim {w : Text} : (verbatim w).Matches before part after ↔ part = w := by
  induction w generalizing before part with
  | nil => exact Iff.rfl
  | cons c w ih =>
    rw [verbatim, List.map_cons, matches_all_cons]
    constructor
    · rintro ⟨m, n, rfl, hfirst, hrest⟩
      rw [matches_char.mp hfirst, ih.mp hrest]
      rfl
    · rintro rfl
      exact ⟨[c], w, rfl, matches_char.mpr rfl, ih.mpr rfl⟩

theorem matches_fixed_cons {w : Text}
    (h : ∀ before part after, r.Matches before part after ↔ part = w) :
    (all (r :: rs)).Matches before part after ↔
      ∃ n, part = w ++ n ∧ (all rs).Matches (before ++ w) n after := by
  rw [matches_all_cons]
  constructor
  · rintro ⟨m, n, rfl, hfirst, hrest⟩
    obtain rfl := (h _ _ _).mp hfirst
    exact ⟨n, rfl, hrest⟩
  · rintro ⟨n, rfl, hrest⟩
    exact ⟨w, n, rfl, (h _ _ _).mpr rfl, hrest⟩

theorem matches_char_cons {c : Char} : (all (char c :: rs)).Matches before part after ↔
    ∃ n, part = c :: n ∧ (all rs).Matches (before ++ [c]) n after :=
  matches_fixed_cons fun _ _ _ => matches_char

theorem matches_verbatim_cons {w : Text} : (all (verbatim w :: rs)).Matches before part after ↔
    ∃ n, part = w ++ n ∧ (all rs).Matches (before ++ w) n after :=
  matches_fixed_cons fun _ _ _ => matches_verbatim

theorem matches_all_singleton :
    (all [r]).Matches before part after ↔ r.Matches before part after := by
  constructor
  · rintro ⟨m, n, rfl, h, rfl⟩
    rwa [List.append_nil]
  · intro h
    exact ⟨part, [], (List.append_nil part).symm, h, rfl⟩

theorem matches_optional : r.optional.Matches before part after ↔
    part = [] ∨ r.Matches before part after := or_comm

theorem matches_one : (one p).Matches before part after ↔ ∃ c, part = [c] ∧ p c = true := Iff.rfl

theorem matches_one_cons : (all (one p :: rs)).Matches before part after ↔
    ∃ c n, part = c :: n ∧ p c = true ∧ (all rs).Matches (before ++ [c]) n after := by
  rw [matches_all_cons]
  constructor
  · rintro ⟨_, n, rfl, ⟨c, rfl, hc⟩, hrest⟩
    exact ⟨c, n, rfl, hc, hrest⟩
  · rintro ⟨c, n, rfl, hc, hrest⟩
    exact ⟨[c], n, rfl, ⟨c, rfl, hc⟩, hrest⟩

theorem matches_alt : (alt r s).Matches before part after ↔
    r.Matches before part after ∨ s.Matches before part after := Iff.rfl

theorem matches_alt_cons : (all (alt r s :: rs)).Matches before part after ↔
    ∃ m n, part = m ++ n ∧ (r.Matches before m (n ++ after) ∨ s.Matches before m (n ++ after)) ∧
      (all rs).Matches (before ++ m) n after := Iff.rfl

theorem matches_notAhead_char {c : Char} :
    (notAhead (char c)).Matches before part after ↔ part = [] ∧ after.head? ≠ some c := by
  simp only [Matches, matches_char]
  refine and_congr_right fun _ => ?_
  constructor
  · intro hall hhead
    obtain ⟨rest, rfl⟩ := List.head?_eq_some_iff.mp hhead
    exact hall [c] rest rfl rfl
  · rintro hhead m rest rfl rfl
    exact hhead rfl

theorem matches_notAhead_char_cons {c : Char} :
    (all (notAhead (char c) :: rs)).Matches before part after ↔
      (part ++ after).head? ≠ some c ∧ (all rs).Matches before part after := by
  rw [matches_all_cons]
  constructor
  · rintro ⟨m, n, rfl, hfirst, hrest⟩
    obtain ⟨rfl, hhead⟩ := matches_notAhead_char.mp hfirst
    rw [List.append_nil] at hrest
    exact ⟨hhead, hrest⟩
  · rintro ⟨hhead, hrest⟩
    refine ⟨[], part, rfl, matches_notAhead_char.mpr ⟨rfl, hhead⟩, ?_⟩
    rwa [List.append_nil]

/-! ### Any number of times -/

/-- An expression that matches one character at a time, depending on what follows it, matches any
number of them when it matches each. -/
theorem matches_star_iff {P : Char → Text → Prop}
    (h : ∀ before part after, r.Matches before part after ↔ ∃ c, part = [c] ∧ P c after) :
    (star r).Matches before part after ↔ ∀ x c y, part = x ++ c :: y → P c (y ++ after) := by
  constructor
  · intro hstar
    induction hstar with
    | nil before after =>
      intro x c y hnil
      simp at hnil
    | cons first rest ih =>
      obtain ⟨d, rfl, hd⟩ := (h _ _ _).mp first
      intro x c y hsplit
      cases x with
      | nil =>
        obtain ⟨rfl, rfl⟩ := List.cons.inj hsplit
        exact hd
      | cons e x => exact ih x c y (List.cons.inj hsplit).2
  · intro hall
    induction part generalizing before with
    | nil => exact .nil before after
    | cons c rest ih =>
      refine .cons ((h before [c] _).mpr ⟨c, rfl, hall [] c rest rfl⟩) (ih fun x d y hsplit => ?_)
      exact hall (c :: x) d y (congrArg (c :: ·) hsplit)

theorem matches_star_of_class (h : ∀ before part after, r.Matches before part after ↔
      ∃ c, part = [c] ∧ p c = true) :
    (star r).Matches before part after ↔ ∀ c ∈ part, p c = true := by
  rw [matches_star_iff h]
  constructor
  · intro hall c hc
    obtain ⟨x, y, rfl⟩ := List.append_of_mem hc
    exact hall x c y rfl
  · rintro hall x c y rfl
    exact hall c (by simp)

theorem matches_star_one : (star (one p)).Matches before part after ↔ ∀ c ∈ part, p c = true :=
  matches_star_of_class fun _ _ _ => Iff.rfl

theorem matches_star_one_cons : (all (star (one p) :: rs)).Matches before part after ↔
    ∃ m n, part = m ++ n ∧ (∀ c ∈ m, p c = true) ∧ (all rs).Matches (before ++ m) n after := by
  simp only [matches_all_cons, matches_star_one]

theorem matches_star_char {c : Char} :
    (star (char c)).Matches before part after ↔ ∀ d ∈ part, d = c := by
  rw [char, matches_star_one]
  simp only [beq_iff_eq]

/-- Where an expression matches the texts of a language, a repetition of it matches texts of the
language one after another. -/
theorem matches_star_flatten {L : Text → Prop}
    (h : ∀ before part after, r.Matches before part after ↔ L part) :
    (star r).Matches before part after ↔
      ∃ parts : List Text, part = parts.flatten ∧ ∀ m ∈ parts, L m := by
  constructor
  · intro hstar
    induction hstar with
    | nil => exact ⟨[], rfl, by simp⟩
    | cons first rest ih =>
      obtain ⟨parts, rfl, hparts⟩ := ih
      exact ⟨_ :: parts, rfl, List.forall_mem_cons.mpr ⟨(h _ _ _).mp first, hparts⟩⟩
  · rintro ⟨parts, rfl, hparts⟩
    induction parts generalizing before with
    | nil => exact .nil before after
    | cons m parts ih =>
      obtain ⟨hfirst, hrest⟩ := List.forall_mem_cons.mp hparts
      exact .cons ((h _ _ _).mpr hfirst) (ih hrest)

/-- Where an expression does not match the empty text, at least one repetition is any number of
them that are not empty. -/
theorem matches_plus_iff (h : ∀ before after, ¬r.Matches before [] after) :
    (plus r).Matches before part after ↔ part ≠ [] ∧ (star r).Matches before part after := by
  constructor
  · rintro ⟨m, n, rfl, hfirst, hrest⟩
    refine ⟨fun hnil => ?_, .cons hfirst hrest⟩
    obtain ⟨rfl, rfl⟩ := List.append_eq_nil_iff.mp hnil
    exact h _ _ hfirst
  · rintro ⟨hne, hstar⟩
    cases hstar with
    | nil => exact absurd rfl hne
    | cons first rest => exact ⟨_, _, rfl, first, rest⟩

theorem matches_plus_one : (plus (one p)).Matches before part after ↔
    part ≠ [] ∧ ∀ c ∈ part, p c = true := by
  rw [matches_plus_iff, matches_star_one]
  rintro before after ⟨c, hnil, -⟩
  cases hnil

theorem matches_plus_char {c : Char} : (plus (char c)).Matches before part after ↔
    part ≠ [] ∧ ∀ d ∈ part, d = c := by
  rw [char, matches_plus_one]
  simp only [beq_iff_eq]

/-! ### Anchors -/

theorem matches_start_cons : (all (start :: rs)).Matches before part after ↔
    before = [] ∧ (all rs).Matches before part after := by
  constructor
  · rintro ⟨m, n, rfl, ⟨rfl, rfl⟩, hrest⟩
    exact ⟨rfl, hrest⟩
  · rintro ⟨rfl, hrest⟩
    exact ⟨[], part, rfl, ⟨rfl, rfl⟩, hrest⟩

/-- An expression that begins at the start of a text is matched at its start. -/
theorem accepts_start_iff : (all (start :: rs)).Accepts t ↔
    ∃ part after, t = part ++ after ∧ (all rs).Matches [] part after := by
  constructor
  · rintro ⟨before, part, after, rfl, h⟩
    obtain ⟨rfl, h⟩ := matches_start_cons.mp h
    exact ⟨part, after, rfl, h⟩
  · rintro ⟨part, after, rfl, h⟩
    exact ⟨[], part, after, rfl, matches_start_cons.mpr ⟨rfl, h⟩⟩

/-- At the end of a text, what goes up to the end is matched by all that is left. -/
theorem matches_all_stop : (all (rs ++ [stop])).Matches before part after ↔
    after = [] ∧ (all rs).Matches before part [] := by
  induction rs generalizing before part with
  | nil =>
    constructor
    · rintro ⟨m, n, rfl, ⟨rfl, hafter⟩, rfl⟩
      exact ⟨hafter, rfl⟩
    · rintro ⟨rfl, rfl⟩
      exact ⟨[], [], rfl, ⟨rfl, rfl⟩, rfl⟩
  | cons r rs ih =>
    rw [List.cons_append, matches_all_cons, matches_all_cons]
    constructor
    · rintro ⟨m, n, rfl, hfirst, hrest⟩
      obtain ⟨rfl, hbefore⟩ := ih.mp hrest
      exact ⟨rfl, m, n, rfl, hfirst, hbefore⟩
    · rintro ⟨rfl, m, n, rfl, hfirst, hrest⟩
      exact ⟨m, n, rfl, hfirst, ih.mpr ⟨rfl, hrest⟩⟩

/-- Between the anchors stands the whole text. -/
theorem accepts_whole_iff : (whole rs).Accepts t ↔ (all rs).Matches [] t [] := by
  rw [whole, accepts_start_iff]
  constructor
  · rintro ⟨part, after, rfl, h⟩
    obtain ⟨rfl, h⟩ := matches_all_stop.mp h
    rwa [List.append_nil]
  · intro h
    exact ⟨t, [], (List.append_nil t).symm, matches_all_stop.mpr ⟨rfl, h⟩⟩

/-! ### The longest match -/

variable {L M : Text → Prop} {i j : Nat} {n? : Option Nat}

/-- The length of the longest text of a language that a text begins with, or nothing if it begins
with none. -/
def IsLongestFront (L : Text → Prop) (t : Text) : Option Nat → Prop
  | none => ∀ m, m <+: t → ¬L m
  | some n => (∃ m, m <+: t ∧ L m ∧ m.length = n) ∧ ∀ m, m <+: t → L m → m.length ≤ n

theorem IsLongestFront.congr (h : IsLongestFront L t n?) (hM : ∀ m, m <+: t → (M m ↔ L m)) :
    IsLongestFront M t n? := by
  cases n? with
  | none => exact fun m hm hmatch => h m hm ((hM m hm).mp hmatch)
  | some n =>
    obtain ⟨⟨m, hm, hmatch, hlength⟩, hlongest⟩ := h
    refine ⟨⟨m, hm, (hM m hm).mpr hmatch, hlength⟩, fun k hk hother => ?_⟩
    exact hlongest k hk ((hM k hk).mp hother)

/-- Texts that go on after a first character are as long as they are, and that character. -/
theorem IsLongestFront.cons {c : Char} (h : IsLongestFront L t n?)
    (hM : ∀ m, m <+: c :: t → (M m ↔ ∃ k, m = c :: k ∧ L k)) :
    IsLongestFront M (c :: t) (n?.map (· + 1)) := by
  have hrest (m : Text) (hm : m <+: c :: t) (hmatch : M m) : ∃ k, m = c :: k ∧ k <+: t ∧ L k := by
    obtain ⟨k, rfl, hk⟩ := (hM m hm).mp hmatch
    exact ⟨k, rfl, (List.cons_prefix_cons.mp hm).2, hk⟩
  cases n? with
  | none =>
    intro m hm hmatch
    obtain ⟨k, -, hk, hother⟩ := hrest m hm hmatch
    exact h k hk hother
  | some n =>
    obtain ⟨⟨m, hm, hmatch, rfl⟩, hlongest⟩ := h
    have hfront : c :: m <+: c :: t := List.cons_prefix_cons.mpr ⟨rfl, hm⟩
    refine ⟨⟨c :: m, hfront, (hM _ hfront).mpr ⟨m, rfl, hmatch⟩, rfl⟩, fun k hk hother => ?_⟩
    obtain ⟨k, rfl, hk, hother⟩ := hrest k hk hother
    exact Nat.succ_le_succ (hlongest k hk hother)

/-- What matches at a place is what the rest of the text begins with. -/
theorem matchesAt_iff (h : ∀ before part after, r.Matches before part after ↔ L part)
    (hi : i ≤ t.length) : r.MatchesAt t i j ↔ ∃ m, m <+: t.drop i ∧ L m ∧ i + m.length = j := by
  constructor
  · rintro ⟨before, part, after, rfl, rfl, hj, hmatch⟩
    refine ⟨part, ?_, (h _ _ _).mp hmatch, hj⟩
    rw [List.drop_left]
    exact List.prefix_append part after
  · rintro ⟨m, ⟨after, hafter⟩, hm, hj⟩
    refine ⟨t.take i, m, after, ?_, List.length_take_of_le hi, hj, (h _ _ _).mpr hm⟩
    rw [hafter, List.take_append_drop]

theorem IsLongestFront.isLongest (h : IsLongestFront L (t.drop i) n?)
    (hr : ∀ before part after, r.Matches before part after ↔ L part) (hi : i ≤ t.length) :
    r.IsLongest t i (n?.map (i + ·)) := by
  cases n? with
  | none =>
    intro j hj
    obtain ⟨m, hm, hmatch, -⟩ := (matchesAt_iff hr hi).mp hj
    exact h m hm hmatch
  | some n =>
    obtain ⟨⟨m, hm, hmatch, rfl⟩, hlongest⟩ := h
    refine ⟨(matchesAt_iff hr hi).mpr ⟨m, hm, hmatch, rfl⟩, fun j hj => ?_⟩
    obtain ⟨k, hk, hother, rfl⟩ := (matchesAt_iff hr hi).mp hj
    exact Nat.add_le_add_left (hlongest k hk hother) i

end Regex

end ScriptBench
