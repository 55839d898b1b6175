import ScriptBench.Editing.Context
import ScriptBench.Proofs.Token.Uncomment

/-! The pieces that a line is scanned in.

Outside of strings and comments a stretch up to the next opening character is scanned by
itself, and a slash that begins no comment is a token. The two quotes and `/*` open what goes on
up to its end: up to the next such quote, or the next `*/`. If there is no end, all of the rest is
one token. -/
namespace ScriptBench

/-- What is inside of a token of a kind. -/
def TokenKind.context? : TokenKind → Option TokenContext
  | comment => some .comment
  | string => some .string
  | _ => none

namespace LexState

/-- What a text that begins in the state is inside of. -/
def context? : LexState → Option TokenContext
  | root => none
  | blockComment => some .comment
  | doubleString | singleString => some .string

/-- The characters that lead into the state. -/
def opener : LexState → Text
  | root => []
  | blockComment => ['/', '*']
  | doubleString => ['"']
  | singleString => ['\'']

/-- How many characters there are up to the end of what a text begins inside of. -/
def end? : LexState → Text → Option Nat
  | root, _ => none
  | blockComment, t => Token.commentEnd? t
  | doubleString, t => Token.quoteEnd? '"' t
  | singleString, t => Token.quoteEnd? '\'' t

/-- The kind of the tokens inside. -/
def kind : LexState → TokenKind
  | root => .invalid
  | blockComment => .comment
  | doubleString | singleString => .string

theorem context?_kind (state : LexState) : state.kind.context? = state.context? := by
  cases state <;> rfl

end LexState

namespace Token

/-! ### Ends -/

/-- A comment goes on over a character that begins no end. -/
theorem commentEnd?_cons {c : Char} {rest : Text}
    (hopen : ∀ tail, c = '*' → rest = '/' :: tail → False) :
    commentEnd? (c :: rest) = (commentEnd? rest).map (· + 1) := by
  rw [commentEnd?]
  exact hopen

theorem commentEnd?_append {t : Text} {n : Nat} (h : commentEnd? t = some n) (more : Text) :
    commentEnd? (t ++ more) = some n := by
  induction t using commentEnd?.induct generalizing n with
  | case1 rest => simpa [commentEnd?] using h
  | case2 c rest hopen ih =>
    rw [commentEnd?_cons hopen] at h
    obtain ⟨k, hk, rfl⟩ := Option.map_eq_some_iff.mp h
    have hopen' : ∀ tail, c = '*' → rest ++ more = '/' :: tail → False := by
      intro tail hc htail
      cases rest with
      | nil => cases hk
      | cons d rest =>
        cases htail
        exact hopen rest hc rfl
    rw [List.cons_append, commentEnd?_cons hopen', ih hk, Option.map_some]
  | case3 => cases h

theorem commentEnd?_take {t : Text} {n : Nat} (h : commentEnd? t = some n) :
    n ≤ t.length ∧ commentEnd? (t.take n) = some n := by
  induction t using commentEnd?.induct generalizing n with
  | case1 rest =>
    cases h
    exact ⟨by simp, rfl⟩
  | case2 c rest hopen ih =>
    rw [commentEnd?_cons hopen] at h
    obtain ⟨k, hk, rfl⟩ := Option.map_eq_some_iff.mp h
    obtain ⟨hle, htake⟩ := ih hk
    have hopen' : ∀ tail, c = '*' → rest.take k = '/' :: tail → False := by
      intro tail hc htail
      have hrest : rest = '/' :: (tail ++ rest.drop k) := by
        rw [← List.cons_append, ← htail, List.take_append_drop]
      exact hopen _ hc hrest
    rw [List.take_succ_cons, commentEnd?_cons hopen', htake, Option.map_some]
    exact ⟨Nat.succ_le_succ hle, rfl⟩
  | case3 => cases h

/-- A comment that is open ends with the next character only if that is a slash. -/
theorem commentEnd?_concat {t : Text} (h : commentEnd? t = none) (c : Char) :
    commentEnd? (t ++ [c]) = none ∨
      c = '/' ∧ commentEnd? (t ++ [c]) = some (t ++ [c]).length := by
  induction t using commentEnd?.induct with
  | case1 rest => cases h
  | case2 d rest hopen ih =>
    rw [commentEnd?_cons hopen] at h
    by_cases hend : d = '*' ∧ rest = [] ∧ c = '/'
    · obtain ⟨rfl, rfl, rfl⟩ := hend
      exact .inr ⟨rfl, rfl⟩
    have hopen' : ∀ tail, d = '*' → rest ++ [c] = '/' :: tail → False := by
      intro tail hd htail
      cases rest with
      | nil =>
        cases htail
        exact hend ⟨hd, rfl, rfl⟩
      | cons e rest =>
        cases htail
        exact hopen rest hd rfl
    rw [List.cons_append, commentEnd?_cons hopen']
    refine (ih (Option.map_eq_none_iff.mp h)).imp (fun hnone => ?_) (fun hsome => ⟨hsome.1, ?_⟩)
    · rw [hnone, Option.map_none]
    · rw [hsome.2, Option.map_some, List.length_cons]
  | case3 =>
    have hopen : ∀ tail, c = '*' → [] = '/' :: tail → False := by
      intro tail _ htail
      cases htail
    exact .inl (commentEnd?_cons hopen)

/-- What ends a comment is a slash, and in front of it the comment is open. -/
theorem exists_of_commentEnd? {t : Text} (h : commentEnd? t = some t.length) :
    ∃ u, t = u ++ ['/'] ∧ commentEnd? u = none := by
  induction t using commentEnd?.induct with
  | case1 rest =>
    obtain rfl : rest = [] := by simpa [commentEnd?] using h
    exact ⟨['*'], rfl, rfl⟩
  | case2 c rest hopen ih =>
    rw [commentEnd?_cons hopen] at h
    obtain ⟨k, hk, hlength⟩ := Option.map_eq_some_iff.mp h
    obtain rfl : k = rest.length := by simpa using hlength
    obtain ⟨u, rfl, hu⟩ := ih hk
    have hopen' : ∀ tail, c = '*' → u = '/' :: tail → False := by
      rintro tail hc rfl
      exact hopen _ hc rfl
    exact ⟨c :: u, rfl, by rw [commentEnd?_cons hopen', hu, Option.map_none]⟩
  | case3 => cases h

theorem quoteEnd?_eq_append {q : Char} {t : Text} {n : Nat} (h : quoteEnd? q t = some n)
    (more : Text) : quoteEnd? q (t ++ more) = some n := by
  induction t generalizing n with
  | nil => cases h
  | cons c t ih =>
    rw [quoteEnd?] at h
    rw [List.cons_append, quoteEnd?]
    split at h
    case isTrue hc => rw [if_pos hc, h]
    case isFalse hc =>
      obtain ⟨k, hk, rfl⟩ := Option.map_eq_some_iff.mp h
      rw [if_neg hc, ih hk, Option.map_some]

theorem quoteEnd?_take {q : Char} {t : Text} {n : Nat} (h : quoteEnd? q t = some n) :
    0 < n ∧ n ≤ t.length ∧ quoteEnd? q (t.take n) = some n := by
  induction t generalizing n with
  | nil => cases h
  | cons c t ih =>
    rw [quoteEnd?] at h
    split at h
    case isTrue hc =>
      cases h
      exact ⟨Nat.one_pos, by simp, by simp [quoteEnd?, hc]⟩
    case isFalse hc =>
      obtain ⟨k, hk, rfl⟩ := Option.map_eq_some_iff.mp h
      obtain ⟨-, hle, htake⟩ := ih hk
      refine ⟨Nat.succ_pos k, Nat.succ_le_succ hle, ?_⟩
      rw [List.take_succ_cons, quoteEnd?, if_neg hc, htake, Option.map_some]

theorem quoteEnd?_concat {q : Char} {t : Text} (h : quoteEnd? q t = none) (c : Char) :
    quoteEnd? q (t ++ [c]) = none ∨
      c = q ∧ quoteEnd? q (t ++ [c]) = some (t ++ [c]).length := by
  induction t with
  | nil =>
    by_cases hc : c = q
    · exact .inr ⟨hc, by simp [quoteEnd?, hc]⟩
    · exact .inl (by simp [quoteEnd?, hc])
  | cons d t ih =>
    rw [quoteEnd?] at h
    split at h
    case isTrue hd => cases h
    case isFalse hd =>
      rw [List.cons_append, quoteEnd?, if_neg hd]
      refine (ih (Option.map_eq_none_iff.mp h)).imp (fun hnone => ?_) (fun hsome => ⟨hsome.1, ?_⟩)
      · rw [hnone, Option.map_none]
      · rw [hsome.2, Option.map_some, List.length_cons]

section
variable {state : LexState} {t : Text} {n : Nat}

theorem end?_append (h : state.end? t = some n) (more : Text) :
    state.end? (t ++ more) = some n := by
  cases state with
  | root => cases h
  | blockComment => exact commentEnd?_append h more
  | doubleString | singleString => exact quoteEnd?_eq_append h more

theorem end?_take (h : state.end? t = some n) :
    0 < n ∧ n ≤ t.length ∧ state.end? (t.take n) = some n := by
  cases state with
  | root => cases h
  | blockComment => exact ⟨commentEnd?_pos h, commentEnd?_take h⟩
  | doubleString | singleString => exact quoteEnd?_take h

theorem end?_concat (h : state.end? t = none) (c : Char) :
    state.end? (t ++ [c]) = none ∨
      opensInert c = true ∧ state.end? (t ++ [c]) = some (t ++ [c]).length := by
  cases state with
  | root => exact .inl rfl
  | blockComment =>
    obtain hnone | ⟨rfl, hsome⟩ := commentEnd?_concat h c
    · exact .inl hnone
    · exact .inr ⟨rfl, hsome⟩
  | doubleString | singleString =>
    obtain hnone | ⟨rfl, hsome⟩ := quoteEnd?_concat h c
    · exact .inl hnone
    · exact .inr ⟨rfl, hsome⟩

end

/-! ### Steps -/

/-- A step in a stretch is neither a string nor a comment. -/
theorem rootStep_context? {c : Char} (hc : opensInert c = false) (rest : Text) :
    (rootStep c rest).kind.context? = none := by
  unfold rootStep
  split
  · rfl
  · split
    · rfl
    · split
      · rfl
      · split
        · rfl
        · unfold punctuation
          split <;> simp_all [opensInert, TokenKind.context?]

theorem forall_head?_cons {c : Char} (hc : opensInert c = true) {rest : Text} :
    ∀ d ∈ (c :: rest).head?, opensInert d = true := by
  intro d hd
  obtain rfl : c = d := Option.some.inj hd
  exact hc

/-- A stretch is scanned by itself. -/
theorem steps_stretch {p rest : Text} (hp : ∀ c ∈ p, opensInert c = false)
    (h : ∀ c ∈ rest.head?, opensInert c = true) :
    ∃ ts, (∀ t ∈ ts, t.kind.context? = none) ∧
      steps .root (p ++ rest) = (ts ++ (steps .root rest).1, (steps .root rest).2) := by
  -- By induction on the length: a step may take several characters of the stretch.
  induction hlen : p.length using Nat.strongRecOn generalizing p with
  | ind n ih =>
    cases p with
    | nil => exact ⟨[], List.forall_mem_nil _, rfl⟩
    | cons c p =>
      have hc := hp c (List.mem_cons_self ..)
      obtain ⟨-, hnext, hmore⟩ := rootStep_plain (p := p) hc h
      have hrest : ∀ d ∈ p.drop (rootStep c (p ++ rest)).more, opensInert d = false :=
        fun d hd => hp d (List.mem_cons_of_mem c (List.mem_of_mem_drop hd))
      obtain ⟨ts, hts, htail⟩ :=
        ih _ (by rw [← hlen, List.length_cons, List.length_drop]; omega) hrest rfl
      rw [List.cons_append, steps, step_root, hnext, List.drop_append_of_le_length hmore, htail]
      exact ⟨_ :: ts, List.forall_mem_cons.mpr ⟨rootStep_context? hc _, hts⟩, rfl⟩

theorem steps_plain {p : Text} (hp : ∀ c ∈ p, opensInert c = false) :
    ∃ ts, (∀ t ∈ ts, t.kind.context? = none) ∧ steps .root p = (ts, .root) := by
  have hnone : ∀ c ∈ ([] : Text).head?, opensInert c = true := fun c hc => by cases hc
  obtain ⟨ts, hts, hsteps⟩ := steps_stretch hp hnone
  rw [steps, List.append_nil, List.append_nil] at hsteps
  exact ⟨ts, hts, hsteps⟩

theorem steps_slash {rest : Text} (h : KeepsSlash rest) :
    steps .root ('/' :: rest) = (⟨.invalid, ['/']⟩ :: (steps .root rest).1, (steps .root rest).2) := by
  have hstep : punctuation '/' rest = ⟨.invalid, 0, .root⟩ := by
    cases rest with
    | nil => rfl
    | cons d rest =>
      obtain ⟨hslash, hstar⟩ := h d rfl
      simp [punctuation, hslash, hstar]
  rw [steps, step_root, rootStep_slash, hstep]
  rfl

theorem steps_lineComment (rest : Text) :
    steps .root ('/' :: '/' :: rest) = ([⟨.comment, '/' :: '/' :: rest⟩], .root) := by
  have hstep : punctuation '/' ('/' :: rest) = ⟨.comment, rest.length + 1, .root⟩ := by
    simp [punctuation]
  rw [steps, step_root, rootStep_slash, hstep]
  simp [steps]

/-- What opens a string or a block comment is a token, and what follows is inside. -/
theorem steps_opener {state : LexState} (hstate : state ≠ .root) (rest : Text) :
    steps .root (state.opener ++ rest) =
      (⟨state.kind, state.opener⟩ :: (steps state rest).1, (steps state rest).2) := by
  cases state with
  | root => exact absurd rfl hstate
  | blockComment =>
    have hstep : punctuation '/' ('*' :: rest) = ⟨.comment, 1, .blockComment⟩ := by
      simp [punctuation]
    rw [LexState.opener, List.cons_append, steps, step_root, List.singleton_append, rootStep_slash,
      hstep]
    rfl
  | doubleString =>
    rw [LexState.opener, List.singleton_append, steps, step_root, rootStep_quote (.inl rfl)]
    rfl
  | singleString =>
    rw [LexState.opener, List.singleton_append, steps, step_root, rootStep_quote (.inr rfl)]
    rfl

theorem step_inside {state : LexState} (hstate : state ≠ .root) (c : Char) (rest : Text) :
    step state c rest = insideStep state.kind state rest (state.end? (c :: rest)) := by
  cases state with
  | root => exact absurd rfl hstate
  | _ => rfl

/-- A string or block comment is a token up to its end. -/
theorem steps_ended {state : LexState} (hstate : state ≠ .root) {t : Text}
    (ht : state.end? t = some t.length) (rest : Text) :
    steps state (t ++ rest) =
      (⟨state.kind, t⟩ :: (steps .root rest).1, (steps .root rest).2) := by
  cases t with
  | nil => exact absurd (end?_take ht).1 (Nat.lt_irrefl 0)
  | cons c t =>
    have hend := end?_append ht rest
    rw [List.cons_append] at hend ⊢
    rw [steps, step_inside hstate, hend]
    simp [insideStep]

/-- A string or block comment that does not end is one token. -/
theorem steps_inside {state : LexState} (hstate : state ≠ .root) {t : Text} (hne : t ≠ [])
    (ht : state.end? t = none) : steps state t = ([⟨state.kind, t⟩], state) := by
  cases t with
  | nil => exact absurd rfl hne
  | cons c t =>
    rw [steps, step_inside hstate, ht]
    simp [insideStep, steps]

end Token

end ScriptBench
