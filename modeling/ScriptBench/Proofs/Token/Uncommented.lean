import ScriptBench.Proofs.Token.Code

/-! Lines without comments.

Outside of comments the state turns at quotes only, and a comment needs a slash with a
slash or a star behind it, outside of strings. So whether a text is without comments, and
the state it ends in, can be said character by character. Such a text is scanned without
a comment, and what any line spells apart from its comments is such a text: a slash in
front of a comment would have made a comment with the slash that begins it. -/
namespace ScriptBench.Token

/-- The state after a character, where no comment begins or ends. -/
def turn : LexState → Char → LexState
  | .root, c => if c = '"' then .doubleString else if c = '\'' then .singleString else .root
  | .doubleString, c => if c = '"' then .root else .doubleString
  | .singleString, c => if c = '\'' then .root else .singleString
  | .blockComment, _ => .blockComment

/-- The state after a text, where no comment begins or ends. -/
def turned (state : LexState) (t : Text) : LexState := t.foldl turn state

/-- What follows cannot make a comment of a slash. -/
def KeepsSlash (rest : Text) : Prop := ∀ d ∈ rest.head?, d ≠ '/' ∧ d ≠ '*'

/-- No comment begins in a text. -/
def Uncommented : LexState → Text → Prop
  | _, [] => True
  | state, c :: rest =>
    (state = .root → c = '/' → KeepsSlash rest) ∧ Uncommented (turn state c) rest

theorem turned_append (state : LexState) (s t : Text) :
    turned state (s ++ t) = turned (turned state s) t := List.foldl_append

/-- Both parts of a text without comments are without comments. -/
theorem Uncommented.of_append {state : LexState} {s t : Text} (h : Uncommented state (s ++ t)) :
    Uncommented state s ∧ Uncommented (turned state s) t := by
  induction s generalizing state with
  | nil => exact ⟨trivial, h⟩
  | cons c s ih =>
    rw [List.cons_append] at h
    obtain ⟨hslash, hrest⟩ := h
    obtain ⟨hs, ht⟩ := ih hrest
    refine ⟨⟨fun hstate hc d hd => hslash hstate hc d ?_, hs⟩, ht⟩
    rw [List.head?_append, Option.mem_def.mp hd]
    rfl

/-! ### Characters that begin neither strings nor comments -/

theorem turn_of_not_opens (state : LexState) {c : Char} (h : opensInert c = false) :
    turn state c = state := by
  simp only [opensInert, Bool.or_eq_false_iff, beq_eq_false_iff_ne] at h
  cases state <;> simp [turn, h]

theorem turned_stretch (state : LexState) {p : Text} (hp : ∀ c ∈ p, opensInert c = false) :
    turned state p = state := by
  induction p with
  | nil => rfl
  | cons c p ih =>
    rw [List.forall_mem_cons] at hp
    rw [turned, List.foldl_cons, turn_of_not_opens state hp.1]
    exact ih hp.2

theorem uncommented_stretch_append (state : LexState) {p : Text} (t : Text)
    (hp : ∀ c ∈ p, opensInert c = false) (h : Uncommented state t) :
    Uncommented state (p ++ t) := by
  induction p with
  | nil => exact h
  | cons c p ih =>
    rw [List.forall_mem_cons] at hp
    refine ⟨fun _ hc => ?_, ?_⟩
    · rw [hc] at hp
      exact absurd hp.1 (by decide)
    · rw [turn_of_not_opens state hp.1]
      exact ih hp.2

/-! ### Strings -/

section
variable {q : Char} {t : Text}

theorem turn_insideOf (hquote : q = '"' ∨ q = '\'') (c : Char) :
    turn (insideOf q) c = if c = q then .root else insideOf q := by
  obtain rfl | rfl := hquote <;> rfl

theorem turned_inside (hquote : q = '"' ∨ q = '\'') (hq : q ∉ t) :
    turned (insideOf q) t = insideOf q := by
  induction t with
  | nil => rfl
  | cons c t ih =>
    rw [List.mem_cons, not_or] at hq
    rw [turned, List.foldl_cons, turn_insideOf hquote, if_neg (Ne.symm hq.1)]
    exact ih hq.2

theorem turned_closed (hquote : q = '"' ∨ q = '\'') (hq : q ∉ t) (rest : Text) :
    turned (insideOf q) (t ++ q :: rest) = turned .root rest := by
  rw [turned_append, turned_inside hquote hq, turned, List.foldl_cons, turn_insideOf hquote,
    if_pos rfl]
  rfl

theorem insideOf_ne_root (q : Char) : insideOf q ≠ .root := by
  unfold insideOf
  split <;> simp

/-- Inside of a string no comment begins. -/
theorem uncommented_inside (hquote : q = '"' ∨ q = '\'') (hq : q ∉ t) :
    Uncommented (insideOf q) t := by
  induction t with
  | nil => trivial
  | cons c t ih =>
    rw [List.mem_cons, not_or] at hq
    refine ⟨fun hroot => absurd hroot (insideOf_ne_root q), ?_⟩
    rw [turn_insideOf hquote, if_neg (Ne.symm hq.1)]
    exact ih hq.2

theorem uncommented_closed (hquote : q = '"' ∨ q = '\'') (hq : q ∉ t) {rest : Text}
    (h : Uncommented .root rest) : Uncommented (insideOf q) (t ++ q :: rest) := by
  induction t with
  | nil =>
    refine ⟨fun hroot => absurd hroot (insideOf_ne_root q), ?_⟩
    rwa [turn_insideOf hquote, if_pos rfl]
  | cons c t ih =>
    rw [List.mem_cons, not_or] at hq
    refine ⟨fun hroot => absurd hroot (insideOf_ne_root q), ?_⟩
    rw [turn_insideOf hquote, if_neg (Ne.symm hq.1)]
    exact ih hq.2

end

/-! ### Steps -/

/-- What a step finds at the front of a text: what is kept of it, the state it leaves and
what comes next. -/
inductive Front : LexState → Text → Text → LexState → Text → Prop
  | blockComment (rest : Text) : Front .root ('/' :: '*' :: rest) [] .blockComment rest
  | lineComment (rest : Text) : Front .root ('/' :: '/' :: rest) [] .root []
  | slash {rest : Text} (h : KeepsSlash rest) : Front .root ('/' :: rest) ['/'] .root rest
  | quote {q : Char} (hquote : q = '"' ∨ q = '\'') (rest : Text) :
      Front .root (q :: rest) [q] (insideOf q) rest
  | stretch {c : Char} {p : Text} (h : ∀ d ∈ c :: p, opensInert d = false) (rest : Text) :
      Front .root (c :: p ++ rest) (c :: p) .root rest
  | closed {q : Char} (hquote : q = '"' ∨ q = '\'') {t : Text} (hq : q ∉ t) (rest : Text) :
      Front (insideOf q) (t ++ q :: rest) (t ++ [q]) .root rest
  | inside {q : Char} (hquote : q = '"' ∨ q = '\'') {t : Text} (hq : q ∉ t) :
      Front (insideOf q) t t (insideOf q) []
  | comment (t : Text) {next : LexState} (hnext : next = .root ∨ next = .blockComment)
      (rest : Text) : Front .blockComment t [] next rest

/-- The scan goes on after the front of a text. -/
structure GoesOn (state : LexState) (t kept : Text) (next : LexState) (rest : Text) : Prop where
  shorter : rest.length < t.length
  code : code (steps state t).1 = kept ++ code (steps next rest).1
  ending : (steps state t).2 = (steps next rest).2

theorem goesOn_of_step {state : LexState} {c : Char} {rest : Text} {s : Step}
    (hstep : step state c rest = s) :
    GoesOn state (c :: rest) (if s.kind = .comment then [] else c :: rest.take s.more) s.next
      (rest.drop s.more) where
  shorter := by
    rw [List.length_cons, List.length_drop]
    omega
  code := by rw [← hstep, code_steps_cons]
  ending := by rw [← hstep, steps]

theorem rootStep_slash (rest : Text) : rootStep '/' rest = punctuation '/' rest := by
  simp [rootStep, Pattern.identifier?, Pattern.isLetter, hexLiteral?, Pattern.integer?,
    Pattern.natural?, Pattern.digitRun, Pattern.isDigit, blanks]

theorem exists_front_slash (rest : Text) : ∃ kept next after,
    Front .root ('/' :: rest) kept next after ∧ GoesOn .root ('/' :: rest) kept next after := by
  have hgoes := goesOn_of_step (step_root '/' rest)
  rw [rootStep_slash] at hgoes
  cases rest with
  | nil => exact ⟨_, _, _, .slash (fun _ hd => by cases hd), hgoes⟩
  | cons d rest =>
    by_cases hstar : d = '*'
    · subst hstar
      exact ⟨_, _, _, .blockComment rest, hgoes⟩
    by_cases hslash : d = '/'
    · subst hslash
      simp only [punctuation, if_true, List.drop_succ_cons, List.drop_length] at hgoes
      exact ⟨_, _, _, .lineComment rest, hgoes⟩
    have hstep : punctuation '/' (d :: rest) = ⟨.invalid, 0, .root⟩ := by
      simp [punctuation, hslash, hstar]
    rw [hstep] at hgoes
    refine ⟨_, _, _, .slash (fun e he => ?_), hgoes⟩
    cases he
    exact ⟨hslash, hstar⟩

/-- A text begins with a stretch that goes up to the next string or comment. -/
theorem exists_stretch_append (t : Text) : ∃ p rest, t = p ++ rest ∧
    (∀ c ∈ p, opensInert c = false) ∧ ∀ c ∈ rest.head?, opensInert c = true := by
  refine ⟨t.takeWhile (!opensInert ·), t.dropWhile (!opensInert ·),
    List.takeWhile_append_dropWhile.symm, fun c hc => ?_, fun c hc => ?_⟩
  · simpa using List.all_eq_true.mp List.all_takeWhile c hc
  · simpa using Text.head?_dropWhile (!opensInert ·) t c hc

theorem exists_front_root (c : Char) (rest : Text) : ∃ kept next after,
    Front .root (c :: rest) kept next after ∧ GoesOn .root (c :: rest) kept next after := by
  by_cases hslash : c = '/'
  · rw [hslash]
    exact exists_front_slash rest
  by_cases hquote : c = '"' ∨ c = '\''
  · have hgoes := goesOn_of_step (step_root c rest)
    rw [rootStep_quote hquote] at hgoes
    exact ⟨_, _, _, .quote hquote rest, hgoes⟩
  -- The step stays within the stretch up to the next string or comment.
  have hc : opensInert c = false := by simpa [opensInert, hslash] using hquote
  obtain ⟨p, rest, rfl, hplain, hopens⟩ := exists_stretch_append rest
  have hgoes := goesOn_of_step (step_root c (p ++ rest))
  obtain ⟨hkind, hnext, hmore⟩ := rootStep_plain (p := p) hc hopens
  rw [hnext, if_neg hkind, List.take_append_of_le_length hmore,
    List.drop_append_of_le_length hmore] at hgoes
  generalize (rootStep c (p ++ rest)).more = more at hgoes
  have htext : c :: (p ++ rest) = c :: p.take more ++ (p.drop more ++ rest) := by
    rw [List.cons_append, ← List.append_assoc, List.take_append_drop]
  have htaken : ∀ d ∈ c :: p.take more, opensInert d = false :=
    List.forall_mem_cons.mpr ⟨hc, fun d hd => hplain d (List.mem_of_mem_take hd)⟩
  rw [htext] at hgoes ⊢
  exact ⟨_, _, _, .stretch htaken _, hgoes⟩

theorem quoteEnd?_of_not_mem {q : Char} {t : Text} (hq : q ∉ t) : quoteEnd? q t = none := by
  induction t with
  | nil => rfl
  | cons c t ih =>
    rw [List.mem_cons, not_or] at hq
    rw [quoteEnd?, if_neg (Ne.symm hq.1), ih hq.2, Option.map_none]

theorem exists_front_inside {q : Char} (hquote : q = '"' ∨ q = '\'') (c : Char) (rest : Text) :
    ∃ kept next after, Front (insideOf q) (c :: rest) kept next after ∧
      GoesOn (insideOf q) (c :: rest) kept next after := by
  by_cases hq : q ∈ c :: rest
  · obtain ⟨t, after, heq, ht⟩ := List.eq_append_cons_of_mem hq
    rw [heq]
    refine ⟨_, _, _, .closed hquote ht after, ?_, ?_, ?_⟩
    · rw [List.length_append, List.length_cons]
      omega
    · rw [steps_closed hquote ht, code_cons, if_neg (by simp)]
    · rw [steps_closed hquote ht]
  · have hgoes := goesOn_of_step (step_insideOf hquote c rest)
    rw [quoteEnd?_of_not_mem hq, insideStep, if_neg (by simp), List.take_length,
      List.drop_length] at hgoes
    exact ⟨_, _, _, .inside hquote hq, hgoes⟩

theorem exists_front_comment (c : Char) (rest : Text) : ∃ kept next after,
    Front .blockComment (c :: rest) kept next after ∧
      GoesOn .blockComment (c :: rest) kept next after := by
  have hgoes := goesOn_of_step (step.eq_2 c rest)
  cases hend : commentEnd? (c :: rest) with
  | some n =>
    rw [hend] at hgoes
    exact ⟨_, _, _, .comment _ (.inl rfl) _, hgoes⟩
  | none =>
    rw [hend] at hgoes
    exact ⟨_, _, _, .comment _ (.inr rfl) _, hgoes⟩

theorem root_or_insideOf {state : LexState} (h : state ≠ .blockComment) :
    state = .root ∨ ∃ q, (q = '"' ∨ q = '\'') ∧ state = insideOf q := by
  cases state with
  | root => exact .inl rfl
  | blockComment => exact absurd rfl h
  | doubleString => exact .inr ⟨'"', .inl rfl, rfl⟩
  | singleString => exact .inr ⟨'\'', .inr rfl, rfl⟩

/-- Every step finds something at the front. -/
theorem exists_front (state : LexState) (c : Char) (rest : Text) : ∃ kept next after,
    Front state (c :: rest) kept next after ∧ GoesOn state (c :: rest) kept next after := by
  by_cases hcomment : state = .blockComment
  · rw [hcomment]
    exact exists_front_comment c rest
  obtain rfl | ⟨q, hquote, rfl⟩ := root_or_insideOf hcomment
  · exact exists_front_root c rest
  · exact exists_front_inside hquote c rest

/-! ### Scanning a text without comments -/

theorem insideOf_ne_blockComment (q : Char) : insideOf q ≠ .blockComment := by
  unfold insideOf
  split <;> simp

theorem turn_root_quote {q : Char} (hquote : q = '"' ∨ q = '\'') : turn .root q = insideOf q := by
  obtain rfl | rfl := hquote <;> rfl

/-- Without comments all of the front is kept, and the rest is without comments too. -/
theorem Front.of_uncommented {state next : LexState} {t kept rest : Text}
    (h : Front state t kept next rest) (hstate : state ≠ .blockComment) (ht : Uncommented state t) :
    t = kept ++ rest ∧ next ≠ .blockComment ∧ turned state kept = next ∧ Uncommented next rest := by
  cases h with
  | blockComment => exact absurd rfl (ht.1 rfl rfl _ rfl).2
  | lineComment => exact absurd rfl (ht.1 rfl rfl _ rfl).1
  | slash => exact ⟨rfl, hstate, rfl, ht.2⟩
  | quote hquote =>
    have hrest := ht.2
    rw [turn_root_quote hquote] at hrest
    exact ⟨rfl, insideOf_ne_blockComment _, turn_root_quote hquote, hrest⟩
  | stretch hp =>
    have hrest := ht.of_append.2
    rw [turned_stretch .root hp] at hrest
    exact ⟨rfl, hstate, turned_stretch .root hp, hrest⟩
  | closed hquote hq =>
    rw [List.append_cons] at ht
    have hrest := ht.of_append.2
    rw [turned_closed hquote hq] at hrest
    exact ⟨List.append_cons .., by simp, turned_closed hquote hq [], hrest⟩
  | inside hquote hq =>
    exact ⟨(List.append_nil _).symm, hstate, turned_inside hquote hq, trivial⟩
  | comment => exact absurd rfl hstate

/-- A text without comments is kept whole, and ends in the state that its quotes say. -/
theorem steps_of_uncommented {state : LexState} {t : Text} (hstate : state ≠ .blockComment)
    (ht : Uncommented state t) :
    code (steps state t).1 = t ∧ (steps state t).2 = turned state t := by
  -- By induction on the length: a step may take several characters.
  induction hlen : t.length using Nat.strongRecOn generalizing state t with
  | ind n ih =>
    cases t with
    | nil => rw [steps]; exact ⟨rfl, rfl⟩
    | cons c rest =>
      obtain ⟨kept, next, after, hfront, hgoes⟩ := exists_front state c rest
      obtain ⟨htext, hnext, hturned, hafter⟩ := hfront.of_uncommented hstate ht
      obtain ⟨hcode, hending⟩ := ih _ (hlen ▸ hgoes.shorter) hnext hafter rfl
      rw [hgoes.code, hgoes.ending, hcode, hending, htext, turned_append, hturned]
      exact ⟨rfl, rfl⟩

/-! ### What a line spells apart from its comments -/

/-- Without the comment that a line begins inside of, it begins outside. -/
def resumed : LexState → LexState
  | .blockComment => .root
  | state => state

theorem resumed_insideOf (q : Char) : resumed (insideOf q) = insideOf q := by
  unfold insideOf
  split <;> rfl

theorem resumed_ne_blockComment (state : LexState) : resumed state ≠ .blockComment := by
  cases state <;> simp [resumed]

/-- What keeps a slash from beginning a comment stays when comments are left out. -/
theorem Front.keepsSlash {state next : LexState} {t kept rest : Text}
    (h : Front state t kept next rest) (hroot : state = .root) (hkeeps : KeepsSlash t)
    (more : Text) : KeepsSlash (kept ++ more) := by
  cases h with
  | blockComment => exact absurd rfl (hkeeps _ rfl).1
  | lineComment => exact absurd rfl (hkeeps _ rfl).1
  | slash => exact hkeeps
  | quote => exact hkeeps
  | stretch => exact hkeeps
  | closed => exact absurd hroot (insideOf_ne_root _)
  | inside => exact absurd hroot (insideOf_ne_root _)
  | comment => cases hroot

theorem keepsSlash_code {t : Text} (h : KeepsSlash t) : KeepsSlash (code (steps .root t).1) := by
  cases t with
  | nil =>
    rw [steps]
    exact h
  | cons c rest =>
    obtain ⟨kept, next, after, hfront, hgoes⟩ := exists_front .root c rest
    rw [hgoes.code]
    exact hfront.keepsSlash rfl h _

/-- In front of what is kept of the rest, what is kept is without comments. -/
theorem Front.uncommented {state next : LexState} {t kept rest : Text}
    (h : Front state t kept next rest)
    (hrest : Uncommented (resumed next) (code (steps next rest).1)) :
    Uncommented (resumed state) (kept ++ code (steps next rest).1) ∧
      turned (resumed state) kept = resumed next := by
  cases h with
  | blockComment => exact ⟨hrest, rfl⟩
  | lineComment => exact ⟨hrest, rfl⟩
  | slash hkeeps => exact ⟨⟨fun _ _ => keepsSlash_code hkeeps, hrest⟩, rfl⟩
  | quote hquote =>
    rw [resumed_insideOf] at hrest ⊢
    refine ⟨⟨fun _ hslash => ?_, ?_⟩, turn_root_quote hquote⟩
    · rw [hslash] at hquote
      exact absurd hquote (by decide)
    · rw [resumed, turn_root_quote hquote]
      · exact hrest
      · simp
  | stretch hp => exact ⟨uncommented_stretch_append _ _ hp hrest, turned_stretch _ hp⟩
  | closed hquote hq =>
    rw [resumed_insideOf, List.append_assoc]
    exact ⟨uncommented_closed hquote hq hrest, turned_closed hquote hq []⟩
  | inside hquote hq =>
    rw [resumed_insideOf, steps, code_nil, List.append_nil]
    exact ⟨uncommented_inside hquote hq, turned_inside hquote hq⟩
  | comment _ hnext =>
    obtain rfl | rfl := hnext
    · exact ⟨hrest, rfl⟩
    · exact ⟨hrest, rfl⟩

/-- What a line spells apart from its comments is without comments, and its quotes lead to
the state that the line ends in. -/
theorem uncommented_code (state : LexState) (t : Text) :
    Uncommented (resumed state) (code (steps state t).1) ∧
      turned (resumed state) (code (steps state t).1) = resumed (steps state t).2 := by
  induction hlen : t.length using Nat.strongRecOn generalizing state t with
  | ind n ih =>
    cases t with
    | nil => rw [steps]; exact ⟨trivial, rfl⟩
    | cons c rest =>
      obtain ⟨kept, next, after, hfront, hgoes⟩ := exists_front state c rest
      obtain ⟨hafter, hending⟩ := ih _ (hlen ▸ hgoes.shorter) next after rfl
      obtain ⟨hkept, hturned⟩ := hfront.uncommented hafter
      rw [hgoes.code, hgoes.ending, turned_append, hturned]
      exact ⟨hkept, hending⟩

end ScriptBench.Token
