import ScriptBench.Proofs.Token.Longest
import ScriptBench.SourceLine

/-! What a line spells apart from its comments.

Comments and strings begin with characters that stand in no other token. So a line
is scanned in stretches: whatever has none of these characters is kept as it is, a
string is kept up to its closing quote, and a comment to the end of the line is left
out. -/
namespace ScriptBench.Token

/-- What tokens spell apart from comments. -/
def code (tokens : List Token) : Text := line (tokens.filter (·.kind != .comment))

@[simp] theorem code_nil : code [] = [] := rfl

theorem code_cons (t : Token) (ts : List Token) :
    code (t :: ts) = (if t.kind = .comment then [] else t.text) ++ code ts := by
  unfold code line
  by_cases h : t.kind = .comment <;> simp [h]

/-- What a line spells, step by step. -/
theorem code_steps_cons (state : LexState) (c : Char) (rest : Text) :
    code (steps state (c :: rest)).1 =
      (if (step state c rest).kind = .comment then []
        else c :: rest.take (step state c rest).more) ++
      code (steps (step state c rest).next (rest.drop (step state c rest).more)).1 := by
  rw [steps, code_cons]

theorem step_root (c : Char) (rest : Text) : step .root c rest = rootStep c rest := rfl

/-- Joining neighbours does not change what is spelled. -/
theorem code_join (ts : List Token) : code (join ts) = code ts := by
  induction ts with
  | nil => rfl
  | cons t rest ih =>
    rw [code_cons, ← ih, join]
    cases join rest with
    | nil => rw [code_cons]
    | cons u tail =>
      dsimp only
      split
      · rename_i hkind
        rw [code_cons, code_cons, hkind.1]
        split <;> simp
      · rw [code_cons]

/-! ### Stretches without strings and comments -/

/-- The characters that begin strings and comments. -/
def opensInert (c : Char) : Bool := c == '/' || c == '"' || c == '\''

/-- A class of characters that reaches up to what follows takes no more than is before it. -/
theorem length_takeWhile_append_le {q : Char → Bool} {p rest : Text}
    (h : ∀ c ∈ rest.head?, q c = false) : ((p ++ rest).takeWhile q).length ≤ p.length := by
  induction p with
  | nil =>
    cases rest with
    | nil => exact Nat.le_refl _
    | cons c rest => simp [h c rfl]
  | cons c p ih =>
    rw [List.cons_append, List.takeWhile_cons]
    split
    · exact Nat.succ_le_succ ih
    · exact Nat.zero_le _

section
variable {c : Char} {p rest : Text}

/-- No class that tokens are made of has one of the characters. -/
theorem not_inert {q : Char → Bool} (hq : q '/' = false ∧ q '"' = false ∧ q '\'' = false)
    (h : ∀ c ∈ rest.head?, opensInert c = true) : ∀ c ∈ rest.head?, q c = false := by
  intro c hc
  have hopens := h c hc
  simp only [opensInert, Bool.or_eq_true, beq_iff_eq] at hopens
  obtain (rfl | rfl) | rfl := hopens
  · exact hq.1
  · exact hq.2.1
  · exact hq.2.2

theorem length_digitRun_append_le {digit : Char → Bool}
    (hd : digit '/' = false ∧ digit '"' = false ∧ digit '\'' = false)
    (h : ∀ c ∈ rest.head?, opensInert c = true) :
    (Pattern.digitRun digit (p ++ rest)).length ≤ p.length := by
  have hprefix := Pattern.digitRun_prefix_takeWhile digit (p ++ rest)
  refine Nat.le_trans hprefix.length_le (length_takeWhile_append_le (not_inert ?_ h))
  simp [hd]

theorem identifier?_le {n : Nat} (h : ∀ c ∈ rest.head?, opensInert c = true)
    (hn : Pattern.identifier? (c :: (p ++ rest)) = some n) : n - 1 ≤ p.length := by
  simp only [Pattern.identifier?] at hn
  split at hn
  · cases hn
    exact length_takeWhile_append_le (not_inert (by decide) h)
  · cases hn

theorem hexLiteral?_le {n : Nat} (h : ∀ c ∈ rest.head?, opensInert c = true)
    (hn : hexLiteral? (c :: (p ++ rest)) = some n) : n - 1 ≤ p.length := by
  cases p with
  | nil =>
    cases rest with
    | nil => simp [hexLiteral?] at hn
    | cons d rest =>
      have hx : d ≠ 'x' := fun hd => by simpa [hd, opensInert] using h d rfl
      simp [hexLiteral?, hx] at hn
  | cons d p =>
    unfold hexLiteral? at hn
    split at hn
    · rename_i tail heq
      simp only [List.cons_append, List.cons.injEq] at heq
      obtain ⟨rfl, rfl, rfl⟩ := heq
      simp only [Pattern.hex?, Option.map_eq_some_iff] at hn
      obtain ⟨k, hk, rfl⟩ := hn
      split at hk
      · cases hk
        have hrun : (Pattern.digitRun Pattern.isHexDigit (p ++ rest)).length ≤ p.length :=
          length_digitRun_append_le (by decide) h
        simp only [List.length_cons]
        omega
      · cases hk
    · cases hn

theorem natural?_le {n : Nat} (h : ∀ c ∈ rest.head?, opensInert c = true)
    (hn : Pattern.natural? (p ++ rest) = some n) : n ≤ p.length := by
  simp only [Pattern.natural?] at hn
  split at hn
  · cases hn
    exact length_digitRun_append_le (by decide) h
  · cases hn

theorem integer?_le {n : Nat} (h : ∀ c ∈ rest.head?, opensInert c = true)
    (hn : Pattern.integer? (c :: (p ++ rest)) = some n) : n - 1 ≤ p.length := by
  unfold Pattern.integer? at hn
  split at hn
  · rename_i tail heq
    cases heq
    obtain ⟨k, hk, rfl⟩ := Option.map_eq_some_iff.mp hn
    exact natural?_le h hk
  · have hle := natural?_le (p := c :: p) h hn
    rw [List.length_cons] at hle
    omega

theorem punctuation_plain (hc : opensInert c = false) (h : ∀ c ∈ rest.head?, opensInert c = true) :
    (punctuation c (p ++ rest)).kind ≠ .comment ∧ (punctuation c (p ++ rest)).next = .root ∧
      (punctuation c (p ++ rest)).more ≤ p.length := by
  unfold punctuation
  split
  case h_3 tail heq =>
    -- An opening `$(` has its second character in front of what follows.
    cases p with
    | nil =>
      have hopens := h '(' (by rw [List.nil_append] at heq; rw [heq]; rfl)
      cases hopens
    | cons d p => simp
  all_goals simp_all [opensInert]

/-- A step in a stretch stays in it, and is no comment. -/
theorem rootStep_plain (hc : opensInert c = false) (h : ∀ c ∈ rest.head?, opensInert c = true) :
    (rootStep c (p ++ rest)).kind ≠ .comment ∧ (rootStep c (p ++ rest)).next = .root ∧
      (rootStep c (p ++ rest)).more ≤ p.length := by
  unfold rootStep
  split
  · rename_i n hn
    exact ⟨by simp, rfl, identifier?_le h hn⟩
  · split
    · rename_i n hn
      exact ⟨by simp, rfl, hexLiteral?_le h hn⟩
    · split
      · rename_i n hn
        exact ⟨by simp, rfl, integer?_le h hn⟩
      · split
        · exact ⟨by simp, rfl, length_takeWhile_append_le (not_inert (by decide) h)⟩
        · exact punctuation_plain hc h

end

/-- A stretch is kept as it is. -/
theorem code_stretch {p rest : Text} (hp : ∀ c ∈ p, opensInert c = false)
    (h : ∀ c ∈ rest.head?, opensInert c = true) :
    code (steps .root (p ++ rest)).1 = p ++ code (steps .root rest).1 := by
  -- By induction on the length: a step may take several characters of the stretch.
  induction hlen : p.length using Nat.strongRecOn generalizing p with
  | ind n ih =>
    cases p with
    | nil => rfl
    | cons c p =>
      obtain ⟨hkind, hnext, hmore⟩ :=
        rootStep_plain (p := p) (hp c (List.mem_cons_self ..)) h
      have hrest : ∀ d ∈ p.drop (rootStep c (p ++ rest)).more, opensInert d = false :=
        fun d hd => hp d (List.mem_cons_of_mem c (List.mem_of_mem_drop hd))
      have htail := ih _ (by rw [← hlen, List.length_cons, List.length_drop]; omega) hrest rfl
      rw [List.cons_append, code_steps_cons, step_root, hnext, if_neg hkind,
        List.drop_append_of_le_length hmore, htail, List.take_append_of_le_length hmore,
        List.cons_append, ← List.append_assoc, List.take_append_drop, List.cons_append]

/-! ### Comments and strings -/

/-- A comment to the end of the line is left out. -/
theorem code_lineComment (rest : Text) : code (steps .root ('/' :: '/' :: rest)).1 = [] := by
  have hstep : rootStep '/' ('/' :: rest) = ⟨.comment, rest.length + 1, .root⟩ := by
    simp [rootStep, Pattern.identifier?, Pattern.isLetter, hexLiteral?, Pattern.integer?,
      Pattern.natural?, Pattern.digitRun, Pattern.isDigit, blanks, punctuation]
  rw [code_steps_cons, step_root, hstep, if_pos rfl, List.drop_of_length_le (by simp), steps,
    code_nil, List.nil_append]

theorem quoteEnd?_append {q : Char} {t : Text} (hq : q ∉ t) (rest : Text) :
    quoteEnd? q (t ++ q :: rest) = some (t.length + 1) := by
  induction t with
  | nil => simp [quoteEnd?]
  | cons c t ih =>
    have hc : c ≠ q := fun hc => hq (hc ▸ List.mem_cons_self ..)
    rw [List.cons_append, quoteEnd?, if_neg hc, ih fun h => hq (List.mem_cons_of_mem c h)]
    rfl

/-- The state inside of a string with a quote around it. -/
def insideOf (q : Char) : LexState := if q = '"' then .doubleString else .singleString

theorem step_insideOf {q : Char} (hquote : q = '"' ∨ q = '\'') (c : Char) (rest : Text) :
    step (insideOf q) c rest = insideStep .string (insideOf q) rest (quoteEnd? q (c :: rest)) := by
  obtain rfl | rfl := hquote <;> rfl

theorem rootStep_quote {q : Char} (hquote : q = '"' ∨ q = '\'') (rest : Text) :
    rootStep q rest = ⟨.string, 0, insideOf q⟩ := by
  obtain rfl | rfl := hquote <;>
    simp [rootStep, Pattern.identifier?, Pattern.isLetter, hexLiteral?, Pattern.integer?,
      Pattern.natural?, Pattern.digitRun, Pattern.isDigit, blanks, punctuation, insideOf]

/-- Inside of a string a step goes up to the closing quote. -/
theorem steps_closed {q : Char} (hquote : q = '"' ∨ q = '\'') {t : Text} (hq : q ∉ t) (rest : Text) :
    steps (insideOf q) (t ++ q :: rest) =
      (⟨.string, t ++ [q]⟩ :: (steps .root rest).1, (steps .root rest).2) := by
  obtain ⟨c, tail, htail⟩ : ∃ c tail, t ++ q :: rest = c :: tail := by
    cases t with
    | nil => exact ⟨q, rest, rfl⟩
    | cons c t => exact ⟨c, t ++ q :: rest, rfl⟩
  have hend := quoteEnd?_append hq rest
  have hsplit : c :: tail.take t.length = t ++ [q] ∧ tail.drop t.length = rest := by
    cases t with
    | nil =>
      cases htail
      exact ⟨rfl, rfl⟩
    | cons d t =>
      rw [List.cons_append, List.cons.injEq] at htail
      obtain ⟨rfl, rfl⟩ := htail
      have hlength : (t ++ [q]).length = (d :: t).length := by simp
      rw [List.append_cons t q rest]
      exact ⟨congrArg (d :: ·) (List.take_left' hlength), List.drop_left' hlength⟩
  rw [htail] at hend ⊢
  rw [steps, step_insideOf hquote, hend]
  simp only [insideStep, Nat.add_sub_cancel, hsplit.1, hsplit.2]

/-- Inside of a string everything is kept up to the closing quote. -/
theorem code_inside {q : Char} (hquote : q = '"' ∨ q = '\'') {t : Text} (hq : q ∉ t) (rest : Text) :
    code (steps (insideOf q) (t ++ q :: rest)).1 = t ++ q :: code (steps .root rest).1 := by
  rw [steps_closed hquote hq, code_cons, if_neg (by simp), List.append_assoc,
    List.singleton_append]

/-- A string is kept with its quotes. -/
theorem code_string {q : Char} (hquote : q = '"' ∨ q = '\'') {t : Text} (hq : q ∉ t)
    (rest : Text) :
    code (steps .root (q :: (t ++ q :: rest))).1 = q :: (t ++ q :: code (steps .root rest).1) := by
  rw [code_steps_cons, step_root, rootStep_quote hquote, if_neg (by simp), List.drop_zero,
    List.take_zero, code_inside hquote hq, List.singleton_append]

end ScriptBench.Token
