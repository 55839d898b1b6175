import ScriptBench.Proofs.SourceLine.Surroundings
import ScriptBench.Proofs.Token.Uncommented

/-! What is left of a line without its comments.

`uncomment` goes through a line character by character and knows no tokens: outside of
strings `//` takes the rest of the line and `/*` goes up to the next `*/`, and the quotes
say what is a string. The tokens of a line say the same of it. So a blank at the end of a
line, such as a carriage return, is kept or left out, and the lines below are scanned as
they are without it. -/
namespace ScriptBench.Token

/-- What is left of a line without its comments, and what the line below begins inside of. -/
def uncomment : LexState → Text → Text × LexState
  | state, [] => ([], state)
  | .root, '/' :: '*' :: rest => uncomment .blockComment rest
  | .root, '/' :: '/' :: _ => ([], .root)
  | .blockComment, '*' :: '/' :: rest => uncomment .root rest
  | .blockComment, _ :: rest => uncomment .blockComment rest
  | state, c :: rest => (c :: (uncomment (turn state c) rest).1, (uncomment (turn state c) rest).2)

/-- More text in front of what is left. -/
def leave (p : Text) (left : Text × LexState) : Text × LexState := (p ++ left.1, left.2)

theorem leave_append (p q : Text) (left : Text × LexState) :
    leave (p ++ q) left = leave p (leave q left) := by
  rw [leave, leave, leave, List.append_assoc]

/-! ### Outside of comments -/

/-- A character that begins no comment is left. -/
theorem uncomment_cons {state : LexState} (hstate : state ≠ .blockComment) {c : Char} {rest : Text}
    (h : state = .root → c = '/' → KeepsSlash rest) :
    uncomment state (c :: rest) = leave [c] (uncomment (turn state c) rest) := by
  rw [uncomment]
  · rfl
  · rintro d rfl rfl rfl
    exact (h rfl rfl _ rfl).2 rfl
  · rintro d rfl rfl rfl
    exact (h rfl rfl _ rfl).1 rfl
  · rintro d hblock
    exact absurd hblock hstate
  · exact hstate

theorem uncomment_stretch {p : Text} (hp : ∀ c ∈ p, opensInert c = false) (rest : Text) :
    uncomment .root (p ++ rest) = leave p (uncomment .root rest) := by
  induction p with
  | nil => rfl
  | cons c p ih =>
    rw [List.forall_mem_cons] at hp
    have hslash : c ≠ '/' := fun hc => absurd hp.1 (by rw [hc]; decide)
    rw [List.cons_append, uncomment_cons (by simp) fun _ hc => absurd hc hslash,
      turn_of_not_opens .root hp.1, ih hp.2, ← leave_append]
    rfl

section
variable {q : Char} {t : Text}

theorem uncomment_inside (hquote : q = '"' ∨ q = '\'') (hq : q ∉ t) (rest : Text) :
    uncomment (insideOf q) (t ++ rest) = leave t (uncomment (insideOf q) rest) := by
  induction t with
  | nil => rfl
  | cons c t ih =>
    rw [List.mem_cons, not_or] at hq
    rw [List.cons_append, uncomment_cons (insideOf_ne_blockComment q)
      fun hroot => absurd hroot (insideOf_ne_root q), turn_insideOf hquote, if_neg (Ne.symm hq.1),
      ih hq.2, ← leave_append]
    rfl

theorem uncomment_closed (hquote : q = '"' ∨ q = '\'') (hq : q ∉ t) (rest : Text) :
    uncomment (insideOf q) (t ++ q :: rest) = leave (t ++ [q]) (uncomment .root rest) := by
  rw [uncomment_inside hquote hq, uncomment_cons (insideOf_ne_blockComment q)
    fun hroot => absurd hroot (insideOf_ne_root q), turn_insideOf hquote, if_pos rfl, leave_append]

end

/-- What a step keeps is left. -/
theorem Front.uncomment {state next : LexState} {t kept rest : Text}
    (h : Front state t kept next rest) (hstate : state ≠ .blockComment) :
    uncomment state t = leave kept (uncomment next rest) := by
  cases h with
  | blockComment => rfl
  | lineComment => rfl
  | slash hkeeps => exact uncomment_cons hstate fun _ _ => hkeeps
  | quote hquote =>
    have hslash : ∀ q : Char, q = '"' ∨ q = '\'' → q ≠ '/' := by
      rintro q (rfl | rfl) <;> decide
    rw [uncomment_cons hstate fun _ hq => absurd hq (hslash _ hquote), turn_root_quote hquote]
  | stretch hp => exact uncomment_stretch hp rest
  | closed hquote hq => exact uncomment_closed hquote hq rest
  | inside hquote hq =>
    have hleft := uncomment_inside hquote hq []
    rwa [List.append_nil] at hleft
  | comment => exact absurd rfl hstate

/-! ### In a comment -/

theorem uncomment_comment (t : Text) : uncomment .blockComment t =
    match commentEnd? t with
    | some n => uncomment .root (t.drop n)
    | none => ([], .blockComment) := by
  induction t using commentEnd?.induct with
  | case1 rest => rfl
  | case2 c rest hnot ih =>
    rw [commentEnd?, uncomment, ih]
    · cases commentEnd? rest <;> rfl
    · exact hnot
    · exact hnot
  | case3 => rfl

theorem commentEnd?_pos {t : Text} {n : Nat} (h : commentEnd? t = some n) : 0 < n := by
  unfold commentEnd? at h
  split at h
  · exact Option.some.inj h ▸ Nat.two_pos
  · obtain ⟨k, -, rfl⟩ := Option.map_eq_some_iff.mp h
    exact Nat.succ_pos k
  · cases h

/-- A comment is left out up to its end, or over the end of the line. -/
theorem step_comment (c : Char) (rest : Text) :
    (step .blockComment c rest).kind = .comment ∧
      uncomment .blockComment (c :: rest) =
        uncomment (step .blockComment c rest).next (rest.drop (step .blockComment c rest).more) := by
  have hstep : step .blockComment c rest =
      insideStep .comment .blockComment rest (commentEnd? (c :: rest)) := rfl
  rw [uncomment_comment, hstep]
  cases hend : commentEnd? (c :: rest) with
  | none =>
    refine ⟨rfl, ?_⟩
    rw [insideStep, List.drop_length, uncomment]
  | some n =>
    obtain ⟨k, rfl⟩ := Nat.exists_eq_add_one_of_ne_zero (Nat.ne_of_gt (commentEnd?_pos hend))
    exact ⟨rfl, rfl⟩

/-! ### Whole lines -/

/-- The tokens of a line leave what the characters say. -/
theorem uncomment_eq (state : LexState) (t : Text) :
    uncomment state t = (code (steps state t).1, (steps state t).2) := by
  -- By induction on the length: a step may take several characters.
  induction hlen : t.length using Nat.strongRecOn generalizing state t with
  | ind n ih =>
    cases t with
    | nil => rw [steps, uncomment]; rfl
    | cons c rest =>
      by_cases hstate : state = .blockComment
      · subst hstate
        obtain ⟨hkind, hleft⟩ := step_comment c rest
        have hgoes := goesOn_of_step (rfl : step .blockComment c rest = _)
        rw [hleft, ih _ (hlen ▸ hgoes.shorter) _ _ rfl, hgoes.code, hgoes.ending, if_pos hkind]
        rfl
      · obtain ⟨kept, next, after, hfront, hgoes⟩ := exists_front state c rest
        rw [hfront.uncomment hstate, ih _ (hlen ▸ hgoes.shorter) _ _ rfl, hgoes.code, hgoes.ending]
        rfl

/-! ### A blank at the end -/

/-- The same is left, perhaps with one character more at the end. -/
structure Extends (b : Char) (left more : Text × LexState) : Prop where
  text : more.1 = left.1 ∨ more.1 = left.1 ++ [b]
  ending : more.2 = left.2

theorem Extends.leave {b : Char} {left more : Text × LexState} (h : Extends b left more)
    (p : Text) : Extends b (leave p left) (leave p more) where
  text := by
    obtain heq | heq := h.text
    · exact .inl (congrArg (p ++ ·) heq)
    · exact .inr ((congrArg (p ++ ·) heq).trans (List.append_assoc p left.1 [b]).symm)
  ending := h.ending

/-- A blank at the end of a line is left or not, and turns no state. -/
theorem uncomment_append_blank {b : Char} (hb : Text.isBlank b = true) (state : LexState)
    (t : Text) : Extends b (uncomment state t) (uncomment state (t ++ [b])) := by
  have hslash : b ≠ '/' := by rintro rfl; exact absurd hb (by decide)
  have hstar : b ≠ '*' := by rintro rfl; exact absurd hb (by decide)
  fun_induction uncomment state t with
  | case1 state =>
    rw [List.nil_append]
    by_cases hstate : state = .blockComment
    · subst hstate
      have hleft : uncomment .blockComment [b] = uncomment .blockComment [] := by
        rw [uncomment.eq_5]
        rintro r - hnil
        cases hnil
      exact ⟨.inl (congrArg Prod.fst hleft), congrArg Prod.snd hleft⟩
    · rw [uncomment_cons hstate fun _ hc => absurd hc hslash]
      have hturn := turn_of_not_opens state (SourceLine.opensInert_of_isBlank hb)
      exact ⟨.inr rfl, hturn⟩
  | case2 rest ih => exact ih
  | case3 rest => exact ⟨.inl rfl, rfl⟩
  | case4 rest ih => exact ih
  | case5 c rest hnot ih =>
    rw [List.cons_append, uncomment]
    · exact ih
    · rintro r rfl hrest
      cases rest with
      | nil => exact hslash (List.cons.inj hrest).1
      | cons d rest => exact hnot rest rfl (by rw [(List.cons.inj hrest).1])
  | case6 state c rest hblock hline _ hstate ih =>
    rw [List.cons_append, uncomment_cons hstate]
    · exact ih.leave [c]
    · intro hroot hc d hd
      cases rest with
      | nil =>
        obtain rfl := Option.some.inj hd
        exact ⟨hslash, hstar⟩
      | cons e rest =>
        obtain rfl := Option.some.inj hd
        exact ⟨fun he => hline rest hroot hc (by rw [he]), fun he => hblock rest hroot hc (by rw [he])⟩

/-! ### Lines that follow one another -/

/-- What is left of lines without their comments. -/
def uncommentLines : LexState → List Text → List Text
  | _, [] => []
  | state, l :: rest => (uncomment state l).1 :: uncommentLines (uncomment state l).2 rest

theorem length_uncommentLines (state : LexState) (ls : List Text) :
    (uncommentLines state ls).length = ls.length := by
  induction ls generalizing state with
  | nil => rfl
  | cons l ls ih => rw [uncommentLines, List.length_cons, List.length_cons, ih]

end ScriptBench.Token
