import ScriptBench.Text

/-! Taking off what stands at the ends of a text. -/
namespace ScriptBench.Text

theorem stripStart?_append (lead t : Text) : stripStart? lead (lead ++ t) = some t := by
  induction lead with
  | nil => rfl
  | cons c lead ih => rw [List.cons_append, stripStart?, if_pos rfl, ih]

theorem eq_append_of_stripStart? {lead t rest : Text} (h : stripStart? lead t = some rest) :
    t = lead ++ rest := by
  induction lead generalizing t with
  | nil => exact Option.some.inj h
  | cons l lead ih =>
    cases t with
    | nil => cases h
    | cons c t =>
      rw [stripStart?] at h
      split at h
      · rename_i hc
        rw [hc, ih h, List.cons_append]
      · cases h

theorem stripStart?_eq_some_iff {lead t rest : Text} :
    stripStart? lead t = some rest ↔ t = lead ++ rest := by
  constructor
  · exact eq_append_of_stripStart?
  · rintro rfl
    exact stripStart?_append lead rest

/-- A text does not start with what has a character that it lacks. -/
theorem stripStart?_of_not_mem {c : Char} {lead t : Text} (hlead : c ∈ lead) (ht : c ∉ t) :
    stripStart? lead t = none := by
  cases h : stripStart? lead t with
  | none => rfl
  | some rest =>
    rw [eq_append_of_stripStart? h] at ht
    exact absurd (List.mem_append_left rest hlead) ht

theorem stripEnd?_append (t tail : Text) : stripEnd? tail (t ++ tail) = some t := by
  rw [stripEnd?, List.reverse_append, stripStart?_append, Option.map_some, List.reverse_reverse]

theorem eq_append_of_stripEnd? {tail t front : Text} (h : stripEnd? tail t = some front) :
    t = front ++ tail := by
  obtain ⟨rest, hrest, rfl⟩ := Option.map_eq_some_iff.mp h
  rw [← List.reverse_inj, eq_append_of_stripStart? hrest]
  simp

theorem stripEnd?_eq_some_iff {tail t front : Text} :
    stripEnd? tail t = some front ↔ t = front ++ tail := by
  constructor
  · exact eq_append_of_stripEnd?
  · rintro rfl
    exact stripEnd?_append front tail

/-- A text without line feeds is one line. -/
theorem lines_of_not_mem {t : Text} (h : '\n' ∉ t) : lines t = [t] := by
  induction t with
  | nil => rfl
  | cons c t ih =>
    rw [List.mem_cons, not_or] at h
    rw [lines, if_neg (Ne.symm h.1), ih h.2]

/-! ### Blanks -/

variable {lead trail t : Text}

theorem dropWhile_of_head? (ht : ∀ c ∈ t.head?, isBlank c = false) : t.dropWhile isBlank = t := by
  cases t with
  | nil => rfl
  | cons c t => rw [List.dropWhile_cons_of_neg (by simp [ht c rfl])]

theorem dropWhile_blanks (hlead : ∀ c ∈ lead, isBlank c = true)
    (ht : ∀ c ∈ t.head?, isBlank c = false) : (lead ++ t).dropWhile isBlank = t := by
  rw [List.dropWhile_append_of_pos hlead, dropWhile_of_head? ht]

/-- Blanks around a text that neither starts nor ends with one are taken off. -/
theorem trim_blanks (hlead : ∀ c ∈ lead, isBlank c = true) (htrail : ∀ c ∈ trail, isBlank c = true)
    (hne : t ≠ []) (hfirst : ∀ c ∈ t.head?, isBlank c = false)
    (hlast : ∀ c ∈ t.getLast?, isBlank c = false) : trim (lead ++ t ++ trail) = t := by
  have hstart : trimStart (lead ++ t ++ trail) = t ++ trail := by
    rw [trimStart, List.append_assoc]
    refine dropWhile_blanks hlead ?_
    cases t with
    | nil => exact absurd rfl hne
    | cons c t => exact hfirst
  have hend : (t ++ trail).reverse.dropWhile isBlank = t.reverse := by
    rw [List.reverse_append]
    refine dropWhile_blanks (fun c hc => htrail c (List.mem_reverse.mp hc)) ?_
    rwa [List.head?_reverse]
  rw [trim, hstart, trimEnd, hend, List.reverse_reverse]

/-- A text that neither begins nor ends with a blank. -/
structure IsTrimmed (t : Text) : Prop where
  first : ∀ c ∈ t.head?, isBlank c = false
  last : ∀ c ∈ t.getLast?, isBlank c = false

theorem trim_of_isTrimmed (h : t.IsTrimmed) : trim t = t := by
  have hend : t.reverse.dropWhile isBlank = t.reverse :=
    dropWhile_of_head? (by rw [List.head?_reverse]; exact h.last)
  rw [trim, trimStart, dropWhile_of_head? h.first, trimEnd, hend, List.reverse_reverse]

/-- A text without blanks stays as it is. -/
theorem trim_of_not_blank (h : ∀ c ∈ t, isBlank c = false) : trim t = t :=
  trim_of_isTrimmed
    ⟨fun c hc => h c (List.mem_of_mem_head? hc), fun c hc => h c (List.mem_of_getLast? hc)⟩

/-- A blank at the end is taken off with the others. -/
theorem trim_append_blank {c : Char} (hc : isBlank c = true) (t : Text) :
    trim (t ++ [c]) = trim t := by
  have hend (s : Text) : trimEnd (s ++ [c]) = trimEnd s := by
    rw [trimEnd, List.reverse_append, List.reverse_singleton, List.singleton_append,
      List.dropWhile_cons_of_pos hc, trimEnd]
  rw [trim, trim, trimStart, trimStart, List.dropWhile_append]
  split
  · rename_i hempty
    rw [List.isEmpty_iff.mp hempty, List.dropWhile_cons_of_pos hc, List.dropWhile_nil]
  · exact hend _

/-- Elements are taken up to the first that is not wanted. -/
theorem takeWhile_append_of_head? {α : Type} {p : α → Bool} {l k : List α}
    (hl : ∀ x ∈ l, p x = true) (hk : ∀ x ∈ k.head?, p x = false) : (l ++ k).takeWhile p = l := by
  have hstop : k.takeWhile p = [] := by
    cases k with
    | nil => rfl
    | cons x k => exact List.takeWhile_cons_of_neg (by simp [hk x rfl])
  rw [List.takeWhile_append_of_pos hl, hstop, List.append_nil]

/-- What is left begins with a character that is not taken off. -/
theorem head?_dropWhile (p : Char → Bool) (t : Text) :
    ∀ c ∈ (t.dropWhile p).head?, p c = false := by
  intro c hc
  have hnot := List.head?_dropWhile_not p t
  rw [Option.mem_def.mp hc] at hnot
  simpa using hnot

theorem head?_dropWhile_blanks (t : Text) : ∀ c ∈ (t.dropWhile isBlank).head?, isBlank c = false :=
  head?_dropWhile isBlank t

theorem isBlank_of_mem_takeWhile {c : Char} (h : c ∈ t.takeWhile isBlank) : isBlank c = true :=
  List.all_eq_true.mp List.all_takeWhile c h

theorem exists_append_trimEnd (t : Text) :
    ∃ trail, (∀ c ∈ trail, isBlank c = true) ∧ t = trimEnd t ++ trail := by
  refine ⟨(t.reverse.takeWhile isBlank).reverse, fun c hc => ?_, ?_⟩
  · exact isBlank_of_mem_takeWhile (List.mem_reverse.mp hc)
  · rw [trimEnd, ← List.reverse_append, List.takeWhile_append_dropWhile, List.reverse_reverse]

/-- What is left when blanks are taken off the front, up to a character that is none. -/
theorem trimStart_eq_cons_iff {c : Char} {rest : Text} (hc : isBlank c = false) :
    trimStart t = c :: rest ↔ ∃ lead, t = lead ++ c :: rest ∧ ∀ b ∈ lead, isBlank b = true := by
  constructor
  · intro h
    refine ⟨t.takeWhile isBlank, ?_, fun b hb => isBlank_of_mem_takeWhile hb⟩
    rw [← h, trimStart, List.takeWhile_append_dropWhile]
  · rintro ⟨lead, rfl, hlead⟩
    refine dropWhile_blanks hlead fun b hb => ?_
    rwa [← Option.mem_some.mp hb]

/-- What is left when blanks are taken off the end. -/
theorem trimEnd_eq_concat_iff {c : Char} {front : Text} (hc : isBlank c = false) :
    trimEnd t = front ++ [c] ↔
      ∃ trail, t = front ++ [c] ++ trail ∧ ∀ b ∈ trail, isBlank b = true := by
  rw [trimEnd, List.reverse_eq_iff, List.reverse_append, List.reverse_singleton,
    List.singleton_append, ← trimStart, trimStart_eq_cons_iff hc]
  constructor
  · rintro ⟨lead, heq, hlead⟩
    refine ⟨lead.reverse, ?_, fun b hb => hlead b (List.mem_reverse.mp hb)⟩
    rw [← List.reverse_inj, heq]
    simp
  · rintro ⟨trail, rfl, htrail⟩
    exact ⟨trail.reverse, by simp, fun b hb => htrail b (List.mem_reverse.mp hb)⟩

/-- What is taken off are blanks. -/
theorem exists_append_trim (t : Text) : ∃ lead trail, (∀ c ∈ lead, isBlank c = true) ∧
    (∀ c ∈ trail, isBlank c = true) ∧ t = lead ++ trim t ++ trail := by
  obtain ⟨trail, htrail, heq⟩ := exists_append_trimEnd (trimStart t)
  refine ⟨t.takeWhile isBlank, trail, fun c hc => isBlank_of_mem_takeWhile hc, htrail, ?_⟩
  rw [List.append_assoc, trim, ← heq, trimStart, List.takeWhile_append_dropWhile]

/-- Nothing is left of blanks alone. -/
theorem trim_eq_nil_iff : trim t = [] ↔ ∀ c ∈ t, isBlank c = true := by
  constructor
  · intro h c hc
    obtain ⟨lead, trail, hlead, htrail, heq⟩ := exists_append_trim t
    rw [heq, h, List.append_nil, List.mem_append] at hc
    exact hc.elim (hlead c) (htrail c)
  · intro h
    have hdrop := dropWhile_blanks (t := []) h (by simp)
    rw [List.append_nil] at hdrop
    rw [trim, trimStart, hdrop]
    rfl

theorem mem_of_mem_trim {c : Char} (h : c ∈ trim t) : c ∈ t := by
  obtain ⟨lead, trail, -, -, heq⟩ := exists_append_trim t
  rw [heq]
  exact List.mem_append_left trail (List.mem_append_right lead h)

theorem isTrimmed_trim (t : Text) : (trim t).IsTrimmed where
  first := by
    -- The first character is still that of the text without the blanks before it.
    intro c hc
    obtain ⟨trail, -, heq⟩ := exists_append_trimEnd (trimStart t)
    have hfirst : c ∈ (trimStart t).head? := by
      rw [heq, List.head?_append, show (trimEnd (trimStart t)).head? = some c from hc]
      rfl
    exact head?_dropWhile_blanks t c hfirst
  last := by
    rw [trim, trimEnd, List.getLast?_reverse]
    exact head?_dropWhile_blanks _

end ScriptBench.Text
