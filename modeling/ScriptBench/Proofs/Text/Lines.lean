import ScriptBench.Proofs.Text.Strip

/-! Lines and the text they are joined to. -/
namespace ScriptBench.Text

/-- Every character takes up bytes. -/
theorem eq_nil_of_size_append {t more : Text} (h : size (t ++ more) = size t) : more = [] := by
  cases more with
  | nil => rfl
  | cons c rest =>
    have hpos := c.utf8Size_pos
    rw [size_append, size] at h
    omega

theorem unlines_cons_of_ne_nil (l : Text) {rest : List Text} (h : rest ≠ []) :
    unlines (l :: rest) = l ++ '\n' :: unlines rest := by
  rw [unlines]
  exact h

/-- Joined lines begin with the first one, and each further one follows a line feed. -/
theorem unlines_cons (l : Text) (rest : List Text) :
    unlines (l :: rest) = l ++ rest.flatMap ('\n' :: ·) := by
  induction rest generalizing l with
  | nil => exact (List.append_nil l).symm
  | cons k rest ih =>
    rw [unlines_cons_of_ne_nil l (List.cons_ne_nil k rest), ih, List.flatMap_cons,
      List.cons_append]

/-- Lines in front of another one end in line feeds. -/
theorem unlines_append_cons (front : List Text) (l : Text) (rest : List Text) :
    unlines (front ++ l :: rest) = front.flatMap (· ++ ['\n']) ++ unlines (l :: rest) := by
  induction front with
  | nil => rfl
  | cons k front ih =>
    have hne : front ++ l :: rest ≠ [] :=
      List.append_ne_nil_of_right_ne_nil _ (List.cons_ne_nil _ _)
    rw [List.cons_append, unlines_cons_of_ne_nil k hne, ih, List.flatMap_cons]
    simp only [List.append_assoc, List.cons_append, List.nil_append]

/-- A text is its lines joined. -/
theorem unlines_lines (t : Text) : unlines t.lines = t := by
  induction t with
  | nil => rfl
  | cons c t ih =>
    rw [lines]
    split
    · rename_i hc
      rw [unlines_cons_of_ne_nil [] (lines_ne_nil t), ih, hc]
      rfl
    · split
      · rename_i hnil
        exact absurd hnil (lines_ne_nil t)
      · rename_i first rest hlines
        rw [hlines, unlines_cons] at ih
        rw [unlines_cons, List.cons_append, ih]

/-! ### The pieces between line feeds -/

theorem lines_lineFeed (t : Text) : lines ('\n' :: t) = [] :: lines t := if_pos rfl

/-- A character other than a line feed goes to the first line. -/
theorem exists_lines_cons {c : Char} (hc : c ≠ '\n') (t : Text) :
    ∃ first rest, lines t = first :: rest ∧ lines (c :: t) = (c :: first) :: rest := by
  obtain ⟨first, rest, hlines⟩ := List.exists_cons_of_ne_nil (lines_ne_nil t)
  exact ⟨first, rest, hlines, by rw [lines, if_neg hc, hlines]⟩

theorem not_mem_of_mem_lines {t l : Text} (h : l ∈ lines t) : '\n' ∉ l := by
  induction t generalizing l with
  | nil =>
    rw [lines, List.mem_singleton] at h
    simp [h]
  | cons c t ih =>
    by_cases hc : c = '\n'
    · rw [hc, lines_lineFeed, List.mem_cons] at h
      obtain rfl | h := h
      · simp
      · exact ih h
    · obtain ⟨first, rest, hlines, hcons⟩ := exists_lines_cons hc t
      rw [hcons, List.mem_cons] at h
      rw [hlines] at ih
      obtain rfl | h := h
      · have hfirst := ih (List.mem_cons_self ..)
        simp [Ne.symm hc, hfirst]
      · exact ih (List.mem_cons_of_mem first h)

theorem mem_of_mem_lines {t l : Text} (h : l ∈ lines t) {c : Char} (hc : c ∈ l) : c ∈ t := by
  induction t generalizing l with
  | nil =>
    rw [lines, List.mem_singleton] at h
    rwa [h] at hc
  | cons d t ih =>
    by_cases hd : d = '\n'
    · rw [hd, lines_lineFeed, List.mem_cons] at h
      obtain rfl | h := h
      · cases hc
      · exact List.mem_cons_of_mem d (ih h hc)
    · obtain ⟨first, rest, hlines, hcons⟩ := exists_lines_cons hd t
      rw [hcons, List.mem_cons] at h
      rw [hlines] at ih
      obtain rfl | h := h
      · obtain rfl | hc := List.mem_cons.mp hc
        · exact List.mem_cons_self ..
        · exact List.mem_cons_of_mem d (ih (List.mem_cons_self ..) hc)
      · exact List.mem_cons_of_mem d (ih (List.mem_cons_of_mem first h) hc)

/-- There is one line more than there are line feeds. -/
theorem length_lines (t : Text) : (lines t).length = t.count '\n' + 1 := by
  induction t with
  | nil => rfl
  | cons c t ih =>
    by_cases hc : c = '\n'
    · rw [hc, lines_lineFeed, List.length_cons, ih, List.count_cons_self]
    · obtain ⟨first, rest, hlines, hcons⟩ := exists_lines_cons hc t
      rw [hlines] at ih
      rw [hcons, List.count_cons_of_ne hc, ← ih]
      rfl

theorem lines_append_lineFeed {l : Text} (h : '\n' ∉ l) (t : Text) :
    lines (l ++ '\n' :: t) = l :: lines t := by
  induction l with
  | nil => exact lines_lineFeed t
  | cons c l ih =>
    rw [List.mem_cons, not_or] at h
    rw [List.cons_append, lines, if_neg (Ne.symm h.1), ih h.2]

/-- Lines that hold no line feeds are found again. -/
theorem lines_unlines {ls : List Text} (hne : ls ≠ []) (h : ∀ l ∈ ls, '\n' ∉ l) :
    lines (unlines ls) = ls := by
  induction ls with
  | nil => exact absurd rfl hne
  | cons l ls ih =>
    have hl := h l (List.mem_cons_self ..)
    have hls : ∀ k ∈ ls, '\n' ∉ k := fun k hk => h k (List.mem_cons_of_mem l hk)
    cases ls with
    | nil => exact lines_of_not_mem hl
    | cons k ls =>
      rw [unlines_cons_of_ne_nil l (List.cons_ne_nil k ls), lines_append_lineFeed hl,
        ih (List.cons_ne_nil k ls) hls]

/-- What is put behind a text goes to its last line. -/
theorem lines_append {t u last : Text} {front : List Text} (h : t.lines = front ++ [last])
    (hu : '\n' ∉ u) : (t ++ u).lines = front ++ [last ++ u] := by
  have hfeeds : ∀ l ∈ front ++ [last ++ u], '\n' ∉ l := by
    have hlines : ∀ l ∈ front ++ [last], '\n' ∉ l := fun l hl => not_mem_of_mem_lines (h ▸ hl)
    have hlast := hlines last (by simp)
    simp only [List.mem_append, List.mem_singleton] at hlines ⊢
    rintro l (hl | rfl)
    · exact hlines l (.inl hl)
    · simp [hlast, hu]
  have ht : t ++ u = unlines (front ++ [last ++ u]) := by
    rw [← unlines_lines t, h, unlines_append_cons, unlines_append_cons, unlines, unlines,
      List.append_assoc]
  rw [ht, lines_unlines (by simp) hfeeds]

end ScriptBench.Text
