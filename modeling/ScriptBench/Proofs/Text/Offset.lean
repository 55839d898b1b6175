import ScriptBench.Text

/-! Byte offsets into a text.

An offset is good for a cut when it falls between two characters, or at one of the
ends. Cutting and slicing are checked here: where an offset is beyond the end or inside
of a character there is no result. -/
namespace ScriptBench.Text

/-- Cuts a text at a byte offset. -/
def splitAt? (n : Nat) (t : Text) : Option (Text × Text) :=
  (charsAt? n t).map fun k => (t.take k, t.drop k)

/-- The offset falls between two characters, or at an end. -/
def IsBoundary (t : Text) (n : Nat) : Prop := ∃ p q : Text, t = p ++ q ∧ p.size = n

/-- What stands between two byte offsets. -/
def slice? (start stop : Nat) (t : Text) : Option Text := do
  let (_, rest) ← splitAt? start t
  let (part, _) ← splitAt? (stop - start) rest
  if start ≤ stop then some part else none

/-- Takes out what stands between two byte offsets. -/
def cutOut? (start stop : Nat) (t : Text) : Option Text := do
  let (front, _) ← t.splitAt? start
  let (_, back) ← t.splitAt? stop
  if start ≤ stop then some (front ++ back) else none

theorem charsAt?_append (p q : Text) : charsAt? p.size (p ++ q) = some p.length := by
  induction p with
  | nil => rw [size, List.nil_append, charsAt?, List.length_nil]
  | cons c p ih =>
    obtain ⟨k, hk⟩ : ∃ k, c.utf8Size + size p = k + 1 :=
      Nat.exists_eq_add_one_of_ne_zero (by have := c.utf8Size_pos; omega)
    have hsize : k + 1 - c.utf8Size = size p := by omega
    have hfits : c.utf8Size ≤ k + 1 := by omega
    rw [size, hk, List.cons_append, charsAt?, if_pos hfits, hsize, ih]
    rfl

/-- A text is cut where its first part ends. -/
@[simp] theorem splitAt?_append (p q : Text) : splitAt? p.size (p ++ q) = some (p, q) := by
  rw [splitAt?, charsAt?_append, Option.map_some, List.take_left, List.drop_left]

theorem slice?_append (p m q : Text) :
    slice? p.size (p.size + m.size) (p ++ (m ++ q)) = some m := by
  have hle : p.size ≤ p.size + m.size := Nat.le_add_right ..
  simp [slice?, hle]

theorem cutOut?_append (p m q : Text) :
    (p ++ (m ++ q)).cutOut? p.size (p.size + m.size) = some (p ++ q) := by
  have hstop : (p ++ (m ++ q)).splitAt? (p.size + m.size) = some (p ++ m, q) := by
    rw [← List.append_assoc, ← size_append, splitAt?_append]
  simp [cutOut?, hstop]

/-- One character is taken out. -/
theorem cutOut?_char (p : Text) (c : Char) (q : Text) :
    (p ++ c :: q).cutOut? p.size (p.size + c.utf8Size) = some (p ++ q) := by
  simpa [size] using cutOut?_append p [c] q

/-- Two characters are taken out together. -/
theorem cutOut?_pair (p : Text) (c d : Char) (q : Text) :
    (p ++ c :: d :: q).cutOut? p.size (p.size + c.utf8Size + d.utf8Size) = some (p ++ q) := by
  simpa [size, Nat.add_assoc] using cutOut?_append p [c, d] q

theorem size_reverse (t : Text) : size t.reverse = t.size := by
  induction t with
  | nil => rfl
  | cons c t ih =>
    rw [List.reverse_cons, size_append, ih, size, size, size]
    omega

theorem size_pos_iff {t : Text} : 0 < t.size ↔ t ≠ [] := by
  cases t with
  | nil => simp [size]
  | cons c t => exact iff_of_true (Nat.add_pos_left c.utf8Size_pos _) (List.cons_ne_nil c t)

/-- In a text of one-byte characters, bytes and characters count the same. -/
theorem size_of_narrow {t : Text} (ht : ∀ c ∈ t, c.utf8Size = 1) : t.size = t.length := by
  induction t with
  | nil => rfl
  | cons c t ih =>
    rw [List.forall_mem_cons] at ht
    rw [size, ht.1, ih ht.2, List.length_cons, Nat.add_comm]

/-- Such a text can be cut anywhere. -/
theorem splitAt?_of_narrow {t : Text} (ht : ∀ c ∈ t, c.utf8Size = 1) (k : Nat) :
    t.splitAt? (t.size - k) = some (t.take (t.length - k), t.drop (t.length - k)) := by
  have htake : size (t.take (t.length - k)) = t.size - k := by
    rw [size_of_narrow ht, size_of_narrow fun c hc => ht c (List.mem_of_mem_take hc),
      List.length_take]
    omega
  rw [← htake]
  simpa using splitAt?_append (t.take (t.length - k)) (t.drop (t.length - k))

theorem isBoundary_append (p q : Text) : (p ++ q).IsBoundary p.size := ⟨p, q, rfl, rfl⟩

theorem IsBoundary.le_size {t : Text} {n : Nat} (h : t.IsBoundary n) : n ≤ t.size := by
  obtain ⟨p, q, rfl, rfl⟩ := h
  rw [size_append]
  exact Nat.le_add_right ..

theorem isBoundary_of_charsAt? {n k : Nat} {t : Text} (h : charsAt? n t = some k) :
    t.IsBoundary n := by
  induction t generalizing n k with
  | nil =>
    cases n with
    | zero => exact ⟨[], [], rfl, rfl⟩
    | succ n => cases h
  | cons c t ih =>
    cases n with
    | zero => exact ⟨[], c :: t, rfl, rfl⟩
    | succ n =>
      rw [charsAt?] at h
      split at h
      · rename_i hfits
        obtain ⟨k, hk, -⟩ := Option.map_eq_some_iff.mp h
        obtain ⟨p, q, rfl, hp⟩ := ih hk
        refine ⟨c :: p, q, rfl, ?_⟩
        rw [size, hp]
        omega
      · cases h

/-- The check is exact: a text is cut between two characters and nowhere else. -/
theorem isSome_splitAt?_iff {n : Nat} {t : Text} : (t.splitAt? n).isSome ↔ t.IsBoundary n := by
  rw [splitAt?, Option.isSome_map]
  constructor
  · intro h
    obtain ⟨k, hk⟩ := Option.isSome_iff_exists.mp h
    exact isBoundary_of_charsAt? hk
  · rintro ⟨p, q, rfl, rfl⟩
    rw [charsAt?_append]
    rfl

theorem splitAt?_eq_some_iff {n : Nat} {t p q : Text} :
    t.splitAt? n = some (p, q) ↔ t = p ++ q ∧ p.size = n := by
  constructor
  · intro h
    obtain ⟨s, r, rfl, rfl⟩ := isSome_splitAt?_iff.mp (Option.isSome_of_eq_some h)
    rw [splitAt?_append] at h
    cases h
    exact ⟨rfl, rfl⟩
  · rintro ⟨rfl, rfl⟩
    exact splitAt?_append p q

theorem slice?_eq_some_iff {start stop : Nat} {t m : Text} : t.slice? start stop = some m ↔
    ∃ p q : Text, t = p ++ (m ++ q) ∧ p.size = start ∧ start + m.size = stop := by
  constructor
  · intro h
    simp only [slice?, Option.bind_eq_bind, Option.bind_eq_some_iff, Prod.exists] at h
    obtain ⟨p, rest, hstart, middle, q, hstop, h⟩ := h
    obtain ⟨rfl, rfl⟩ := splitAt?_eq_some_iff.mp hstart
    obtain ⟨rfl, hsize⟩ := splitAt?_eq_some_iff.mp hstop
    split at h
    · cases h
      exact ⟨p, q, rfl, rfl, by omega⟩
    · cases h
  · rintro ⟨p, q, rfl, rfl, rfl⟩
    exact slice?_append p m q

/-! ### Characters at an offset -/

/-- The character that ends at a byte offset. -/
def charBefore? (t : Text) (n : Nat) : Option Char := do
  let (before, _) ← t.splitAt? n
  before.getLast?

/-- The character that starts at a byte offset. -/
def charAfter? (t : Text) (n : Nat) : Option Char := do
  let (_, after) ← t.splitAt? n
  after.head?

@[simp] theorem charBefore?_append (p q : Text) : (p ++ q).charBefore? p.size = p.getLast? := by
  simp [charBefore?]

@[simp] theorem charAfter?_append (p q : Text) : (p ++ q).charAfter? p.size = q.head? := by
  simp [charAfter?]

/-- The characters of a text, each with the byte offset where it starts. -/
def charIndices (n : Nat) : Text → List (Nat × Char)
  | [] => []
  | c :: t => (n, c) :: charIndices (n + c.utf8Size) t

theorem map_charIndices (n : Nat) (t : Text) : (charIndices n t).map (·.2) = t := by
  induction t generalizing n with
  | nil => rfl
  | cons c t ih => rw [charIndices, List.map_cons, ih]

theorem mem_of_mem_charIndices {n : Nat} {t : Text} {x : Nat × Char} (h : x ∈ charIndices n t) :
    x.2 ∈ t := by
  have hmem : x.2 ∈ (charIndices n t).map (·.2) := List.mem_map_of_mem h
  rwa [map_charIndices] at hmem

theorem charIndices_append (n : Nat) (p q : Text) :
    charIndices n (p ++ q) = charIndices n p ++ charIndices (n + p.size) q := by
  induction p generalizing n with
  | nil => rfl
  | cons c p ih =>
    rw [List.cons_append, charIndices, charIndices, ih, size, Nat.add_assoc, List.cons_append]

end ScriptBench.Text
