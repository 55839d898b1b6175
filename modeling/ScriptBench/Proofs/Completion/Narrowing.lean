import Mathlib.Data.List.Sort
import Mathlib.Data.Prod.Lex
import Mathlib.Data.String.Basic
import ScriptBench.Completion
import ScriptBench.Proofs.Text.Strip

/-! A list of suggestions narrows while a word is typed.

The order of suggestions is that of their ranks, so it is total and transitive. A stable sort by
such an order puts the elements into their places one by one, from the last to the first, and what
is left out of the input is then missing from the output, with nothing else moved. -/
namespace ScriptBench

/-! ### Stable sorting -/

section StableSort
variable {α : Type} {r : α → α → Prop} [DecidableRel r]

theorem orderedInsert_of_forall {a : α} {l : List α} (h : ∀ b ∈ l, r a b) :
    l.orderedInsert r a = a :: l := by
  cases l with
  | nil => rfl
  | cons b l => exact List.orderedInsert_cons_of_le r l (h b List.mem_cons_self)

theorem filter_orderedInsert_of_neg (p : α → Bool) {a : α} (ha : p a = false) (l : List α) :
    (l.orderedInsert r a).filter p = l.filter p := by
  rw [List.orderedInsert_eq_take_drop, List.filter_append, List.filter_cons_of_neg (by simp [ha]),
    ← List.filter_append, List.takeWhile_append_dropWhile]

theorem filter_orderedInsert_of_pos [IsTrans α r] (p : α → Bool) {a : α} (ha : p a = true)
    {l : List α} (hl : l.Pairwise r) :
    (l.orderedInsert r a).filter p = (l.filter p).orderedInsert r a := by
  induction l with
  | nil => simp [ha]
  | cons b l ih =>
    have hsorted := List.pairwise_cons.mp hl
    by_cases hab : r a b
    · -- All that follows may stand behind the new element, so what is left of it may too.
      have hall : ∀ c ∈ (b :: l).filter p, r a c := by
        intro c hc
        obtain rfl | hcl := List.mem_cons.mp (List.mem_of_mem_filter hc)
        · exact hab
        · exact trans_of r hab (hsorted.1 c hcl)
      rw [List.orderedInsert_cons_of_le r l hab, List.filter_cons_of_pos ha,
        orderedInsert_of_forall hall]
    · rw [List.orderedInsert_of_not_le r l hab]
      cases hb : p b with
      | true =>
        rw [List.filter_cons_of_pos hb, List.filter_cons_of_pos hb, ih hsorted.2,
          List.orderedInsert_of_not_le r _ hab]
      | false =>
        have hb' : ¬ p b = true := by simp [hb]
        rw [List.filter_cons_of_neg hb', List.filter_cons_of_neg hb', ih hsorted.2]

variable (r) [Std.Total r] [IsTrans α r]

/-- One element more is put in front of the first element that may stand behind it. -/
theorem mergeSort_cons_eq_orderedInsert (a : α) (l : List α) :
    (a :: l).mergeSort (r · ·) = (l.mergeSort (r · ·)).orderedInsert r a := by
  have htrans : ∀ b c d, decide (r b c) = true → decide (r c d) = true → decide (r b d) = true := by
    simpa using fun b c d => trans_of r
  have htotal : ∀ b c, (decide (r b c) || decide (r c b)) = true := by
    simpa using total_of r
  obtain ⟨lower, upper, hcons, hsort, hlower⟩ := List.mergeSort_cons htrans htotal a l
  have hsorted := List.pairwise_mergeSort' r (a :: l)
  rw [hcons] at hsorted
  have hupper : ∀ b ∈ upper, r a b :=
    (List.pairwise_cons.mp (List.pairwise_append.mp hsorted).2.1).1
  have hcut : ∀ b ∈ lower, decide ¬ r a b := by simpa using hlower
  rw [hcons, hsort, List.orderedInsert_eq_take_drop, List.takeWhile_append_of_pos hcut,
    List.dropWhile_append_of_pos hcut]
  cases upper with
  | nil => simp
  | cons b upper => simp [hupper b List.mem_cons_self]

theorem mergeSort_eq_insertionSort (l : List α) :
    l.mergeSort (r · ·) = l.insertionSort r := by
  induction l with
  | nil => rw [List.mergeSort_nil, List.insertionSort_nil]
  | cons a l ih => rw [mergeSort_cons_eq_orderedInsert, ih, List.insertionSort_cons]

/-- What is left of the sorted list is what is left of the list, sorted. -/
theorem filter_mergeSort (p : α → Bool) (l : List α) :
    (l.mergeSort (r · ·)).filter p = (l.filter p).mergeSort (r · ·) := by
  induction l with
  | nil => simp
  | cons a l ih =>
    rw [mergeSort_cons_eq_orderedInsert]
    cases ha : p a with
    | true =>
      rw [filter_orderedInsert_of_pos p ha (List.pairwise_mergeSort' r l), ih,
        List.filter_cons_of_pos ha, mergeSort_cons_eq_orderedInsert]
    | false =>
      rw [filter_orderedInsert_of_neg p ha, ih, List.filter_cons_of_neg (by simp [ha])]

/-- Elements of which each may stand behind each other keep their order. -/
theorem filter_mergeSort_of_forall {p : α → Bool} (h : ∀ a b, p a → p b → r a b) (l : List α) :
    (l.mergeSort (r · ·)).filter p = l.filter p := by
  rw [filter_mergeSort, List.mergeSort_of_pairwise]
  rw [List.pairwise_filter]
  exact List.pairwise_of_forall fun a b ha hb => by simpa using h a b ha hb

end StableSort

namespace Suggestion

/-! ### What has been typed -/

/-- A capital letter, and the small letter 32 places behind it. -/
def IsCapitalOf (c d : Char) : Prop := 'A' ≤ c ∧ c ≤ 'Z' ∧ d.toNat = c.toNat + 32

/-- Two characters are the same, or they are an ASCII letter in both its cases. -/
def SameLetter (c d : Char) : Prop := c = d ∨ IsCapitalOf c d ∨ IsCapitalOf d c

/-- The label begins with what has been typed, the case of ASCII letters aside. -/
def Begins (typed : Text) (s : Suggestion) : Prop :=
  ∃ front rest, s.label.toList = front ++ rest ∧ List.Forall₂ SameLetter front typed

theorem toNat_toUpper (c : Char) :
    c.toUpper.toNat = if 97 ≤ c.toNat ∧ c.toNat ≤ 122 then c.toNat - 32 else c.toNat := by
  unfold Char.toUpper
  split
  · rename_i h
    have hsmall : 97 ≤ c.toNat ∧ c.toNat ≤ 122 := h
    have hback : ('A'.val - 'a'.val).toNat = 2 ^ 32 - 32 := rfl
    rw [if_pos hsmall]
    show (c.val + ('A'.val - 'a'.val)).toNat = c.toNat - 32
    rw [UInt32.toNat_add, hback]
    show (c.toNat + _) % _ = _
    omega
  · rename_i h
    exact (if_neg (c := 97 ≤ c.toNat ∧ c.toNat ≤ 122) h).symm

theorem toUpper_eq_toUpper_iff (c d : Char) : c.toUpper = d.toUpper ↔ SameLetter c d := by
  have hcapital (c d : Char) :
      IsCapitalOf c d ↔ 65 ≤ c.toNat ∧ c.toNat ≤ 90 ∧ d.toNat = c.toNat + 32 := Iff.rfl
  rw [SameLetter, hcapital, hcapital, ← Char.toNat_inj, ← Char.toNat_inj, toNat_toUpper,
    toNat_toUpper]
  split <;> split <;> omega

/-- Texts are the same in capitals when they are the same letter by letter. -/
theorem upper_eq_upper_iff (t t' : Text) : upper t = upper t' ↔ List.Forall₂ SameLetter t t' := by
  have hletters : SameLetter = fun c d => c.toUpper = d.toUpper := by
    funext c d
    exact propext (toUpper_eq_toUpper_iff c d).symm
  rw [hletters, upper, upper, ← List.forall₂_eq_eq_eq, List.forall₂_map_left_iff,
    List.forall₂_map_right_iff]

theorem matchesTyped_iff (typed : Text) (s : Suggestion) :
    matchesTyped typed s = true ↔ s.Begins typed := by
  simp only [matchesTyped, Option.isSome_iff_exists, Begins, ← upper_eq_upper_iff]
  constructor
  · rintro ⟨tail, htail⟩
    obtain ⟨front, rest, hlabel, hfront, -⟩ :=
      List.map_eq_append_iff.mp (Text.stripStart?_eq_some_iff.mp htail)
    exact ⟨front, rest, hlabel, hfront⟩
  · rintro ⟨front, rest, hlabel, hfront⟩
    refine ⟨upper rest, Text.stripStart?_eq_some_iff.mpr ?_⟩
    rw [hlabel, ← hfront, upper, List.map_append]
    rfl

instance (typed : Text) (s : Suggestion) : Decidable (s.Begins typed) :=
  decidable_of_iff _ (matchesTyped_iff typed s)

theorem filter_matchesTyped (items : List Suggestion) (typed : Text) :
    items.filter (matchesTyped typed) = items.filter (·.Begins typed) := by
  refine List.filter_congr fun s _ => ?_
  rw [Bool.eq_iff_iff, matchesTyped_iff, decide_eq_true_iff]

/-- What begins with a longer text begins with the shorter one. -/
theorem Begins.of_append {typed more : Text} {s : Suggestion} (h : s.Begins (typed ++ more)) :
    s.Begins typed := by
  obtain ⟨front, rest, hlabel, hfront⟩ := h
  refine ⟨front.take typed.length, front.drop typed.length ++ rest, ?_, ?_⟩
  · rw [← List.append_assoc, List.take_append_drop, hlabel]
  · exact List.forall₂_take_append front typed more hfront

/-! ### The order -/

/-- What suggestions are ordered by: the size of the label, then whether it is no snippet, then
the label. -/
def rank (s : Suggestion) : Nat ×ₗ Bool ×ₗ String :=
  toLex (s.label.utf8ByteSize, toLex (!s.isSnippet, s.label))

instance : Preorder Suggestion := Preorder.lift rank

instance : DecidableLE Suggestion := fun a b => inferInstanceAs (Decidable (a.rank ≤ b.rank))

instance : @Std.Total Suggestion (· ≤ ·) := ⟨fun a b => le_total a.rank b.rank⟩

theorem before_iff (a b : Suggestion) : before a b = true ↔ a ≤ b := by
  change before a b = true ↔ a.rank ≤ b.rank
  simp only [before, rank, Prod.Lex.toLex_le_toLex]
  cases a.isSnippet <;> cases b.isSnippet <;> simp [le_iff_lt_or_eq]

theorem suggest_eq_mergeSort (items : List Suggestion) {typed : Text} (htyped : typed ≠ []) :
    suggest items typed = (items.filter (·.Begins typed)).mergeSort (· ≤ ·) := by
  have hbefore : before = fun a b => decide (a ≤ b) := by
    funext a b
    rw [Bool.eq_iff_iff, before_iff, decide_eq_true_iff]
  rw [suggest, if_neg (by simpa using htyped), filter_matchesTyped, hbefore]

/-- A list of the items that begin with what has been typed, in order. -/
structure Ranked (items : List Suggestion) (typed : Text) (l : List Suggestion) : Prop where
  /-- The items that begin so, each as often as among all items. -/
  count (s : Suggestion) : l.count s = if s.Begins typed then items.count s else 0
  ordered : l.Pairwise (· ≤ ·)
  /-- Those of one rank stand as among all items. -/
  ties (k : Nat ×ₗ Bool ×ₗ String) :
    l.filter (·.rank = k) = items.filter fun s => s.rank = k ∧ s.Begins typed

theorem ranked_mergeSort (items : List Suggestion) (typed : Text) :
    Ranked items typed ((items.filter (·.Begins typed)).mergeSort (· ≤ ·)) where
  count s := by
    rw [(List.mergeSort_perm _ _).count_eq]
    split
    next hs => exact List.count_filter (decide_eq_true hs)
    next hs => simp [List.count_eq_zero, hs]
  ordered := List.pairwise_mergeSort' (· ≤ ·) _
  ties k := by
    rw [filter_mergeSort_of_forall, List.filter_filter]
    · simp
    · intro a b ha hb
      exact ((of_decide_eq_true ha).trans (of_decide_eq_true hb).symm).le

/-- The suggestions are the items that begin with what has been typed, ranked, and when more is
typed those of them stay, as they stand, that begin with all of it. -/
theorem suggest_narrows (items : List Suggestion) {typed : Text} (htyped : typed ≠ [])
    (more : Text) :
    Ranked items typed (suggest items typed) ∧
      suggest items (typed ++ more) =
        (suggest items typed).filter (·.Begins (typed ++ more)) := by
  have hmore : typed ++ more ≠ [] := List.append_ne_nil_of_left_ne_nil htyped more
  have hbegins : (fun s : Suggestion => decide (s.Begins (typed ++ more))) =
      fun s => decide (s.Begins (typed ++ more)) && decide (s.Begins typed) := by
    funext s
    rw [Bool.eq_iff_iff, Bool.and_eq_true, decide_eq_true_iff, decide_eq_true_iff]
    exact ⟨fun h => ⟨h, h.of_append⟩, And.left⟩
  rw [suggest_eq_mergeSort items htyped, suggest_eq_mergeSort items hmore]
  refine ⟨ranked_mergeSort items typed, ?_⟩
  rw [filter_mergeSort, List.filter_filter, ← hbegins]

/-- Each snippet twice, so that there are ties. What is typed in small letters finds the labels,
which are in capitals. -/
theorem suggest_narrows_snippets :
    ['o', 'p', '_'] ≠ [] ∧
    Ranked (snippets ++ snippets) ['o', 'p', '_']
      (suggest (snippets ++ snippets) ['o', 'p', '_']) ∧
    (suggest (snippets ++ snippets) ['o', 'p', '_']).map (·.label) =
      ["OP_IF", "OP_IF", "OP_NOTIF", "OP_NOTIF"] ∧
    (suggest (snippets ++ snippets) ['o', 'p', '_', 'n']).map (·.label) =
      ["OP_NOTIF", "OP_NOTIF"] := by
  obtain ⟨hranked, hnarrowed⟩ :=
    suggest_narrows (snippets ++ snippets) (by decide : ['o', 'p', '_'] ≠ []) ['n']
  have hfound : suggest (snippets ++ snippets) ['o', 'p', '_'] =
      [snippets[0], snippets[0], snippets[1], snippets[1]] := by
    rw [suggest_eq_mergeSort _ (by decide), mergeSort_eq_insertionSort]
    decide +kernel
  refine ⟨by decide, hranked, ?_, ?_⟩
  · rw [hfound]
    rfl
  · show (suggest _ (['o', 'p', '_'] ++ ['n'])).map _ = _
    rw [hnarrowed, hfound]
    decide +kernel

end Suggestion

end ScriptBench
