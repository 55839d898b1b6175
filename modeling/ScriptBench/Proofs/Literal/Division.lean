import ScriptBench.Proofs.Literal.FixedWidth

/-! Euclidean division of words.

Words are divided with truncation, and the quotient and the remainder are then moved by one
divisor where the remainder is negative. Every step gives nothing where it divides by zero or
leaves the words. No step does, as long as the divisor is not zero and the Euclidean quotient is
a word; and of all words, only the least one divided by minus one has no such quotient. -/
namespace ScriptBench.Word64

/-- The quotient cut off towards zero. -/
def div? (a b : Int) : Option Int := if b = 0 then none else signed? (a.tdiv b)

/-- Its remainder, which is refused with it. -/
def rem? (a b : Int) : Option Int := do
  let _ ← div? a b
  signed? (a.tmod b)

def quotient? (a b : Int) : Option Int := do
  let q ← div? a b
  let r ← rem? a b
  if r < 0 then signed? (if 0 < b then q - 1 else q + 1) else some q

def remainder? (a b : Int) : Option Int := do
  let r ← rem? a b
  if r < 0 then signed? (if b < 0 then r - b else r + b) else some r

variable {a b : Int}

theorem signed?_of_inWord64 {n : Int} (h : Number.inWord64 n = true) : signed? n = some n := if_pos h

/-- Only the least word has a quotient that is no word. -/
theorem inWord64_ediv_iff (ha : Number.inWord64 a = true) (hb : b ≠ 0) :
    Number.inWord64 (a / b) = true ↔ ¬(a = -2 ^ 63 ∧ b = -1) := by
  rw [Number.inWord64_iff] at ha ⊢
  constructor
  · rintro hquotient ⟨rfl, rfl⟩
    omega
  · intro hother
    have habs := Int.natAbs_ediv_le_natAbs a b
    have htop : a / b ≠ 2 ^ 63 := by
      intro heq
      have hdivision := Int.mul_ediv_add_emod a b
      have hnonneg := Int.emod_nonneg a hb
      have hlt := Int.emod_lt a hb
      rw [heq] at hdivision
      omega
    omega

/-- Cut off towards zero, the quotient is a word where the Euclidean one is. -/
theorem inWord64_tdiv (ha : Number.inWord64 a = true) (hquotient : Number.inWord64 (a / b) = true) :
    Number.inWord64 (a.tdiv b) = true := by
  have habs := Int.natAbs_tdiv_le_natAbs a b
  have htruncated := Int.tdiv_eq_ediv (a := a) (b := b)
  rw [Number.inWord64_iff] at ha hquotient ⊢
  split at htruncated
  case isTrue => omega
  case isFalse hinexact =>
    rcases Int.lt_trichotomy b 0 with hneg | rfl | hpos
    · rw [Int.sign_eq_neg_one_of_neg hneg] at htruncated
      omega
    · rw [Int.sign_zero] at htruncated
      omega
    · rw [Int.sign_eq_one_of_pos hpos] at htruncated
      have hle : a / b ≤ 0 := Int.ediv_nonpos_of_nonpos_of_neg (by omega) hpos
      omega

/-- The Euclidean quotient and remainder are computed without leaving the words. -/
theorem quotient?_remainder?_eq (ha : Number.inWord64 a = true) (hb : Number.inWord64 b = true)
    (hzero : b ≠ 0) (hquotient : Number.inWord64 (a / b) = true) :
    quotient? a b = some (a / b) ∧ remainder? a b = some (a % b) := by
  have hdiv : div? a b = some (a.tdiv b) := by
    rw [div?, if_neg hzero, signed?_of_inWord64 (inWord64_tdiv ha hquotient)]
  have hnonneg := Int.emod_nonneg a hzero
  have hlt := Int.emod_lt a hzero
  have hbound := Number.inWord64_iff.mp hb
  have hremainder : Number.inWord64 (a % b) = true := Number.inWord64_iff.mpr (by omega)
  have hmod := Int.tmod_eq_emod (a := a) (b := b)
  have hrem : rem? a b = some (a.tmod b) := by
    simp only [rem?, hdiv, Option.bind_eq_bind, Option.bind_some]
    refine signed?_of_inWord64 (Number.inWord64_iff.mpr ?_)
    split at hmod <;> omega
  have htruncated := Int.tdiv_eq_ediv (a := a) (b := b)
  simp only [quotient?, remainder?, hdiv, hrem, Option.bind_eq_bind, Option.bind_some]
  -- Cutting off is dividing, unless the dividend is negative and there is a remainder.
  by_cases hexact : 0 ≤ a ∨ b ∣ a
  · rw [if_pos hexact] at hmod htruncated
    have hr : ¬a.tmod b < 0 := by omega
    rw [if_neg hr, if_neg hr]
    exact ⟨congrArg some (by omega), congrArg some (by omega)⟩
  · rw [if_neg hexact] at hmod htruncated
    have hr : a.tmod b < 0 := by omega
    rw [if_pos hr, if_pos hr]
    rcases Int.lt_or_gt_of_ne hzero with hneg | hpos
    · rw [Int.sign_eq_neg_one_of_neg hneg] at htruncated
      have hq : a.tdiv b + 1 = a / b := by omega
      have hadjusted : a.tmod b - b = a % b := by omega
      rw [if_neg (by omega), if_pos hneg, hq, hadjusted]
      exact ⟨signed?_of_inWord64 hquotient, signed?_of_inWord64 hremainder⟩
    · rw [Int.sign_eq_one_of_pos hpos] at htruncated
      have hq : a.tdiv b - 1 = a / b := by omega
      have hadjusted : a.tmod b + b = a % b := by omega
      rw [if_pos hpos, if_neg (by omega), hq, hadjusted]
      exact ⟨signed?_of_inWord64 hquotient, signed?_of_inWord64 hremainder⟩

end ScriptBench.Word64
