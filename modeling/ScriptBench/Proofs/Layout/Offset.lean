import ScriptBench.Layout.Quadrants
import ScriptBench.Proofs.Layout.Area

/-! Offsets of the dividers, whatever is done to them.

An offset stays within its limits, because everything that is done to one ends in `new`. So a
computation on it stays in the words of its own size: the checked operations, which have no result
where a number leaves its word, all have the result of the operation itself. A shift adds to an
offset with a sum that stops at the least and the largest word; the limits are far from both. -/
namespace ScriptBench.PaneOffset

/-- An offset within the limits, as all that the session keeps are. -/
def Limited (o : PaneOffset) : Prop := clamp o.x = o.x ∧ clamp o.y = o.y

theorem clamp_clamp (n : Int) : clamp (clamp n) = clamp n := by
  unfold clamp limit
  omega

theorem limited_new (x y : Int) : (new x y).Limited := ⟨clamp_clamp x, clamp_clamp y⟩

theorem limited_centre : centre.Limited := ⟨rfl, rfl⟩

theorem clamp_eq_iff {n : Int} : clamp n = n ↔ -limit ≤ n ∧ n ≤ limit := by
  unfold clamp limit
  omega

/-- Whether two offsets are the same but for the place of one divider. -/
def SameBut (d : Divider) (o o' : PaneOffset) : Prop :=
  match d with
  | .column => o'.y = o.y
  | .row => o'.x = o.x

theorem Limited.dragColumn {o : PaneOffset} (h : o.Limited) (column : Nat) (area : Rect) :
    SameBut .column o (o.dragColumn column area) ∧ (o.dragColumn column area).Limited := by
  unfold PaneOffset.dragColumn
  split
  · exact ⟨h.2, limited_new _ _⟩
  · exact ⟨rfl, h⟩

theorem Limited.dragRow {o : PaneOffset} (h : o.Limited) (row : Nat) (area : Rect) :
    SameBut .row o (o.dragRow row area) ∧ (o.dragRow row area).Limited := by
  unfold PaneOffset.dragRow
  split
  · exact ⟨h.1, limited_new _ _⟩
  · exact ⟨rfl, h⟩

/-! ### Checked operations -/

/-- A number as a signed word, if it is one. -/
def signed? (n : Int) : Option Int := if -0x8000 ≤ n ∧ n ≤ 0x7FFF then some n else none

/-- A number as a signed word of twice the length, if it is one. -/
def long? (n : Nat) : Option Nat := if n ≤ 0x7FFFFFFF then some n else none

/-- A sum that stops at the least and the largest signed word. -/
def saturate (n : Int) : Int := max (-0x8000) (min 0x7FFF n)

/-- How many percent of a length lie before a position. The percentage of an empty length is none,
which is a result. -/
def checkedPercent? (position start length : Nat) : Option (Option Int) :=
  if length = 0 then some none
  else do
    let hundredfold ← long? (min (position - start) length * 100)
    some (signed? (hundredfold / length : Nat))

/-- The shares of both parts of a split. -/
def shares? (offset : Int) : Option (Nat × Nat) := do
  let first ← signed? (50 + offset)
  let rest ← wordSub? 100 first.natAbs
  some (first.natAbs, rest)

/-- What is done to an offset. -/
inductive Change where
  | set (x y : Int)
  | shift (dx dy : Int)
  | dragColumn (column : Nat) (area : Rect)
  | dragRow (row : Nat) (area : Rect)
deriving DecidableEq, Repr

/-- The lengths that a place is a percentage of are words. -/
def Change.InWords : Change → Prop
  | .set _ _ => True
  | .shift _ _ => True
  | .dragColumn _ area => area.width ≤ maxWord
  | .dragRow _ area => area.height ≤ maxWord

instance : DecidablePred Change.InWords
  | .set _ _ | .shift _ _ => inferInstanceAs (Decidable True)
  | .dragColumn _ area => inferInstanceAs (Decidable (area.width ≤ maxWord))
  | .dragRow _ area => inferInstanceAs (Decidable (area.height ≤ maxWord))

def change (o : PaneOffset) : Change → PaneOffset
  | .set x y => new x y
  | .shift dx dy => o.shift dx dy
  | .dragColumn column area => o.dragColumn column area
  | .dragRow row area => o.dragRow row area

def change? (o : PaneOffset) : Change → Option PaneOffset
  | .set x y => some (new x y)
  | .shift dx dy => some (new (saturate (o.x + dx)) (saturate (o.y + dy)))
  | .dragColumn column area => do
    match ← checkedPercent? column area.x area.width with
    | some p => do
      let x ← signed? (p - 50)
      some (new x o.y)
    | none => some o
  | .dragRow row area => do
    match ← checkedPercent? row area.y area.height with
    | some p => do
      let y ← signed? (p - 50)
      some (new o.x y)
    | none => some o

def run (o : PaneOffset) (changes : List Change) : PaneOffset := changes.foldl change o

def run? (o : PaneOffset) (changes : List Change) : Option PaneOffset := changes.foldlM change? o

variable {o : PaneOffset}

theorem Limited.change (h : o.Limited) (c : Change) : (o.change c).Limited := by
  cases c with
  | set x y => exact limited_new x y
  | shift dx dy => exact limited_new _ _
  | dragColumn column area => exact (h.dragColumn column area).2
  | dragRow row area => exact (h.dragRow row area).2

theorem clamp_saturate (n : Int) : clamp (saturate n) = clamp n := by
  unfold clamp saturate limit
  omega

/-- A percentage is a signed word, and stays one when the middle is taken off. -/
theorem exists_checkedPercent? (position start : Nat) {length : Nat} (h : length ≤ maxWord) :
    (percentWithin? position start length = none ∧
        checkedPercent? position start length = some none) ∨
      ∃ p : Nat, percentWithin? position start length = some p ∧
        checkedPercent? position start length = some (some (p : Int)) ∧
          signed? ((p : Int) - 50) = some ((p : Int) - 50) := by
  by_cases hlength : length = 0
  · exact .inl ⟨if_pos hlength, if_pos hlength⟩
  · have hinside : min (position - start) length ≤ length := Nat.min_le_right ..
    have hlong : min (position - start) length * 100 ≤ 0x7FFFFFFF := by
      unfold maxWord at h
      omega
    have hpercent : min (position - start) length * 100 / length ≤ 100 :=
      Nat.div_le_of_le_mul (Nat.mul_le_mul_right 100 hinside)
    refine .inr ⟨_, if_neg hlength, ?_, ?_⟩
    · rw [checkedPercent?, if_neg hlength, long?, if_pos hlong, Option.bind_eq_bind,
        Option.bind_some]
      generalize min (position - start) length * 100 / length = p at hpercent
      exact congrArg some (if_pos (by omega))
    · generalize min (position - start) length * 100 / length = p at hpercent
      exact if_pos (by omega)

theorem change?_eq {c : Change} (h : c.InWords) : o.change? c = some (o.change c) := by
  cases c with
  | set x y => rfl
  | shift dx dy => simp only [change?, new, clamp_saturate, PaneOffset.change, PaneOffset.shift]
  | dragColumn column area =>
    obtain ⟨hnone, hchecked⟩ | ⟨p, hsome, hchecked, hsigned⟩ :=
      exists_checkedPercent? column area.x (h : area.width ≤ maxWord)
    · simp [change?, PaneOffset.change, PaneOffset.dragColumn, hnone, hchecked]
    · simp [change?, PaneOffset.change, PaneOffset.dragColumn, hsome, hchecked, hsigned]
  | dragRow row area =>
    obtain ⟨hnone, hchecked⟩ | ⟨p, hsome, hchecked, hsigned⟩ :=
      exists_checkedPercent? row area.y (h : area.height ≤ maxWord)
    · simp [change?, PaneOffset.change, PaneOffset.dragRow, hnone, hchecked]
    · simp [change?, PaneOffset.change, PaneOffset.dragRow, hsome, hchecked, hsigned]

/-- The share of the first part is never more than the whole. -/
theorem firstShare_le {offset : Int} (h : clamp offset = offset) : firstShare offset ≤ 100 := by
  rw [clamp_eq_iff, limit] at h
  unfold firstShare
  omega

theorem shares?_eq {offset : Int} (h : clamp offset = offset) :
    shares? offset = some (firstShare offset, 100 - firstShare offset) := by
  have hle := firstShare_le h
  rw [clamp_eq_iff, limit] at h
  have hsigned : signed? (50 + offset) = some (50 + offset) := if_pos (by omega)
  simp only [shares?, hsigned, Option.bind_eq_bind, Option.bind_some]
  rw [← firstShare, wordSub?_of_le hle]
  rfl

/-- Whatever is done to an offset, it stays within the limits, and no computation leaves its
word. -/
theorem Limited.run {changes : List Change} (h : o.Limited) (hwords : ∀ c ∈ changes, c.InWords) :
    o.run? changes = some (o.run changes) ∧ (o.run changes).Limited := by
  induction changes generalizing o with
  | nil => exact ⟨rfl, h⟩
  | cons c rest ih =>
    rw [List.forall_mem_cons] at hwords
    have hrest := ih (h.change c) hwords.2
    refine ⟨?_, hrest.2⟩
    rw [run?, List.foldlM_cons, change?_eq hwords.1]
    exact hrest.1

end ScriptBench.PaneOffset
