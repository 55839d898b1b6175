import ScriptBench.Layout.Quadrants
import ScriptBench.Proofs.Layout.Area

/-! Where a divider stands after a drag.

A divider is kept as a percentage of the length that it divides. A drag cuts the place of the
mouse down to a whole percentage, and a split puts the border at the cell nearest to that. So the
border never stands beyond the mouse, and it stands at the mouse just when what is cut off comes to
half a cell at most. That is always so in lengths of 51 cells at most; in longer ones the border may
be left behind, by less than one percent of the length and half a cell.

A press looks for a divider beside the mouse. It has no answer where the mouse is in the last column
or row that a word counts, because the place behind it is no word. -/
namespace ScriptBench

namespace Rect

/-- A border that has been dragged in a length from `start` on: it is not beyond the mouse, less
than one percent and half a cell behind it, and at the mouse just when what the percentage cuts off
comes to half a cell at most. -/
structure Follows (border mouse start length : Nat) : Prop where
  notBeyond : border ≤ mouse
  near : 100 * (mouse - border) < length + 50
  reaches : mouse ≤ border ↔ 100 * (mouse - start) % length ≤ 50

/-- The share of a percentage that is cut down. -/
theorem follows_share {mouse start length : Nat} (hstart : start ≤ mouse) (hlength : 0 < length) :
    Follows (start + share length (100 * (mouse - start) / length)) mouse start length := by
  obtain ⟨place, rfl⟩ := Nat.exists_eq_add_of_le hstart
  rw [Nat.add_sub_cancel_left]
  have hsplit := Nat.div_add_mod (100 * place) length
  have hlt := Nat.mod_lt (100 * place) hlength
  unfold share
  generalize length * (100 * place / length) = whole at hsplit ⊢
  constructor
  · omega
  · omega
  · rw [Nat.add_sub_cancel_left]
    omega

end Rect

namespace PaneOffset
variable {position start length : Nat}

/-- The percentage of a place inside. -/
theorem percentWithin?_of_mem (hstart : start ≤ position) (hend : position < start + length) :
    percentWithin? position start length = some (100 * (position - start) / length) := by
  have hinside : position - start < length := by omega
  unfold percentWithin?
  rw [if_neg (Nat.ne_zero_of_lt hinside), Nat.min_eq_left (Nat.le_of_lt hinside), Nat.mul_comm]

/-- A percentage within the limits is kept. -/
theorem firstShare_clamp {p : Nat} (hlow : 10 ≤ p) (hhigh : p ≤ 90) :
    firstShare (clamp (p - 50)) = p := by
  unfold firstShare clamp limit
  omega

end PaneOffset

namespace Quadrants
variable {area : Rect} {o : PaneOffset}

theorem stackOutput_x_split (area : Rect) (o : PaneOffset) :
    (split area o).stackOutput.x = area.x + Rect.share (area.right - area.x) o.columns.1 := rfl

theorem witnessEditor_y_split (area : Rect) (o : PaneOffset) :
    (split area o).witnessEditor.y = area.y + Rect.share (area.bottom - area.y) o.rows.1 := rfl

/-- The border between the columns after a drag. -/
theorem stackOutput_x_dragColumn (hright : area.x + area.width ≤ maxWord) {column : Nat}
    (hstart : area.x ≤ column) (hend : column < area.x + area.width)
    (hlow : 10 ≤ 100 * (column - area.x) / area.width)
    (hhigh : 100 * (column - area.x) / area.width ≤ 90) :
    (split area (o.dragColumn column area)).stackOutput.x =
      area.x + Rect.share area.width (100 * (column - area.x) / area.width) := by
  have hwidth : area.right - area.x = area.width := by
    rw [Rect.right, Nat.min_eq_left hright, Nat.add_sub_cancel_left]
  rw [stackOutput_x_split, hwidth, PaneOffset.dragColumn,
    PaneOffset.percentWithin?_of_mem hstart hend]
  show area.x + Rect.share area.width (PaneOffset.firstShare (PaneOffset.clamp _)) = _
  rw [PaneOffset.firstShare_clamp hlow hhigh]

/-- The border between the rows after a drag. -/
theorem witnessEditor_y_dragRow (hbottom : area.y + area.height ≤ maxWord) {row : Nat}
    (hstart : area.y ≤ row) (hend : row < area.y + area.height)
    (hlow : 10 ≤ 100 * (row - area.y) / area.height)
    (hhigh : 100 * (row - area.y) / area.height ≤ 90) :
    (split area (o.dragRow row area)).witnessEditor.y =
      area.y + Rect.share area.height (100 * (row - area.y) / area.height) := by
  have hheight : area.bottom - area.y = area.height := by
    rw [Rect.bottom, Nat.min_eq_left hbottom, Nat.add_sub_cancel_left]
  rw [witnessEditor_y_split, hheight, PaneOffset.dragRow,
    PaneOffset.percentWithin?_of_mem hstart hend]
  show area.y + Rect.share area.height (PaneOffset.firstShare (PaneOffset.clamp _)) = _
  rw [PaneOffset.firstShare_clamp hlow hhigh]

theorem touches?_of_lt {coordinate : Nat} (h : coordinate < maxWord) (border : Nat) :
    touches? coordinate border = some (border ≤ coordinate + 1 && coordinate ≤ border) := by
  rw [touches?, word?_of_le h]
  rfl

theorem touches?_of_le {coordinate : Nat} (h : maxWord ≤ coordinate) (border : Nat) :
    touches? coordinate border = none := by
  rw [touches?, word?_of_lt (Nat.lt_succ_of_le h)]
  rfl

theorem touches?_eq_true_iff {coordinate border : Nat} (h : coordinate < maxWord) :
    touches? coordinate border = some true ↔
      border ≤ coordinate + 1 ∧ coordinate ≤ border := by
  rw [touches?_of_lt h]
  simp

/-- The divider between the columns is looked for first. -/
theorem dividerAt?_eq_column_iff (q : Quadrants) (p : Position) :
    q.dividerAt? p = some (some .column) ↔ touches? p.x q.stackOutput.x = some true := by
  unfold dividerAt?
  cases touches? p.x q.stackOutput.x with
  | none => exact iff_of_false nofun nofun
  | some beside =>
    cases beside with
    | true => exact iff_of_true rfl rfl
    | false =>
      refine iff_of_false ?_ nofun
      cases touches? p.y q.witnessEditor.y with
      | none => nofun
      | some below => cases below <;> nofun

/-- A press looks for a border behind the last column or row that there can be. -/
def Overflows (q : Quadrants) (p : Position) : Prop :=
  maxWord ≤ p.x ∨ maxWord ≤ p.y ∧ (p.x + 1 < q.stackOutput.x ∨ q.stackOutput.x < p.x)

theorem dividerAt?_eq_none_iff (q : Quadrants) (p : Position) :
    q.dividerAt? p = none ↔ q.Overflows p := by
  unfold dividerAt?
  by_cases hx : p.x < maxWord
  · rw [touches?_of_lt hx]
    by_cases hbeside : q.stackOutput.x ≤ p.x + 1 ∧ p.x ≤ q.stackOutput.x
    · have hfound : (q.stackOutput.x ≤ p.x + 1 && p.x ≤ q.stackOutput.x) = true := by
        simpa using hbeside
      rw [hfound]
      refine iff_of_false nofun fun h => ?_
      unfold Overflows at h
      omega
    · have hmissed : (decide (q.stackOutput.x ≤ p.x + 1) && decide (p.x ≤ q.stackOutput.x)) =
          false := by simpa using hbeside
      rw [hmissed]
      by_cases hy : p.y < maxWord
      · rw [touches?_of_lt hy]
        refine iff_of_false ?_ fun h => ?_
        · generalize (q.witnessEditor.y ≤ p.y + 1 && p.y ≤ q.witnessEditor.y) = below
          cases below <;> nofun
        · unfold Overflows at h
          omega
      · rw [touches?_of_le (Nat.le_of_not_lt hy)]
        exact iff_of_true rfl (.inr ⟨Nat.le_of_not_lt hy, by omega⟩)
  · rw [touches?_of_le (Nat.le_of_not_lt hx)]
    exact iff_of_true rfl (.inl (Nat.le_of_not_lt hx))

/-- A border that follows the mouse is beside it just when it reaches it. -/
theorem beside_iff {border mouse start length : Nat} (h : Rect.Follows border mouse start length) :
    (border ≤ mouse + 1 ∧ mouse ≤ border) ↔ 100 * (mouse - start) % length ≤ 50 := by
  rw [and_iff_right (Nat.le_succ_of_le h.notBeyond)]
  exact h.reaches

/-- **A divider follows the mouse,** and is found under it just when what its percentage cuts off
comes to half a cell at most. -/
theorem drag_follows (area : Rect) (hright : area.x + area.width ≤ maxWord)
    (hbottom : area.y + area.height ≤ maxWord) (o : PaneOffset) :
    (∀ column, area.x ≤ column → column < area.x + area.width →
      10 ≤ 100 * (column - area.x) / area.width → 100 * (column - area.x) / area.width ≤ 90 →
      let q := split area (o.dragColumn column area)
      Rect.Follows q.stackOutput.x column area.x area.width ∧
        ∀ row, q.dividerAt? ⟨column, row⟩ = some (some .column) ↔
          100 * (column - area.x) % area.width ≤ 50) ∧
    ∀ row, area.y ≤ row → row < area.y + area.height →
      10 ≤ 100 * (row - area.y) / area.height → 100 * (row - area.y) / area.height ≤ 90 →
      let q := split area (o.dragRow row area)
      Rect.Follows q.witnessEditor.y row area.y area.height ∧
        ((q.witnessEditor.y ≤ row + 1 ∧ row ≤ q.witnessEditor.y) ↔
          100 * (row - area.y) % area.height ≤ 50) := by
  constructor
  · intro column hstart hend hlow hhigh q
    have hfollows : Rect.Follows q.stackOutput.x column area.x area.width :=
      stackOutput_x_dragColumn hright hstart hend hlow hhigh ▸
        Rect.follows_share hstart (by omega)
    have hlt : column < maxWord := Nat.lt_of_lt_of_le hend hright
    exact ⟨hfollows, fun row => (dividerAt?_eq_column_iff q ⟨column, row⟩).trans
      ((touches?_eq_true_iff hlt).trans (beside_iff hfollows))⟩
  · intro row hstart hend hlow hhigh q
    have hfollows : Rect.Follows q.witnessEditor.y row area.y area.height :=
      witnessEditor_y_dragRow hbottom hstart hend hlow hhigh ▸
        Rect.follows_share hstart (by omega)
    exact ⟨hfollows, beside_iff hfollows⟩

/-- On a screen of 80 columns the divider is dragged to the middle. -/
theorem drag_follows_middle :
    let area : Rect := ⟨0, 0, 80, 23⟩
    let q := split area (PaneOffset.centre.dragColumn 40 area)
    let q' := split area (PaneOffset.centre.dragRow 10 area)
    (area.x + area.width ≤ maxWord ∧ area.y + area.height ≤ maxWord) ∧
    (q.dividerAt? ⟨40, 5⟩ = some (some .column) ∧ q.stackOutput.x ≤ 40) ∧
    (q'.witnessEditor.y ≤ 11 ∧ 10 ≤ q'.witnessEditor.y) := by
  intro area q q'
  obtain ⟨hcolumns, hrows⟩ := drag_follows area (by decide) (by decide) .centre
  obtain ⟨hfollows, hunder⟩ := hcolumns 40 (by decide) (by decide) (by decide) (by decide)
  obtain ⟨-, hbeside⟩ := hrows 10 (by decide) (by decide) (by decide) (by decide)
  exact ⟨⟨by decide, by decide⟩, ⟨(hunder 5).mpr (by decide), hfollows.notBeyond⟩,
    hbeside.mpr (by decide)⟩

/-- On the same screen, a divider that is dragged to column 11 stands at column 10, and is not found
under the mouse. -/
theorem drag_leavesBehind :
    let area : Rect := ⟨0, 0, 80, 23⟩
    let q := split area (PaneOffset.centre.dragColumn 11 area)
    (10 ≤ 100 * (11 - area.x) / area.width ∧ 100 * (11 - area.x) / area.width ≤ 90) ∧
    q.stackOutput.x = 10 ∧ q.dividerAt? ⟨11, 5⟩ = some none := by
  decide

end Quadrants

end ScriptBench
