import ScriptBench.Proofs.Layout.Offset

/-! The panes tile the screen.

A split cuts a rectangle in two at a border inside of it, and every cell is on one side of the
border. The panes come from three splits, one between the rows and one between the columns of each
half, and a cell is counted once through all of them. No share is more than the whole, because the
offset is within its limits. -/
namespace ScriptBench

namespace Rect

/-- The rectangles lie inside of an area, and every cell of it is in exactly one of them. -/
structure Tile (rs : List Rect) (area : Rect) : Prop where
  within : ∀ r ∈ rs, r.Within area
  once : ∀ p, area.contains p = true → rs.countP (·.contains p) = 1

/-- Two rectangles lie inside of a third one and share out its cells. -/
structure Halves (a b r : Rect) : Prop where
  first : a.Within r
  second : b.Within r
  cells : ∀ p, (a.contains p).toNat + (b.contains p).toNat = (r.contains p).toNat

variable {a b r : Rect} {percent : Nat}

/-- Rectangles on the two sides of a border. -/
theorem Halves.of_border (before : Position → Prop) (hfirst : a.Within r) (hsecond : b.Within r)
    (ha : ∀ p, before p → (a.contains p = true ↔ r.contains p = true) ∧ ¬ b.contains p = true)
    (hb : ∀ p, ¬ before p → (b.contains p = true ↔ r.contains p = true) ∧ ¬ a.contains p = true) :
    Halves a b r := by
  refine ⟨hfirst, hsecond, fun p => ?_⟩
  by_cases hbefore : before p
  · obtain ⟨hsame, hother⟩ := ha p hbefore
    rw [Bool.eq_iff_iff.mpr hsame, Bool.eq_false_iff.mpr hother, Bool.toNat_false, Nat.add_zero]
  · obtain ⟨hsame, hother⟩ := hb p hbefore
    rw [Bool.eq_iff_iff.mpr hsame, Bool.eq_false_iff.mpr hother, Bool.toNat_false, Nat.zero_add]

theorem share_le (length : Nat) (h : percent ≤ 100) : share length percent ≤ length := by
  have hmul : length * percent ≤ length * 100 := Nat.mul_le_mul_left length h
  unfold share
  omega

/-- A rectangle cut at a column. -/
theorem halves_column (hr : r.Fits) {w : Nat} (hw : w ≤ r.width) :
    Halves { r with width := w } { r with x := r.x + w, width := r.width - w } r := by
  have hfirst : Within { r with width := w } r := by constructor <;> dsimp only <;> omega
  have hsecond : Within { r with x := r.x + w, width := r.width - w } r := by
    constructor <;> dsimp only <;> omega
  refine .of_border (fun p => p.x < r.x + w) hfirst hsecond (fun p hp => ?_) (fun p hp => ?_)
  all_goals
    rw [(hfirst.fits hr).contains_iff, (hsecond.fits hr).contains_iff, hr.contains_iff]
    dsimp only
    omega

/-- A rectangle cut at a row. -/
theorem halves_row (hr : r.Fits) {k : Nat} (hk : k ≤ r.height) :
    Halves { r with height := k } { r with y := r.y + k, height := r.height - k } r := by
  have hfirst : Within { r with height := k } r := by constructor <;> dsimp only <;> omega
  have hsecond : Within { r with y := r.y + k, height := r.height - k } r := by
    constructor <;> dsimp only <;> omega
  refine .of_border (fun p => p.y < r.y + k) hfirst hsecond (fun p hp => ?_) (fun p hp => ?_)
  all_goals
    rw [(hfirst.fits hr).contains_iff, (hsecond.fits hr).contains_iff, hr.contains_iff]
    dsimp only
    omega

theorem halves_splitColumns (hr : r.Fits) (h : percent ≤ 100) :
    Halves (r.splitColumns percent).1 (r.splitColumns percent).2 r := by
  have hwidth : r.right - r.x = r.width := by rw [hr.right_eq, Nat.add_sub_cancel_left]
  have hhalves := halves_column hr (share_le r.width h)
  rw [← hwidth] at hhalves
  exact hhalves

theorem halves_splitRows (hr : r.Fits) (h : percent ≤ 100) :
    Halves (r.splitRows percent).1 (r.splitRows percent).2 r := by
  have hheight : r.bottom - r.y = r.height := by rw [hr.bottom_eq, Nat.add_sub_cancel_left]
  have hhalves := halves_row hr (share_le r.height h)
  rw [← hheight] at hhalves
  exact hhalves

end Rect

namespace Quadrants

def panes (q : Quadrants) : List Rect :=
  [q.stackEditor, q.stackOutput, q.witnessEditor, q.witnessOutput]

theorem countP_panes (q : Quadrants) (p : Position) :
    q.panes.countP (·.contains p) =
      (q.stackEditor.contains p).toNat + (q.stackOutput.contains p).toNat +
        ((q.witnessEditor.contains p).toNat + (q.witnessOutput.contains p).toNat) := by
  have hcount (c : Bool) : c.toNat = if c = true then 1 else 0 := by cases c <;> rfl
  simp only [panes, List.countP_cons, List.countP_nil, hcount]
  omega

variable {area : Rect} {o : PaneOffset}

/-- The panes of an area that fits, whatever the offset within its limits. -/
theorem tile_split (harea : area.Fits) (ho : o.Limited) :
    Rect.Tile (split area o).panes area := by
  have hcolumns : o.columns.1 ≤ 100 := PaneOffset.firstShare_le ho.1
  have hrows : o.rows.1 ≤ 100 := PaneOffset.firstShare_le ho.2
  have hhalves := Rect.halves_splitRows harea hrows
  have htop := Rect.halves_splitColumns (hhalves.first.fits harea) hcolumns
  have hbottom := Rect.halves_splitColumns (hhalves.second.fits harea) hcolumns
  constructor
  · intro r hr
    simp only [panes, List.mem_cons, List.not_mem_nil, or_false] at hr
    obtain rfl | rfl | rfl | rfl := hr
    · exact htop.first.trans hhalves.first
    · exact htop.second.trans hhalves.first
    · exact hbottom.first.trans hhalves.second
    · exact hbottom.second.trans hhalves.second
  · intro p hp
    have hcells := hhalves.cells p
    rw [hp, ← htop.cells p, ← hbottom.cells p] at hcells
    exact (countP_panes _ p).trans hcells

end Quadrants

namespace PaneOffset

/-- **The panes tile the screen:** whatever is done to an offset, it stays within its limits and no
computation leaves its word, nor do the shares of the parts; and in every area that fits, each cell
is in exactly one of the panes, which do not reach outside. -/
theorem run_tiles {changes : List Change} (hwords : ∀ c ∈ changes, c.InWords) :
    let o := centre.run changes
    centre.run? changes = some o ∧
      (-limit ≤ o.x ∧ o.x ≤ limit) ∧ (-limit ≤ o.y ∧ o.y ≤ limit) ∧
      shares? o.x = some o.columns ∧ shares? o.y = some o.rows ∧
      ∀ area : Rect, area.Fits → Rect.Tile (Quadrants.split area o).panes area := by
  obtain ⟨hrun, hlimited⟩ := limited_centre.run hwords
  exact ⟨hrun, clamp_eq_iff.mp hlimited.1, clamp_eq_iff.mp hlimited.2, shares?_eq hlimited.1,
    shares?_eq hlimited.2, fun area harea => Quadrants.tile_split harea hlimited⟩

/-- Shifts as far as words go and two drags, the second one in an area without rows. -/
def draggedChanges : List Change :=
  [.shift 0x7FFF (-0x8000), .dragColumn 70 ⟨0, 0, 100, 40⟩, .dragRow 10 ⟨0, 0, 100, 0⟩]

/-- In the smallest area, three of the panes are left without a cell. -/
theorem run_tiles_dragged :
    (∀ c ∈ draggedChanges, c.InWords) ∧
    centre.run? draggedChanges = some ⟨20, -40⟩ ∧
    shares? 20 = some (70, 30) ∧ shares? (-40) = some (10, 90) ∧
    Rect.Tile [⟨0, 0, 1, 0⟩, ⟨1, 0, 0, 0⟩, ⟨0, 0, 1, 1⟩, ⟨1, 0, 0, 1⟩] ⟨0, 0, 1, 1⟩ := by
  have hwords : ∀ c ∈ draggedChanges, c.InWords := by decide
  obtain ⟨hrun, -, -, hcolumns, hrows, htile⟩ := run_tiles hwords
  exact ⟨hwords, hrun, hcolumns, hrows, htile ⟨0, 0, 1, 1⟩ ⟨by decide, by decide⟩⟩

end PaneOffset

end ScriptBench
