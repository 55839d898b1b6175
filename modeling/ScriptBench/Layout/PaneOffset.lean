import ScriptBench.Layout.Rect

/-! How far the two dividers are moved from the middle, in percentage points. -/
namespace ScriptBench

/-- The column divider is moved by `x` and the row divider by `y`. -/
structure PaneOffset where
  x : Int
  y : Int
deriving DecidableEq, Repr

namespace PaneOffset

/-- The largest distance from the middle. -/
def limit : Int := 40

def clamp (n : Int) : Int := max (-limit) (min limit n)

/-- An offset cut to the limit. -/
def new (x y : Int) : PaneOffset := ⟨clamp x, clamp y⟩

def centre : PaneOffset := ⟨0, 0⟩

def shift (o : PaneOffset) (dx dy : Int) : PaneOffset := new (o.x + dx) (o.y + dy)

/-- How many percent of a length lie before a position; none of an empty one. -/
def percentWithin? (position start length : Nat) : Option Nat :=
  if length = 0 then none else some (min (position - start) length * 100 / length)

/-- Puts the column divider at a column of an area. -/
def dragColumn (o : PaneOffset) (column : Nat) (area : Rect) : PaneOffset :=
  match percentWithin? column area.x area.width with
  | some p => new (p - 50) o.y
  | none => o

/-- Puts the row divider at a row of an area. -/
def dragRow (o : PaneOffset) (row : Nat) (area : Rect) : PaneOffset :=
  match percentWithin? row area.y area.height with
  | some p => new o.x (p - 50)
  | none => o

/-- The share of the first part of a split, in percent. -/
def firstShare (offset : Int) : Nat := (50 + offset).natAbs

/-- The shares of the columns, in percent. -/
def columns (o : PaneOffset) : Nat × Nat := (firstShare o.x, 100 - firstShare o.x)

/-- The shares of the rows, in percent. -/
def rows (o : PaneOffset) : Nat × Nat := (firstShare o.y, 100 - firstShare o.y)

end PaneOffset

end ScriptBench
