import ScriptBench.Binary64

/-! Rectangles of screen cells.

Coordinates are words of 16 bits. They are natural numbers here, and a sum, a
difference or a product that no word holds has no result. The ends of a
rectangle stop at the largest word, and what is cut to a word keeps its low
bits. -/
namespace ScriptBench

/-- The largest word. -/
def maxWord : Nat := 0xFFFF

/-- A number cut to the low 16 bits. -/
def word (n : Nat) : Nat := n % 0x10000

/-- A number as a word, if it is one. -/
def word? (n : Nat) : Option Nat := if n ≤ maxWord then some n else none

/-- The difference of two words, if it is one. -/
def wordSub? (m n : Nat) : Option Nat := if n ≤ m then some (m - n) else none

structure Position where
  x : Nat
  y : Nat
deriving DecidableEq, Repr

structure Rect where
  x : Nat
  y : Nat
  width : Nat
  height : Nat
deriving DecidableEq, Repr

namespace Rect

/-- The column after the last one. -/
def right (r : Rect) : Nat := min (r.x + r.width) maxWord

/-- The row after the last one. -/
def bottom (r : Rect) : Nat := min (r.y + r.height) maxWord

def contains (r : Rect) (p : Position) : Bool :=
  r.x ≤ p.x && p.x < r.right && r.y ≤ p.y && p.y < r.bottom

/-- The width and the height of the largest rectangle of at most `maxWord` cells that
has the proportions of `width` and `height`, each cut to a whole number. They are
computed in doubles, so one that is a whole number already may lose a cell. -/
def largestLike (width height : Nat) : Nat × Nat :=
  let ratio := (Binary64.ofNat width).div (Binary64.ofNat height)
  let rows := ((Binary64.ofNat maxWord).div ratio).sqrt
  ((rows.mul ratio).floor, rows.floor)

/-- A rectangle of a size, which is reduced when its cells are more than a word counts. -/
def ofSize (x y width height : Nat) : Rect :=
  let size := if maxWord < width * height then largestLike width height else (width, height)
  ⟨x, y, size.1, size.2⟩

/-- Where a length is cut at a percentage, rounded to the nearest cell. -/
def share (length percent : Nat) : Nat := (length * percent + 50) / 100

/-- The left part of a rectangle and the rest, up to its right end. -/
def splitColumns (r : Rect) (percent : Nat) : Rect × Rect :=
  let length := r.right - r.x
  let w := share length percent
  ({ r with width := w }, { r with x := r.x + w, width := length - w })

/-- The upper part of a rectangle and the rest, up to its bottom. -/
def splitRows (r : Rect) (percent : Nat) : Rect × Rect :=
  let length := r.bottom - r.y
  let h := share length percent
  ({ r with height := h }, { r with y := r.y + h, height := length - h })

/-- A rectangle of so many percent of the width and the height, in the middle of `r`. -/
def centered? (percentX percentY : Nat) (r : Rect) : Option Rect := do
  let width := (← word? (r.width * percentX)) / 100
  let height := (← word? (r.height * percentY)) / 100
  let x ← word? (r.x + (← wordSub? r.width width) / 2)
  let y ← word? (r.y + (← wordSub? r.height height) / 2)
  some (ofSize x y width height)

/-- A box below a place, or above it when there is no room below, inside `bounds`. -/
def anchored? (anchor : Position) (width height : Nat) (bounds : Rect) : Option Rect := do
  let width := min width bounds.width
  let height := min height bounds.height
  let x := max (min anchor.x (bounds.right - width)) bounds.x
  let below := min (anchor.y + 1) maxWord
  let bottom ← word? (below + height)
  let y := if bottom ≤ bounds.bottom then below else max (anchor.y - height) bounds.y
  some (ofSize x y width height)

/-- What is inside the border of a box. -/
def inner (r : Rect) : Rect := ⟨r.x + 1, r.y + 1, r.width - 2, r.height - 2⟩

end Rect

end ScriptBench
