import ScriptBench.Screen

/-! Boxes: a border, the lines on it, and the lines inside it.

A title and a note share the upper border, the title from the left and over the
note, which ends at the right. A footer ends at the right of the lower border;
when it is too long its end is shown. The width that each of them takes is a word. -/
namespace ScriptBench

structure Box where
  area : Rect
  border : Style
  /-- The style of the whole area, under all that is drawn in it. -/
  ground : Style := .plain
  title : Line := []
  note : Line := []
  footer : Line := []

namespace Box

/-- The character of the border at a place; in a box too small for four corners
the upper left ones win. -/
def borderChar? (area : Rect) (p : Position) : Option Char :=
  let left := p.x == area.x
  let right := p.x + 1 == area.right
  let top := p.y == area.y
  let bottom := p.y + 1 == area.bottom
  if left && top then some '┌'
  else if left && bottom then some '└'
  else if right && top then some '┐'
  else if right && bottom then some '┘'
  else if top || bottom then some '─'
  else if left || right then some '│'
  else none

/-- The border of an area. -/
def borderLayer (area : Rect) (s : Style) : Layer := fun p c =>
  if area.contains p then
    match borderChar? area p with
    | some char => Cell.atop ⟨char, s⟩ c
    | none => c
  else c

/-- The upper border between its corners. -/
def upper (area : Rect) : Rect := ⟨area.x + 1, area.y, area.width - 2, min area.height 1⟩

/-- The lower border between its corners. -/
def lower (area : Rect) : Rect := ⟨area.x + 1, area.bottom - 1, area.width - 2, min area.height 1⟩

/-- The width that a line on the border takes. -/
def titleWidth (l : Line) : Nat := word l.length

/-- A line on the border from its left end on. -/
def titleLayer (border : Rect) (l : Line) : Layer :=
  Layer.lines { border with width := min (titleWidth l) border.width } [l]

/-- A line up to the right end of the border, cut at its own right end. -/
def noteLayer (border : Rect) (l : Line) : Layer := Layer.lineAtRight border (titleWidth l) l

/-- The last cells of a line up to the right end of the border. -/
def footerLayer (border : Rect) (l : Line) : Layer :=
  Layer.lineAtRight border (titleWidth l) (l.drop (l.length - min (titleWidth l) border.width))

/-- A box around lines, each cut where the box ends. -/
def layers (b : Box) (content : List Line) : List Layer :=
  [ Layer.tint b.area b.ground,
    borderLayer b.area b.border,
    noteLayer (upper b.area) b.note,
    titleLayer (upper b.area) b.title,
    footerLayer (lower b.area) b.footer,
    Layer.lines b.area.inner content ]

end Box

/-- A title with a space on both sides. -/
def Line.title (t : String) : Line := Style.plain.write s!" {t} "

end ScriptBench
