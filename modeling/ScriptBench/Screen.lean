import ScriptBench.Layout.Rect
import ScriptBench.Screen.Style
import ScriptBench.Text

/-! Screens as grids of cells, and the layers that are painted on them.

A layer says what becomes of each cell from the cell alone and its place, so a
screen is the same at a place as the layers are there: `Screen.at?_paint`. -/
namespace ScriptBench

/-- A character and its style. -/
structure Cell where
  char : Char
  style : Style
deriving DecidableEq, Repr

/-- A line of text with its styles. -/
abbrev Line := List Cell

/-- A text in one style. -/
def Style.line (s : Style) (t : Text) : Line := t.map (⟨·, s⟩)

/-- A string in one style. -/
def Style.write (s : Style) (t : String) : Line := s.line t.toList

namespace Cell

/-- An empty cell. -/
def blank : Cell := ⟨' ', .plain⟩

/-- A cell painted over what was there. -/
def atop (c base : Cell) : Cell := ⟨c.char, c.style.atop base.style⟩

/-- A cell whose own style goes over another one. -/
def onto (c : Cell) (base : Style) : Cell := { c with style := c.style.atop base }

/-- A cell with a style laid over its own. -/
def under (c : Cell) (s : Style) : Cell := { c with style := s.atop c.style }

end Cell

abbrev Layer := Position → Cell → Cell

namespace Layer

/-- Lays a style over an area. -/
def tint (area : Rect) (s : Style) : Layer := fun p c => if area.contains p then c.under s else c

/-- Empties an area. -/
def clear (area : Rect) : Layer := fun p c => if area.contains p then .blank else c

/-- Writes lines from the top of an area on, each cut at its right. -/
def lines (area : Rect) (ls : List Line) : Layer := fun p c =>
  if area.contains p then
    match ls[p.y - area.y]?.bind (·[p.x - area.x]?) with
    | some glyph => glyph.atop c
    | none => c
  else c

/-- Writes a line from the start of the last `width` columns of an area on, or of all
of them when they are fewer. -/
def lineAtRight (area : Rect) (width : Nat) (l : Line) : Layer :=
  lines { area with
    x := area.x + (area.width - width)
    width := min width area.width } [l]

end Layer

/-- Rows from the top, and in each its cells from the left. -/
structure Screen where
  rows : List (List Cell)
deriving DecidableEq, Repr

namespace Screen

def blank (width height : Nat) : Screen := ⟨.replicate height (.replicate width .blank)⟩

def at? (s : Screen) (p : Position) : Option Cell := s.rows[p.y]?.bind (·[p.x]?)

/-- Paints one layer. -/
def paint (s : Screen) (l : Layer) : Screen :=
  ⟨s.rows.mapIdx fun y row => row.mapIdx fun x c => l ⟨x, y⟩ c⟩

@[simp] theorem at?_paint (s : Screen) (l : Layer) (p : Position) :
    (s.paint l).at? p = (s.at? p).map (l p) := by
  simp only [at?, paint, List.getElem?_mapIdx, Option.bind_map]
  cases s.rows[p.y]? <;> simp

/-- Paints layers, each over the ones before it. -/
def draw (s : Screen) (layers : List Layer) : Screen := layers.foldl paint s

theorem at?_draw (s : Screen) (layers : List Layer) (p : Position) :
    (s.draw layers).at? p = (s.at? p).map fun c => layers.foldl (fun c l => l p c) c := by
  induction layers generalizing s with
  | nil => simp [draw]
  | cons l layers ih =>
    rw [show s.draw (l :: layers) = (s.paint l).draw layers from rfl, ih, at?_paint,
      Option.map_map]
    rfl

/-- A row without the spaces at its end. -/
def rowText (row : List Cell) : Text :=
  ((row.map (·.char)).reverse.dropWhile (· == ' ')).reverse

def texts (s : Screen) : List Text := s.rows.map (rowText ·)

/-- Cells in one style: the column they begin in, how many there are, and the style. -/
structure Stretch where
  start : Nat
  length : Nat
  style : Style
deriving DecidableEq, Repr

/-- The longest stretches of one style, the first one beginning in column `start`. -/
def stretches (start : Nat) : List Cell → List Stretch
  | [] => []
  | c :: rest =>
    match stretches (start + 1) rest with
    | [] => [⟨start, 1, c.style⟩]
    | s :: more =>
      if s.style = c.style then ⟨start, s.length + 1, c.style⟩ :: more
      else ⟨start, 1, c.style⟩ :: s :: more

end Screen

end ScriptBench
