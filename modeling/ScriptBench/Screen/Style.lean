/-! How a cell looks: its colours and the emphasis on its character.

A style says only what it changes. Laid over another one, its colours win where
it has them and its emphasis is added; `Style.atop_assoc` makes it irrelevant
in which order layers are put together, as long as they stay in their order. -/
namespace ScriptBench

inductive Color where
  | black
  | white
  | rgb (red green blue : Nat)
deriving DecidableEq, Repr

structure Style where
  /-- The colour of the character, the terminal's own when there is none. -/
  ink : Option Color := none
  /-- The colour behind the character, the terminal's own when there is none. -/
  paper : Option Color := none
  bold : Bool := false
  italic : Bool := false
  underlined : Bool := false
  crossedOut : Bool := false
deriving DecidableEq, Repr

namespace Style

/-- The style that changes nothing. -/
def plain : Style := {}

def inked (c : Color) : Style := { ink := some c }

def papered (c : Color) : Style := { paper := some c }

/-- One color on another. -/
def inkOn (ink paper : Color) : Style := { ink := some ink, paper := some paper }

/-- A style in bold. -/
def strong (s : Style) : Style := { s with bold := true }

/-- A style laid over another one. -/
def atop (s base : Style) : Style where
  ink := s.ink.or base.ink
  paper := s.paper.or base.paper
  bold := s.bold || base.bold
  italic := s.italic || base.italic
  underlined := s.underlined || base.underlined
  crossedOut := s.crossedOut || base.crossedOut

@[simp] theorem atop_plain (s : Style) : s.atop plain = s := by
  simp [atop, plain]

@[simp] theorem plain_atop (s : Style) : plain.atop s = s := by
  simp [atop, plain]

theorem atop_assoc (a b c : Style) : (a.atop b).atop c = a.atop (b.atop c) := by
  simp [atop, Option.or_assoc, Bool.or_assoc]

end Style

end ScriptBench
