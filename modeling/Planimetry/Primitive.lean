import Planimetry.Coord

/-!
# Primitives

What is drawn and exported: named points and segments.
-/

namespace Planimetry

/-- A unit of a drawing. -/
inductive Primitive where
  | point (name : String) (coord : Coord)
  | segment (a b : Coord)
deriving DecidableEq

namespace Primitive

def text : Primitive → String
  | point name c => s!"Point({name},{c.x.toInt},{c.y.toInt})"
  | segment a b => s!"Segment({a.x.toInt},{a.y.toInt},{b.x.toInt},{b.y.toInt})"

instance : ToString Primitive := ⟨text⟩

def isPoint : Primitive → Bool
  | point .. => true
  | segment .. => false

def isSegment : Primitive → Bool
  | point .. => false
  | segment .. => true

end Primitive

end Planimetry
