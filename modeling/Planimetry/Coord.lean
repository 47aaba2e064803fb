import Planimetry.Scalar

/-!
# Coordinates

A coordinate is a pair of bounded whole numbers on the grid.
-/

namespace Planimetry

/-- A position on the grid. -/
structure Coord where
  x : Int32
  y : Int32
deriving DecidableEq, Inhabited

namespace Coord

def origin : Coord := ⟨0, 0⟩

instance : ToString Coord := ⟨fun c => s!"({c.x.toInt},{c.y.toInt})"⟩

/-- The coordinate with the given exact components, if both fit. -/
def ofInts? (x y : Int) : Option Coord :=
  match Scalar.fit? x, Scalar.fit? y with
  | some x, some y => some ⟨x, y⟩
  | _, _ => none

def add? (a b : Coord) : Option Coord :=
  ofInts? (a.x.toInt + b.x.toInt) (a.y.toInt + b.y.toInt)

def sub? (a b : Coord) : Option Coord :=
  ofInts? (a.x.toInt - b.x.toInt) (a.y.toInt - b.y.toInt)

theorem ofInts?_eq_some_iff {x y : Int} {c : Coord} :
    ofInts? x y = some c ↔ c.x.toInt = x ∧ c.y.toInt = y := by
  unfold ofInts?
  constructor
  · intro h
    split at h
    · rename_i u v hu hv
      cases h
      exact ⟨Scalar.fit?_eq_some_iff.1 hu, Scalar.fit?_eq_some_iff.1 hv⟩
    · cases h
  · rintro ⟨hx, hy⟩
    rw [Scalar.fit?_eq_some_iff.2 hx, Scalar.fit?_eq_some_iff.2 hy]

theorem add?_eq_some_iff {a b c : Coord} :
    a.add? b = some c ↔ c.x.toInt = a.x.toInt + b.x.toInt ∧ c.y.toInt = a.y.toInt + b.y.toInt :=
  ofInts?_eq_some_iff

theorem sub?_eq_some_iff {a b c : Coord} :
    a.sub? b = some c ↔ c.x.toInt = a.x.toInt - b.x.toInt ∧ c.y.toInt = a.y.toInt - b.y.toInt :=
  ofInts?_eq_some_iff

end Coord

end Planimetry
