import Planimetry.Coord
import Planimetry.Rounding

/-!
# Constructions

Points computed from two given points: the far corners of a square and the two arms of a
perpendicular.

## Main definitions

* `squareCorners`: the corners opposite to a side.
* `perpendicular`: two arms of length 20 at right angles to a segment, from its middle.
-/

namespace Planimetry

/-- Why a construction has no result. -/
inductive ConstructionFault where
  | vertical
  | horizontal
  | overflow
deriving DecidableEq, Repr

def ConstructionFault.message : ConstructionFault → String
  | vertical => "segment is vertical, its slope is undefined"
  | horizontal => "segment is horizontal, the perpendicular slope is undefined"
  | overflow => "constructed point lies outside the coordinate range"

/-- A partial result, with overflow as the reason for its absence. -/
def orOverflow {α : Type} : Option α → Except ConstructionFault α
  | some a => .ok a
  | none => .error .overflow

/-! ## Squares -/

/-- The corners of a square over `a` and over `b`: the side from `a` to `b` turned a quarter
counter-clockwise and laid off at both ends. The side and the turned side have to fit as well. -/
def squareCorners (a b : Coord) : Except ConstructionFault (Coord × Coord) := do
  let side ← orOverflow (b.sub? a)
  let turned ← orOverflow (Coord.ofInts? (-side.y.toInt) side.x.toInt)
  let c ← orOverflow (a.add? turned)
  let d ← orOverflow (b.add? turned)
  return (c, d)

/-! ## Perpendiculars -/

/-- The two arms of a perpendicular to a segment. -/
structure Perpendicular where
  /-- The middle of the segment, where the arms begin. -/
  mid : Coord
  /-- The end of the arm that points to the right. -/
  first : Coord
  /-- The end of the opposite arm. -/
  second : Coord
deriving DecidableEq

namespace Perpendicular

def armLength : Rat := 20

/-- The middle between two numbers, its fraction dropped. -/
def middle (a b : Int32) : Int32 := Int32.ofInt ((a.toInt + b.toInt).tdiv 2)

def midpoint (a b : Coord) : Coord := ⟨middle a.x b.x, middle a.y b.y⟩

theorem toInt_middle (a b : Int32) : (middle a b).toInt = (a.toInt + b.toInt).tdiv 2 := by
  apply Scalar.toInt_ofInt
  have ha := Scalar.fits_toInt a
  have hb := Scalar.fits_toInt b
  simp only [Scalar.Fits, Scalar.least, Scalar.greatest] at ha hb ⊢
  have h2 : Int.sign 2 = 1 := rfl
  rw [Int.tdiv_eq_ediv, h2]
  split <;> omega

/-- The middle fits, even if the sum does not. -/
theorem ofInts?_midpoint (a b : Coord) :
    Coord.ofInts? ((a.x.toInt + b.x.toInt).tdiv 2) ((a.y.toInt + b.y.toInt).tdiv 2) =
      some (midpoint a b) :=
  Coord.ofInts?_eq_some_iff.2 ⟨toInt_middle a.x b.x, toInt_middle a.y b.y⟩

/-- The slope of the segment from `a` to `b`, which is not vertical. -/
def slope (a b : Coord) : Rat :=
  Rounding.round (((b.y.toInt - a.y.toInt : Int) : Rat) / ((b.x.toInt - a.x.toInt : Int) : Rat))

/-- The arm along the slope `normal`: its x-component is the whole part of the exact one, and its
y-component follows from that whole number. -/
def arm (normal : Rat) : Coord :=
  let square := Rounding.round (normal * normal)
  let length := Rounding.root (Rounding.round (1 + square))
  let dx := Scalar.clamp (Rounding.truncate (Rounding.round (armLength / length)))
  let dy := Scalar.clamp (Rounding.truncate (Rounding.round (normal * (dx.toInt : Rat))))
  ⟨dx, dy⟩

end Perpendicular

/-- The perpendicular to the segment from `a` to `b`. -/
def perpendicular (a b : Coord) : Except ConstructionFault Perpendicular :=
  if a.x = b.x then .error .vertical
  else
    let s := Perpendicular.slope a b
    if s = 0 then .error .horizontal
    else do
      let mid := Perpendicular.midpoint a b
      let offset := Perpendicular.arm (Rounding.round (-1 / s))
      let first ← orOverflow (mid.add? offset)
      let second ← orOverflow (mid.sub? offset)
      return ⟨mid, first, second⟩

/-- The arms begin in the middle of the segment. -/
theorem mid_of_perpendicular {a b : Coord} {arms : Perpendicular}
    (h : perpendicular a b = .ok arms) : arms.mid = Perpendicular.midpoint a b := by
  unfold perpendicular at h
  split at h
  · cases h
  · dsimp only at h
    split at h
    · cases h
    · generalize Perpendicular.arm _ = offset at h
      cases h₁ : (Perpendicular.midpoint a b).add? offset with
      | none => simp [h₁, orOverflow, bind, Except.bind] at h
      | some first =>
        cases h₂ : (Perpendicular.midpoint a b).sub? offset with
        | none => simp [h₁, h₂, orOverflow, bind, Except.bind] at h
        | some second =>
          simp only [h₁, h₂, orOverflow, bind, Except.bind] at h
          cases h
          rfl

end Planimetry
