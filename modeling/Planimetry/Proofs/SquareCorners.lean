import Planimetry.Construction

/-!
# Squares that are refused

The corners of a square are computed by way of its side. The side and the turned side have to be
coordinates on the way, though only the corners are asked for, so a square is refused in two cases:
a corner does not fit, or the side does not.

## Main definitions

* `LiesOver`: a point is a corner of the square, in exact numbers.
* `CornersFit`, `SideFits`: what has to fit.

Main statement: `squareCorners_spec`. `refused_though_cornersFit` is a square that is refused though
its corners fit.
-/

namespace Planimetry

/-! ## Partial results -/

theorem orOverflow_bind_eq_ok_iff {α β : Type} {o : Option α}
    {f : α → Except ConstructionFault β} {b : β} :
    (orOverflow o >>= f) = .ok b ↔ ∃ a, o = some a ∧ f a = .ok b := by
  cases o with
  | none => exact ⟨nofun, nofun⟩
  | some a =>
    constructor
    · intro h
      exact ⟨a, rfl, h⟩
    · rintro ⟨a, ⟨⟩, h⟩
      exact h

/-- A fault is an overflow, here or in what follows. -/
theorem eq_overflow_of_orOverflow_bind {α β : Type} {o : Option α}
    {f : α → Except ConstructionFault β} {e : ConstructionFault}
    (hf : ∀ a, f a = .error e → e = .overflow) (h : (orOverflow o >>= f) = .error e) :
    e = .overflow := by
  cases o with
  | none =>
    cases h
    rfl
  | some a => exact hf a h

theorem Coord.exists_toInt_iff {x y : Int} :
    (∃ c : Coord, c.x.toInt = x ∧ c.y.toInt = y) ↔ Scalar.Fits x ∧ Scalar.Fits y := by
  constructor
  · rintro ⟨c, rfl, rfl⟩
    exact ⟨Scalar.fits_toInt c.x, Scalar.fits_toInt c.y⟩
  · rintro ⟨hx, hy⟩
    exact ⟨⟨Int32.ofInt x, Int32.ofInt y⟩, Scalar.toInt_ofInt hx, Scalar.toInt_ofInt hy⟩

/-! ## Exact squares -/

/-- How far `b` is to the right of `a`. -/
def Coord.runTo (a b : Coord) : Int := b.x.toInt - a.x.toInt

/-- How far `b` is above `a`. -/
def Coord.riseTo (a b : Coord) : Int := b.y.toInt - a.y.toInt

section

variable (a b : Coord)

/-- The corner `c` of the square on the side from `a` to `b` lies over its end `p`: between them
there is the side, turned a quarter counter-clockwise. -/
structure LiesOver (p c : Coord) : Prop where
  x_eq : c.x.toInt = p.x.toInt - a.riseTo b
  y_eq : c.y.toInt = p.y.toInt + a.runTo b

/-- There is a coordinate for each of the two corners. -/
structure CornersFit : Prop where
  first_x : Scalar.Fits (a.x.toInt - a.riseTo b)
  first_y : Scalar.Fits (a.y.toInt + a.runTo b)
  second_x : Scalar.Fits (b.x.toInt - a.riseTo b)
  second_y : Scalar.Fits (b.y.toInt + a.runTo b)

/-- The side is a coordinate, and so is the turned side. -/
structure SideFits : Prop where
  run_fits : Scalar.Fits (a.runTo b)
  rise_fits : Scalar.Fits (a.riseTo b)
  turned_fits : Scalar.Fits (-a.riseTo b)

end

variable {a b c d : Coord}

theorem cornersFit_iff : CornersFit a b ↔ (∃ c, LiesOver a b a c) ∧ ∃ d, LiesOver a b b d := by
  constructor
  · rintro ⟨hx, hy, hx', hy'⟩
    obtain ⟨c, hcx, hcy⟩ := Coord.exists_toInt_iff.2 ⟨hx, hy⟩
    obtain ⟨d, hdx, hdy⟩ := Coord.exists_toInt_iff.2 ⟨hx', hy'⟩
    exact ⟨⟨c, hcx, hcy⟩, d, hdx, hdy⟩
  · rintro ⟨⟨c, hcx, hcy⟩, d, hdx, hdy⟩
    obtain ⟨hx, hy⟩ := Coord.exists_toInt_iff.1 ⟨c, hcx, hcy⟩
    obtain ⟨hx', hy'⟩ := Coord.exists_toInt_iff.1 ⟨d, hdx, hdy⟩
    exact ⟨hx, hy, hx', hy'⟩

/-! ## Computed squares -/

/-- The computed corners are the exact ones. They are computed if the side fits as well. -/
theorem squareCorners_eq_ok_iff :
    squareCorners a b = .ok (c, d) ↔ SideFits a b ∧ LiesOver a b a c ∧ LiesOver a b b d := by
  unfold squareCorners
  simp only [orOverflow_bind_eq_ok_iff, Coord.sub?_eq_some_iff, Coord.add?_eq_some_iff,
    Coord.ofInts?_eq_some_iff]
  constructor
  · rintro ⟨side, ⟨hrun, hrise⟩, turned, ⟨hx, hy⟩, c, ⟨hcx, hcy⟩, d, ⟨hdx, hdy⟩, ⟨⟩⟩
    rw [hrise] at hx
    rw [hrun] at hy
    rw [hx] at hcx hdx
    rw [hy] at hcy hdy
    have hside := Coord.exists_toInt_iff.1 ⟨side, hrun, hrise⟩
    have hturned := Coord.exists_toInt_iff.1 ⟨turned, hx, hy⟩
    exact ⟨⟨hside.1, hside.2, hturned.1⟩, ⟨hcx, hcy⟩, hdx, hdy⟩
  · rintro ⟨⟨hrun, hrise, hneg⟩, ⟨hcx, hcy⟩, hdx, hdy⟩
    obtain ⟨side, hside⟩ := Coord.exists_toInt_iff.2 ⟨hrun, hrise⟩
    obtain ⟨turned, hturned⟩ := Coord.exists_toInt_iff.2 ⟨hneg, hrun⟩
    refine ⟨side, hside, turned, ?_, c, ?_, d, ?_, rfl⟩
    · rw [hside.1, hside.2]
      exact hturned
    · rw [hturned.1, hturned.2]
      exact ⟨hcx, hcy⟩
    · rw [hturned.1, hturned.2]
      exact ⟨hdx, hdy⟩

theorem eq_overflow_of_squareCorners {e : ConstructionFault} (h : squareCorners a b = .error e) :
    e = .overflow := by
  unfold squareCorners at h
  refine eq_overflow_of_orOverflow_bind (fun side h => ?_) h
  refine eq_overflow_of_orOverflow_bind (fun turned h => ?_) h
  refine eq_overflow_of_orOverflow_bind (fun c h => ?_) h
  refine eq_overflow_of_orOverflow_bind (fun d h => ?_) h
  cases h

/-- A square has corners if they fit and the side fits, and then these are the exact ones. Otherwise
it is refused. -/
theorem squareCorners_spec (a b : Coord) :
    (∀ c d, squareCorners a b = .ok (c, d) ↔
      SideFits a b ∧ LiesOver a b a c ∧ LiesOver a b b d) ∧
    ∀ e, squareCorners a b = .error e ↔ e = .overflow ∧ ¬ (SideFits a b ∧ CornersFit a b) := by
  refine ⟨fun c d => squareCorners_eq_ok_iff, fun e => ?_⟩
  constructor
  · intro h
    refine ⟨eq_overflow_of_squareCorners h, ?_⟩
    rintro ⟨hside, hcorners⟩
    obtain ⟨⟨c, hc⟩, d, hd⟩ := cornersFit_iff.1 hcorners
    cases h.symm.trans (squareCorners_eq_ok_iff.2 ⟨hside, hc, hd⟩)
  · rintro ⟨rfl, hnot⟩
    cases h : squareCorners a b with
    | error e => rw [eq_overflow_of_squareCorners h]
    | ok cd =>
      obtain ⟨hside, hc, hd⟩ := squareCorners_eq_ok_iff.1 h
      exact absurd ⟨hside, cornersFit_iff.2 ⟨⟨_, hc⟩, _, hd⟩⟩ hnot

/-- The side is too long for a coordinate, yet the corners over it are coordinates. -/
theorem refused_though_cornersFit :
    let a : Coord := ⟨-1073741824, -2147483648⟩
    let b : Coord := ⟨1073741824, -2147483648⟩
    CornersFit a b ∧ squareCorners a b = .error .overflow :=
  ⟨⟨by decide, by decide, by decide, by decide⟩, rfl⟩

/-- The side fits and the corners over it do, and only the turned side does not. -/
example :
    let a : Coord := ⟨-1, 1073741824⟩
    let b : Coord := ⟨-1, -1073741824⟩
    CornersFit a b ∧ squareCorners a b = .error .overflow :=
  ⟨⟨by decide, by decide, by decide, by decide⟩, rfl⟩

end Planimetry
