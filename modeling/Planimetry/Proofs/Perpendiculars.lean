import Planimetry.Proofs.Precision
import Planimetry.Proofs.SquareCorners

/-!
# When there is a perpendicular

A segment has a perpendicular if it is neither vertical nor horizontal and both ends of the arms are
coordinates. The ends of the segment may be exchanged, and the arms are opposite.

## Main definitions

* `Perpendicular.offset`: what is laid off to both sides of the middle.
* `Perpendicular.EndsFit`: both ends of the arms have to be coordinates.
* `Perpendicular.Balanced`: the middle is the exact one, and the arms are opposite.

Main statement: `perpendicular_classified`.
-/

namespace Planimetry

namespace Perpendicular

variable {a b : Coord} {arms : Perpendicular}

/-! ## Exchanged ends -/

theorem midpoint_comm (a b : Coord) : midpoint a b = midpoint b a := by
  simp only [midpoint, middle, Int.add_comm]

/-- Rise and run both change their signs. -/
theorem slope_comm (a b : Coord) : slope a b = slope b a := by
  rw [slope, slope, ← Int.neg_sub b.y.toInt, ← Int.neg_sub b.x.toInt, Rat.intCast_neg,
    Rat.intCast_neg, neg_div_neg_eq]

theorem runTo_ne_zero (hx : a.x ≠ b.x) : a.runTo b ≠ 0 := by
  intro h
  exact hx (Int32.toInt_inj.1 (Int.sub_eq_zero.1 h).symm)

theorem riseTo_eq_zero_iff : a.riseTo b = 0 ↔ a.y = b.y := by
  rw [Coord.riseTo, Int.sub_eq_zero, Int32.toInt_inj, eq_comm]

theorem slope_eq (a b : Coord) : slope a b = Rounding.round (a.riseTo b / a.runTo b) := rfl

/-- A slope is not rounded to zero. -/
theorem slope_eq_zero_iff (hx : a.x ≠ b.x) : slope a b = 0 ↔ a.y = b.y := by
  rw [slope_eq, Rounding.round_eq_zero_iff, div_eq_zero_iff, Rat.intCast_eq_zero_iff,
    Rat.intCast_eq_zero_iff, or_iff_left (runTo_ne_zero hx), riseTo_eq_zero_iff]

/-! ## Arms -/

/-- What is laid off to both sides of the middle. -/
def offset (a b : Coord) : Coord := arm (Rounding.round (-1 / slope a b))

theorem offset_comm (a b : Coord) : offset a b = offset b a := by
  rw [offset, offset, slope_comm]

/-- There is a coordinate for each of the two ends. -/
structure EndsFit (mid d : Coord) : Prop where
  first_x : Scalar.Fits (mid.x.toInt + d.x.toInt)
  first_y : Scalar.Fits (mid.y.toInt + d.y.toInt)
  second_x : Scalar.Fits (mid.x.toInt - d.x.toInt)
  second_y : Scalar.Fits (mid.y.toInt - d.y.toInt)

theorem endsFit_iff {mid d : Coord} :
    EndsFit mid d ↔ (∃ c, mid.add? d = some c) ∧ ∃ c, mid.sub? d = some c := by
  simp only [Coord.add?_eq_some_iff, Coord.sub?_eq_some_iff, Coord.exists_toInt_iff]
  constructor
  · rintro ⟨hx, hy, hx', hy'⟩
    exact ⟨⟨hx, hy⟩, hx', hy'⟩
  · rintro ⟨⟨hx, hy⟩, hx', hy'⟩
    exact ⟨hx, hy, hx', hy'⟩

/-- The middle is the exact one without its fractions, and the arms are opposite. -/
structure Balanced (a b : Coord) (arms : Perpendicular) : Prop where
  mid_x : arms.mid.x.toInt = (a.x.toInt + b.x.toInt).tdiv 2
  mid_y : arms.mid.y.toInt = (a.y.toInt + b.y.toInt).tdiv 2
  ends_x : arms.first.x.toInt + arms.second.x.toInt = 2 * arms.mid.x.toInt
  ends_y : arms.first.y.toInt + arms.second.y.toInt = 2 * arms.mid.y.toInt

end Perpendicular

open Perpendicular

variable {a b : Coord} {arms : Perpendicular}

theorem perpendicular_of_vertical (h : a.x = b.x) : perpendicular a b = .error .vertical :=
  if_pos h

theorem perpendicular_of_horizontal (hx : a.x ≠ b.x) (hy : a.y = b.y) :
    perpendicular a b = .error .horizontal := by
  rw [perpendicular, if_neg hx]
  exact if_pos ((slope_eq_zero_iff hx).2 hy)

/-- A segment that is neither vertical nor horizontal only needs ends that fit. -/
theorem perpendicular_of_oblique (hx : a.x ≠ b.x) (hy : a.y ≠ b.y) :
    perpendicular a b = do
      let first ← orOverflow ((midpoint a b).add? (offset a b))
      let second ← orOverflow ((midpoint a b).sub? (offset a b))
      return ⟨midpoint a b, first, second⟩ := by
  rw [perpendicular, if_neg hx]
  exact if_neg (mt (slope_eq_zero_iff hx).1 hy)

theorem perpendicular_eq_ok_iff :
    perpendicular a b = .ok arms ↔ a.x ≠ b.x ∧ a.y ≠ b.y ∧ arms.mid = midpoint a b ∧
      arms.mid.add? (offset a b) = some arms.first ∧
      arms.mid.sub? (offset a b) = some arms.second := by
  by_cases hx : a.x = b.x
  · rw [perpendicular_of_vertical hx]
    exact ⟨nofun, fun h => absurd hx h.1⟩
  by_cases hy : a.y = b.y
  · rw [perpendicular_of_horizontal hx hy]
    exact ⟨nofun, fun h => absurd hy h.2.1⟩
  rw [perpendicular_of_oblique hx hy]
  simp only [orOverflow_bind_eq_ok_iff]
  constructor
  · rintro ⟨first, hfirst, second, hsecond, ⟨⟩⟩
    exact ⟨hx, hy, rfl, hfirst, hsecond⟩
  · rintro ⟨-, -, hmid, hfirst, hsecond⟩
    rw [hmid] at hfirst hsecond
    exact ⟨_, hfirst, _, hsecond, by rw [← hmid]; rfl⟩

theorem perpendicular_comm (a b : Coord) : perpendicular a b = perpendicular b a := by
  by_cases hx : a.x = b.x
  · rw [perpendicular_of_vertical hx, perpendicular_of_vertical hx.symm]
  by_cases hy : a.y = b.y
  · rw [perpendicular_of_horizontal hx hy,
      perpendicular_of_horizontal (Ne.symm hx) hy.symm]
  · rw [perpendicular_of_oblique hx hy, perpendicular_of_oblique (Ne.symm hx) (Ne.symm hy),
      midpoint_comm, offset_comm]

/-- Beyond the two directions only an end that does not fit is a fault. -/
theorem eq_overflow_of_oblique {e : ConstructionFault} (hx : a.x ≠ b.x) (hy : a.y ≠ b.y)
    (h : perpendicular a b = .error e) : e = .overflow := by
  rw [perpendicular_of_oblique hx hy] at h
  refine eq_overflow_of_orOverflow_bind (fun first h => ?_) h
  refine eq_overflow_of_orOverflow_bind (fun second h => ?_) h
  cases h

theorem perpendicular_eq_vertical_iff : perpendicular a b = .error .vertical ↔ a.x = b.x := by
  constructor
  · intro h
    by_contra hx
    by_cases hy : a.y = b.y
    · cases h.symm.trans (perpendicular_of_horizontal hx hy)
    · cases eq_overflow_of_oblique hx hy h
  · exact perpendicular_of_vertical

theorem perpendicular_eq_horizontal_iff :
    perpendicular a b = .error .horizontal ↔ a.x ≠ b.x ∧ a.y = b.y := by
  constructor
  · intro h
    have hx : a.x ≠ b.x := by
      intro hx
      cases h.symm.trans (perpendicular_of_vertical hx)
    refine ⟨hx, ?_⟩
    by_contra hy
    cases eq_overflow_of_oblique hx hy h
  · rintro ⟨hx, hy⟩
    exact perpendicular_of_horizontal hx hy

theorem perpendicular_eq_overflow_iff :
    perpendicular a b = .error .overflow ↔
      a.x ≠ b.x ∧ a.y ≠ b.y ∧ ¬ EndsFit (midpoint a b) (offset a b) := by
  constructor
  · intro h
    have hx : a.x ≠ b.x := by
      intro hx
      cases h.symm.trans (perpendicular_of_vertical hx)
    have hy : a.y ≠ b.y := by
      intro hy
      cases h.symm.trans (perpendicular_of_horizontal hx hy)
    refine ⟨hx, hy, ?_⟩
    intro hfit
    obtain ⟨⟨first, hfirst⟩, second, hsecond⟩ := endsFit_iff.1 hfit
    have hok : perpendicular a b = .ok ⟨midpoint a b, first, second⟩ :=
      perpendicular_eq_ok_iff.2 ⟨hx, hy, rfl, hfirst, hsecond⟩
    cases h.symm.trans hok
  · rintro ⟨hx, hy, hnot⟩
    cases h : perpendicular a b with
    | error e => rw [eq_overflow_of_oblique hx hy h]
    | ok arms =>
      obtain ⟨-, -, hmid, hfirst, hsecond⟩ := perpendicular_eq_ok_iff.1 h
      rw [hmid] at hfirst hsecond
      exact absurd (endsFit_iff.2 ⟨⟨_, hfirst⟩, _, hsecond⟩) hnot

theorem balanced_of_perpendicular (h : perpendicular a b = .ok arms) : Balanced a b arms := by
  obtain ⟨-, -, hmid, hfirst, hsecond⟩ := perpendicular_eq_ok_iff.1 h
  obtain ⟨hfirst_x, hfirst_y⟩ := Coord.add?_eq_some_iff.1 hfirst
  obtain ⟨hsecond_x, hsecond_y⟩ := Coord.sub?_eq_some_iff.1 hsecond
  refine ⟨?_, ?_, by omega, by omega⟩
  · rw [hmid]
    exact toInt_middle a.x b.x
  · rw [hmid]
    exact toInt_middle a.y b.y

/-- The ends of a segment may be exchanged. Each of the three faults has its own cause, and without
one the arms are opposite and begin in the exact middle. -/
theorem perpendicular_classified (a b : Coord) :
    perpendicular a b = perpendicular b a ∧
    (perpendicular a b = .error .vertical ↔ a.x = b.x) ∧
    (perpendicular a b = .error .horizontal ↔ a.x ≠ b.x ∧ a.y = b.y) ∧
    (perpendicular a b = .error .overflow ↔
      a.x ≠ b.x ∧ a.y ≠ b.y ∧ ¬ EndsFit (midpoint a b) (offset a b)) ∧
    ∀ arms, perpendicular a b = .ok arms → Balanced a b arms :=
  ⟨perpendicular_comm a b, perpendicular_eq_vertical_iff, perpendicular_eq_horizontal_iff,
    perpendicular_eq_overflow_iff, fun _ => balanced_of_perpendicular⟩

/-- Between two points at the edge of the grid the exact middle is found though the sum does not
fit. -/
theorem classified_at_edge :
    let a : Coord := ⟨2147483600, -2147483646⟩
    let b : Coord := ⟨2147483601, -2147483640⟩
    let arms : Perpendicular :=
      ⟨⟨2147483600, -2147483643⟩, ⟨2147483619, -2147483646⟩, ⟨2147483581, -2147483640⟩⟩
    perpendicular a b = .ok arms ∧ Balanced a b arms := by
  have h : perpendicular ⟨2147483600, -2147483646⟩ ⟨2147483601, -2147483640⟩ =
      .ok ⟨⟨2147483600, -2147483643⟩, ⟨2147483619, -2147483646⟩, ⟨2147483581, -2147483640⟩⟩ := by
    decide +kernel
  exact ⟨h, (perpendicular_classified _ _).2.2.2.2 _ h⟩

end Planimetry
