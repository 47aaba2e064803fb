import Mathlib.Data.Int.Order.Lemmas
import Planimetry.Proofs.BuiltSquares
import Planimetry.Proofs.Perpendiculars

/-!
# How long the arms of a perpendicular are

The arms should be 20 long. Of the exact x-component only the whole part is taken, then of the
y-component that belongs to that whole part. So an arm is never too long, but on a flat segment,
whose perpendicular is steep, it is shorter, and in the end nothing is left of it.

## Main definitions

* `TruncatedArm`: what is left of an arm of length 20.
* `ArmLength`: what the direction of a segment tells of the length of its arms.

Main statement: `arm_lengths`. `arms_vanish` is a perpendicular of which nothing is left.
-/

namespace Planimetry

open Rounding hiding round

/-- The arm along the slope `n` that is left of one of length 20: the x-component is the whole part
of the exact one, and the y-component is the whole part of what belongs to that whole part. The
exact numbers are known but for some roundings. -/
structure TruncatedArm (n : ℚ) (v : Vec) : Prop where
  x_truncated : ∃ x, 0 < x ∧ Close 10 (x ^ 2 * (1 + n ^ 2)) (Perpendicular.armLength ^ 2) ∧
    v.x = truncate x
  y_truncated : ∃ x', Close 3 x' v.x ∧ v.y = truncate (n * x')

/-- What rise and run of a segment tell of the square `s` of the length of its arms. -/
structure ArmLength (rise run s : Int) : Prop where
  not_longer : s ≤ 400
  /-- The segment rises by at least three units in four. -/
  nearly_full : 3 * |run| ≤ 4 * |rise| → 324 < s
  some_left : run ^ 2 ≤ 398 * rise ^ 2 → 82 ≤ s
  nothing_left : 400 * rise ^ 2 ≤ run ^ 2 → s = 0
  /-- Of an arm of which something is left, there is never less left than this. -/
  nothing_or_some : s = 0 ∨ 82 ≤ s

/-- What is laid off, as a way. -/
def Coord.vec (c : Coord) : Vec := ⟨c.x.toInt, c.y.toInt⟩

/-! ## The computed arm -/

theorem armLength_sq : Perpendicular.armLength ^ 2 = 400 := by norm_num [Perpendicular.armLength]

/-- Less than one unit longer than an arm, a number has a whole part that fits. -/
theorem toInt_clamp_truncate {z : ℚ} (hz : |z| < 21) :
    (Scalar.clamp (truncate z)).toInt = truncate z := by
  have hfloor : |truncate z| < 21 := by
    rw [abs_truncate, Int.floor_lt]
    exact_mod_cast hz
  rw [abs_lt] at hfloor
  rw [Scalar.toInt_clamp]
  simp only [Scalar.least, Scalar.greatest]
  omega

/-- The square of the computed hypotenuse over a slope. -/
theorem close_length {m n : ℚ} (hn : n ≠ 0) (hm : Close 4 (m * m) (n ^ 2)) :
    let length := root (Rounding.round (1 + Rounding.round (m * m)))
    0 < length ∧ Close 8 (length ^ 2) (1 + n ^ 2) := by
  intro length
  have hn2 : 0 < n ^ 2 := by positivity
  have hsquare : Close 5 (Rounding.round (m * m)) (n ^ 2) := (close_round (hm.pos hn2)).trans hm
  have hsum : Close 5 (1 + Rounding.round (m * m)) (1 + n ^ 2) := hsquare.const_add zero_le_one
  have hone : 0 < 1 + n ^ 2 := by positivity
  have hround := close_round (hsum.pos hone)
  obtain ⟨hpos, hroot⟩ := close_root (hround.pos (hsum.pos hone))
  exact ⟨hpos, hroot.trans (hround.trans hsum)⟩

/-- The x-component before it is truncated. -/
theorem close_x {l n : ℚ} (hl : 0 < l) (h : Close 8 (l ^ 2) (1 + n ^ 2)) :
    let x := Rounding.round (Perpendicular.armLength / l)
    0 < x ∧ Close 10 (x ^ 2 * (1 + n ^ 2)) (Perpendicular.armLength ^ 2) := by
  intro x
  have hone : 0 < 1 + n ^ 2 := by positivity
  have harm : 0 < Perpendicular.armLength := by norm_num [Perpendicular.armLength]
  have hquot : 0 < Perpendicular.armLength / l := div_pos harm hl
  have hround : Close 1 x (Perpendicular.armLength / l) := close_round hquot
  have hsq : Close 8 ((Perpendicular.armLength / l) ^ 2)
      (Perpendicular.armLength ^ 2 / (1 + n ^ 2)) := by
    rw [div_pow]
    exact ((Close.refl _).div h (pow_pos harm 2) hone).mono le_rfl (by positivity)
  refine ⟨hround.pos hquot, ?_⟩
  have hx := ((hround.sq hquot).trans hsq).const_mul hone.le
  rw [mul_div_cancel₀ _ hone.ne'] at hx
  rw [mul_comm (x ^ 2)]
  exact hx

/-- What is truncated is no longer than an arm, but for some roundings. -/
theorem sq_add_sq_le {n x d x' : ℚ} (hx : Close 10 (x ^ 2 * (1 + n ^ 2)) 400) (hd : 0 ≤ d)
    (hdx : d ≤ x) (hx' : Close 3 x' d) : (d ^ 2 + (n * x') ^ 2) * kept ^ 16 ≤ 400 := by
  have hpos : 0 ≤ x' * kept ^ 3 :=
    mul_nonneg ((mul_nonneg hd (kept_pow_pos 3).le).trans hx'.lower) (kept_pow_pos 3).le
  have hy : (x' * kept ^ 3) ^ 2 ≤ d ^ 2 := pow_le_pow_left₀ hpos hx'.upper 2
  have hd2 : d ^ 2 ≤ x ^ 2 := pow_le_pow_left₀ hd hdx 2
  calc (d ^ 2 + (n * x') ^ 2) * kept ^ 16
      = (d ^ 2 * kept ^ 6 + n ^ 2 * (x' * kept ^ 3) ^ 2) * kept ^ 10 := by ring
    _ ≤ (d ^ 2 + n ^ 2 * d ^ 2) * kept ^ 10 := by
        gcongr
        exact mul_le_of_le_one_right (sq_nonneg d) (kept_pow_le_one 6)
    _ = d ^ 2 * (1 + n ^ 2) * kept ^ 10 := by ring
    _ ≤ x ^ 2 * (1 + n ^ 2) * kept ^ 10 := by
        gcongr
    _ ≤ 400 := hx.upper

/-- So neither component is as much as one unit longer. -/
theorem abs_lt_of_sq_add_sq_le {z w : ℚ} (h : (z ^ 2 + w ^ 2) * kept ^ 16 ≤ 400) :
    |z| < 21 ∧ |w| < 21 := by
  have hlt : (400 : ℚ) < 21 ^ 2 * kept ^ 16 := by norm_num [kept]
  have hsum : z ^ 2 + w ^ 2 < 21 ^ 2 :=
    lt_of_mul_lt_mul_right (h.trans_lt hlt) (kept_pow_pos 16).le
  have hz : z ^ 2 < 21 ^ 2 := (le_add_of_nonneg_right (sq_nonneg w)).trans_lt hsum
  have hw : w ^ 2 < 21 ^ 2 := (le_add_of_nonneg_left (sq_nonneg z)).trans_lt hsum
  exact ⟨abs_lt_of_sq_lt_sq hz (by norm_num), abs_lt_of_sq_lt_sq hw (by norm_num)⟩

/-- The y-component before it is truncated. -/
theorem exists_close_y {r d : ℚ} (n : ℚ) (hr : Close 2 r 1) (hd : 0 ≤ d) :
    ∃ x', Close 3 x' d ∧ Rounding.round (n * r * d) = n * x' := by
  obtain ⟨r', hr', hround⟩ := exists_round_eq_mul (n * r * d)
  refine ⟨d * (r * r'), ?_, ?_⟩
  · have h := (hr.mul hr' one_pos one_pos).const_mul hd
    rwa [mul_one, mul_one] at h
  · rw [hround]
    ring

/-- An arm is laid off along the slope, which is known but for two roundings. -/
theorem truncatedArm_arm {n r : ℚ} (hn : n ≠ 0) (hr : Close 2 r 1) :
    TruncatedArm n (Perpendicular.arm (n * r)).vec := by
  have hn2 : 0 < n ^ 2 := by positivity
  have hm : Close 4 (n * r * (n * r)) (n ^ 2) := by
    have h := (hr.sq one_pos).const_mul hn2.le
    rwa [one_pow, mul_one, ← mul_pow, pow_two (n * r)] at h
  obtain ⟨hl, hlength⟩ := close_length hn hm
  obtain ⟨hx, hclose⟩ := close_x hl hlength
  unfold Coord.vec Perpendicular.arm
  dsimp only
  generalize root _ = l at hx hclose ⊢
  generalize Rounding.round (Perpendicular.armLength / l) = x at hx hclose ⊢
  have hsquare := hclose
  rw [armLength_sq] at hsquare
  have hself : Close 3 x x := (Close.refl x).mono (Nat.zero_le 3) hx.le
  rw [toInt_clamp_truncate (abs_lt_of_sq_add_sq_le (sq_add_sq_le hsquare hx.le le_rfl hself)).1]
  have hd : (0 : ℚ) ≤ truncate x := by exact_mod_cast truncate_nonneg hx.le
  obtain ⟨x', hx', hy⟩ := exists_close_y n hr hd
  have hnorm := sq_add_sq_le hsquare hd (truncate_le hx.le) hx'
  rw [hy, toInt_clamp_truncate (abs_lt_of_sq_add_sq_le hnorm).2]
  exact ⟨⟨x, hx, hclose, rfl⟩, x', hx', rfl⟩

/-! ## What is left of an arm -/

namespace TruncatedArm

variable {n : ℚ} {v : Vec}

theorem x_nonneg (h : TruncatedArm n v) : 0 ≤ v.x := by
  obtain ⟨x, hx, -, hvx⟩ := h.x_truncated
  rw [hvx]
  exact truncate_nonneg hx.le

/-- The exact x-component is less than one unit longer. -/
theorem exists_x (h : TruncatedArm n v) :
    ∃ x, 0 < x ∧ Close 10 (x ^ 2 * (1 + n ^ 2)) 400 ∧ v.x ≤ x ∧ x < v.x + 1 := by
  obtain ⟨x, hx, hclose, hvx⟩ := h.x_truncated
  rw [armLength_sq] at hclose
  rw [hvx]
  exact ⟨x, hx, hclose, truncate_le hx.le, lt_truncate_add_one hx.le⟩

theorem exists_y (h : TruncatedArm n v) :
    ∃ x', Close 3 x' v.x ∧ |v.y| ≤ |n * x'| ∧ |n * x'| < |v.y| + 1 := by
  obtain ⟨x', hx', hvy⟩ := h.y_truncated
  rw [hvy, abs_truncate]
  exact ⟨x', hx', Int.floor_le _, Int.lt_floor_add_one _⟩

/-- An arm is not too long. -/
theorem norm_le (h : TruncatedArm n v) : v.norm ≤ 400 := by
  obtain ⟨x, -, hclose, hdx, -⟩ := h.exists_x
  obtain ⟨x', hx', hy, -⟩ := h.exists_y
  rw [Int.cast_abs] at hy
  have hd : (0 : ℚ) ≤ v.x := by exact_mod_cast h.x_nonneg
  have hbound := sq_add_sq_le hclose hd hdx hx'
  have hy2 : (v.y : ℚ) ^ 2 ≤ (n * x') ^ 2 := sq_le_sq.2 hy
  have hnorm : ((v.norm : Int) : ℚ) < 401 := by
    have hlt : (400 : ℚ) < 401 * kept ^ 16 := by norm_num [kept]
    refine lt_of_mul_lt_mul_right (lt_of_le_of_lt ?_ hlt) (kept_pow_pos 16).le
    refine le_trans ?_ hbound
    apply mul_le_mul_of_nonneg_right _ (kept_pow_pos 16).le
    rw [Vec.norm, Vec.dot, ← pow_two, ← pow_two]
    push_cast
    exact add_le_add_right hy2 _
  exact Int.lt_add_one_iff.1 (by exact_mod_cast hnorm)

theorem x_le (h : TruncatedArm n v) : v.x ≤ 20 := by
  have hnorm := h.norm_le
  rw [Vec.norm, Vec.dot] at hnorm
  nlinarith [mul_self_nonneg v.y]

/-- An arm that is one unit longer in both directions would be too long. -/
theorem longer_one_unit (h : TruncatedArm n v) :
    v.x ^ 2 * (400 - (v.x + 1) ^ 2) ≤ (|v.y| + 1) ^ 2 * (v.x + 1) ^ 2 := by
  obtain ⟨x, hx, hclose, -, hxd⟩ := h.exists_x
  obtain ⟨x', hx', -, hy⟩ := h.exists_y
  have hd : (0 : ℚ) ≤ v.x := by exact_mod_cast h.x_nonneg
  have hd20 : (v.x : ℚ) ≤ 20 := by exact_mod_cast h.x_le
  have hlow : 400 * kept ^ 10 - (v.x + 1) ^ 2 ≤ n ^ 2 * ((v.x : ℚ) + 1) ^ 2 := by
    have hx2 : x ^ 2 ≤ (v.x + 1) ^ 2 := pow_le_pow_left₀ hx.le hxd.le 2
    have hlower := hclose.lower.trans
      (mul_le_mul_of_nonneg_right hx2 (add_nonneg zero_le_one (sq_nonneg n)))
    linarith
  have hside : n ^ 2 * ((v.x : ℚ) * kept ^ 3) ^ 2 ≤ (|v.y| + 1) ^ 2 := by
    have hx2 : ((v.x : ℚ) * kept ^ 3) ^ 2 ≤ x' ^ 2 :=
      pow_le_pow_left₀ (mul_nonneg hd (kept_pow_pos 3).le) hx'.lower 2
    calc n ^ 2 * ((v.x : ℚ) * kept ^ 3) ^ 2
        ≤ n ^ 2 * x' ^ 2 := mul_le_mul_of_nonneg_left hx2 (sq_nonneg n)
      _ = |n * x'| ^ 2 := by rw [sq_abs, mul_pow]
      _ ≤ (|v.y| + 1) ^ 2 := pow_le_pow_left₀ (abs_nonneg _) hy.le 2
  -- What the roundings take away is less than one, and both sides are whole.
  have hreal : (v.x : ℚ) ^ 2 * (400 - (v.x + 1) ^ 2) - 1 < (|v.y| + 1) ^ 2 * (v.x + 1) ^ 2 := by
    have hd2 : (v.x : ℚ) ^ 2 ≤ 20 ^ 2 := pow_le_pow_left₀ hd hd20 2
    calc (v.x : ℚ) ^ 2 * (400 - (v.x + 1) ^ 2) - 1
        < (v.x : ℚ) ^ 2 * (400 * kept ^ 16 - (v.x + 1) ^ 2) := by
          have hlost : (20 : ℚ) ^ 2 * (400 - 400 * kept ^ 16) < 1 := by norm_num [kept]
          have hnonneg : 0 ≤ 400 - 400 * kept ^ 16 := by linarith [kept_pow_le_one 16]
          have := mul_le_mul_of_nonneg_right hd2 hnonneg
          linarith
      _ ≤ (v.x : ℚ) ^ 2 * (400 * kept ^ 16 - (v.x + 1) ^ 2 * kept ^ 6) := by
          gcongr
          exact mul_le_of_le_one_right (sq_nonneg _) (kept_pow_le_one 6)
      _ = (400 * kept ^ 10 - (v.x + 1) ^ 2) * ((v.x : ℚ) * kept ^ 3) ^ 2 := by ring
      _ ≤ n ^ 2 * ((v.x : ℚ) + 1) ^ 2 * ((v.x : ℚ) * kept ^ 3) ^ 2 := by
          gcongr
      _ = n ^ 2 * ((v.x : ℚ) * kept ^ 3) ^ 2 * (v.x + 1) ^ 2 := by ring
      _ ≤ (|v.y| + 1) ^ 2 * (v.x + 1) ^ 2 := mul_le_mul_of_nonneg_right hside (sq_nonneg _)
  exact Int.sub_one_lt_iff.1 (by exact_mod_cast hreal)

theorem y_eq_zero (h : TruncatedArm n v) (hx : v.x = 0) : v.y = 0 := by
  obtain ⟨x', hx', hvy⟩ := h.y_truncated
  rw [hx, Int.cast_zero] at hx'
  have hx'_zero : x' = 0 := by
    have hlower := hx'.lower
    have hupper := hx'.upper
    rw [zero_mul] at hlower
    exact le_antisymm (nonpos_of_mul_nonpos_left hupper (kept_pow_pos 3)) hlower
  rw [hvy, hx'_zero, mul_zero]
  rfl

/-- On a flat slope a part of the x-component is left. -/
theorem le_x {k : Nat} {c : ℚ} (h : TruncatedArm n v) (hn : 1 + n ^ 2 ≤ c)
    (hc : k ^ 2 * c ≤ 400 * kept ^ 10) : k ≤ v.x := by
  obtain ⟨x, hx, hclose, -, hxd⟩ := h.exists_x
  have hc_pos : 0 < c := lt_of_lt_of_le (by positivity) hn
  have hsq : (k : ℚ) ^ 2 ≤ x ^ 2 := by
    refine le_of_mul_le_mul_right ?_ hc_pos
    calc (k : ℚ) ^ 2 * c ≤ 400 * kept ^ 10 := hc
      _ ≤ x ^ 2 * (1 + n ^ 2) := hclose.lower
      _ ≤ x ^ 2 * c := mul_le_mul_of_nonneg_left hn (sq_nonneg x)
  have hlt : (k : ℚ) < v.x + 1 := (le_of_sq_le_sq hsq hx.le).trans_lt hxd
  exact Int.lt_add_one_iff.1 (by exact_mod_cast hlt)

/-- On a steep slope nothing is left of it. -/
theorem x_eq_zero (h : TruncatedArm n v) (hn : 400 ≤ n ^ 2) : v.x = 0 := by
  obtain ⟨x, hx, hclose, hdx, -⟩ := h.exists_x
  have hsq : x ^ 2 < 1 ^ 2 := by
    have hlt : (400 : ℚ) < 1 ^ 2 * (401 * kept ^ 10) := by norm_num [kept]
    refine lt_of_mul_lt_mul_right (lt_of_le_of_lt ?_ hlt)
      (mul_pos (by norm_num) (kept_pow_pos 10)).le
    calc x ^ 2 * (401 * kept ^ 10) ≤ x ^ 2 * ((1 + n ^ 2) * kept ^ 10) := by
          gcongr
          linarith
      _ = x ^ 2 * (1 + n ^ 2) * kept ^ 10 := by ring
      _ ≤ 400 := hclose.upper
  have hlt : v.x < 1 := by exact_mod_cast hdx.trans_lt (lt_of_pow_lt_pow_left₀ 2 zero_le_one hsq)
  exact le_antisymm (Int.lt_add_one_iff.1 hlt) h.x_nonneg

theorem natAbs_y_le (h : TruncatedArm n v) : v.y.natAbs ≤ 20 := by
  have hnorm := h.norm_le
  rw [Vec.norm, Vec.dot] at hnorm
  have hsq : v.y * v.y ≤ 20 * 20 := by linarith [mul_self_nonneg v.x]
  exact Int.natAbs_le_iff_mul_self_le.2 hsq

/-- Of the few ways that an arm can be, those that one more unit would make too long. -/
theorem length_table :
    ∀ i < 21, ∀ j < 21, i ^ 2 * 400 ≤ (j + 1) ^ 2 * (i + 1) ^ 2 + i ^ 2 * (i + 1) ^ 2 →
      (1 ≤ i → 82 ≤ i * i + j * j) ∧ (12 ≤ i → 324 < i * i + j * j) := by
  decide +kernel

theorem le_norm (h : TruncatedArm n v) :
    (1 ≤ v.x → 82 ≤ v.norm) ∧ (12 ≤ v.x → 324 < v.norm) := by
  have hx := h.x_le
  have hy := h.natAbs_y_le
  have hunit := h.longer_one_unit
  obtain ⟨i, hi⟩ := Int.eq_ofNat_of_zero_le h.x_nonneg
  have htable := length_table i (by omega) v.y.natAbs (by omega)
  rw [Vec.norm, Vec.dot, ← Int.natAbs_mul_self' v.y, hi]
  rw [Int.abs_eq_natAbs, hi, mul_sub, sub_le_iff_le_add] at hunit
  exact_mod_cast htable (by exact_mod_cast hunit)

theorem norm_eq_zero (h : TruncatedArm n v) (hx : v.x = 0) : v.norm = 0 := by
  rw [Vec.norm, Vec.dot, hx, h.y_eq_zero hx]
  rfl

end TruncatedArm

/-! ## Arms of a segment -/

namespace Perpendicular

variable {a b : Coord}

/-- The slope at right angles to the segment from `a` to `b`. -/
def normalSlope (a b : Coord) : ℚ := -(a.runTo b) / a.riseTo b

/-- The slope of the arms is rounded twice. -/
theorem exists_offset_eq (hx : a.x ≠ b.x) (hy : a.y ≠ b.y) :
    ∃ r, Close 2 r 1 ∧ offset a b = arm (normalSlope a b * r) := by
  obtain ⟨r, hr, hslope⟩ := exists_round_eq_mul ((a.riseTo b : ℚ) / a.runTo b)
  obtain ⟨r', hr', hnormal⟩ := exists_round_eq_mul (-1 / slope a b)
  have hrun : (a.runTo b : ℚ) ≠ 0 := Int.cast_ne_zero.2 (runTo_ne_zero hx)
  have hrise : (a.riseTo b : ℚ) ≠ 0 := Int.cast_ne_zero.2 (mt riseTo_eq_zero_iff.1 hy)
  have hr_ne : r ≠ 0 := (hr.pos one_pos).ne'
  refine ⟨r' / r, ?_, ?_⟩
  · have h := hr'.div hr one_pos one_pos
    rwa [div_one] at h
  · rw [offset, hnormal, slope_eq, hslope, normalSlope]
    congr 1
    field_simp

theorem truncatedArm_offset (hx : a.x ≠ b.x) (hy : a.y ≠ b.y) :
    TruncatedArm (normalSlope a b) (offset a b).vec := by
  obtain ⟨r, hr, hoffset⟩ := exists_offset_eq hx hy
  rw [hoffset]
  apply truncatedArm_arm _ hr
  have hrun : (a.runTo b : ℚ) ≠ 0 := Int.cast_ne_zero.2 (runTo_ne_zero hx)
  have hrise : (a.riseTo b : ℚ) ≠ 0 := Int.cast_ne_zero.2 (mt riseTo_eq_zero_iff.1 hy)
  exact div_ne_zero (neg_ne_zero.2 hrun) hrise

theorem normalSlope_sq (a b : Coord) :
    normalSlope a b ^ 2 = ((a.runTo b ^ 2 : Int) : ℚ) / (a.riseTo b ^ 2 : Int) := by
  rw [normalSlope, div_pow, neg_sq]
  push_cast
  rfl

theorem abs_riseTo_lt (a b : Coord) : |a.riseTo b| < 2 ^ 32 := by
  have ha := Scalar.fits_toInt a.y
  have hb := Scalar.fits_toInt b.y
  simp only [Scalar.Fits, Scalar.least, Scalar.greatest] at ha hb
  rw [Coord.riseTo, abs_lt]
  omega

/-- Whole numbers cannot come nearer to a ratio than this without reaching it. -/
theorem sq_run_le {rise run : Int} (hlt : 3 * |run| < 4 * |rise|) (hfit : |rise| < 2 ^ 32) :
    2 ^ 30 * (9 * run ^ 2) ≤ (2 ^ 34 - 1) * rise ^ 2 := by
  rw [← sq_abs run, ← sq_abs rise]
  have hrun := abs_nonneg run
  generalize |run| = p at hlt hrun ⊢
  generalize |rise| = q at hlt hfit ⊢
  have hsq : (3 * p) ^ 2 ≤ (4 * q - 1) ^ 2 := pow_le_pow_left₀ (by omega) (by omega) 2
  have hunit : q ^ 2 ≤ 2 ^ 32 * q := by
    rw [pow_two]
    exact mul_le_mul_of_nonneg_right hfit.le (by omega)
  linarith

/-- At the slope of a right triangle with whole sides nothing is dropped. -/
theorem norm_offset_of_exact (hx : a.x ≠ b.x) (h : 3 * |a.runTo b| = 4 * |a.riseTo b|) :
    (offset a b).vec.norm = 400 := by
  have hrun : (a.runTo b : ℚ) ≠ 0 := Int.cast_ne_zero.2 (runTo_ne_zero hx)
  rcases abs_eq_abs.1 (by rwa [abs_mul, abs_mul] : |3 * a.runTo b| = |4 * a.riseTo b|) with h | h
  · have hratio : (a.riseTo b : ℚ) / a.runTo b = 3 / 4 := by
      rw [div_eq_div_iff hrun four_ne_zero, mul_comm]
      exact_mod_cast h.symm
    rw [offset, slope_eq, hratio]
    decide +kernel
  · have hratio : (a.riseTo b : ℚ) / a.runTo b = -3 / 4 := by
      rw [div_eq_div_iff hrun four_ne_zero, mul_comm, neg_mul, ← neg_eq_iff_eq_neg]
      exact_mod_cast h.symm
    rw [offset, slope_eq, hratio]
    decide +kernel

theorem armLength_offset (hx : a.x ≠ b.x) (hy : a.y ≠ b.y) :
    ArmLength (a.riseTo b) (a.runTo b) (offset a b).vec.norm := by
  have harm := truncatedArm_offset hx hy
  have hsq := normalSlope_sq a b
  have hrise : (0 : ℚ) < (a.riseTo b ^ 2 : Int) := by
    have := mt riseTo_eq_zero_iff.1 hy
    exact_mod_cast (by positivity : 0 < a.riseTo b ^ 2)
  constructor
  case not_longer => exact harm.norm_le
  case nearly_full =>
    intro h
    rcases h.eq_or_lt with h | h
    · rw [norm_offset_of_exact hx h]
      decide
    · apply harm.le_norm.2
      have hle := sq_run_le h (abs_riseTo_lt a b)
      have hn : normalSlope a b ^ 2 ≤ (2 ^ 34 - 1) / (2 ^ 30 * 9) := by
        rw [hsq, div_le_div_iff₀ hrise (by norm_num)]
        exact_mod_cast (by linarith : a.runTo b ^ 2 * (2 ^ 30 * 9) ≤ (2 ^ 34 - 1) * a.riseTo b ^ 2)
      exact harm.le_x (add_le_add_right hn 1) (by norm_num [kept])
  case some_left =>
    intro h
    apply harm.le_norm.1
    have hn : normalSlope a b ^ 2 ≤ 398 := by
      rw [hsq, div_le_iff₀ hrise]
      exact_mod_cast h
    exact harm.le_x (add_le_add_right hn 1) (by norm_num [kept])
  case nothing_left =>
    intro h
    apply harm.norm_eq_zero
    apply harm.x_eq_zero
    rw [hsq, le_div_iff₀ hrise]
    exact_mod_cast h
  case nothing_or_some =>
    rcases harm.x_nonneg.eq_or_lt with h | h
    · exact .inl (harm.norm_eq_zero h.symm)
    · exact .inr (harm.le_norm.1 h)

/-- On a segment that is but a little flatter the arms are too short. -/
example : (offset ⟨0, 0⟩ ⟨27, 20⟩).vec.norm = 317 := by decide +kernel

/-- The arms are what is laid off to both sides. -/
theorem to_ends {arms : Perpendicular} (h : perpendicular a b = .ok arms) :
    arms.mid.to arms.first = (offset a b).vec ∧
      arms.mid.to arms.second = (offset a b).vec.turned.turned := by
  obtain ⟨-, -, -, hfirst, hsecond⟩ := perpendicular_eq_ok_iff.1 h
  obtain ⟨hfirst_x, hfirst_y⟩ := Coord.add?_eq_some_iff.1 hfirst
  obtain ⟨hsecond_x, hsecond_y⟩ := Coord.sub?_eq_some_iff.1 hsecond
  simp only [Coord.to, Coord.vec, Vec.turned, Vec.mk.injEq, Coord.runTo, Coord.riseTo]
  omega

end Perpendicular

open Perpendicular

variable {a b : Coord} {arms : Perpendicular}

/-- Both arms are what is left of an arm of length 20. They are never longer, but shorter on flat
segments, the more so the flatter the segment is, until nothing is left. -/
theorem arm_lengths (h : perpendicular a b = .ok arms) :
    TruncatedArm (normalSlope a b) (arms.mid.to arms.first) ∧
    arms.mid.to arms.second = (arms.mid.to arms.first).turned.turned ∧
    ArmLength (a.riseTo b) (a.runTo b) (arms.mid.to arms.first).norm ∧
    ArmLength (a.riseTo b) (a.runTo b) (arms.mid.to arms.second).norm := by
  obtain ⟨hx, hy, -⟩ := perpendicular_eq_ok_iff.1 h
  obtain ⟨hfirst, hsecond⟩ := to_ends h
  have hlength := armLength_offset hx hy
  rw [hsecond, hfirst, Vec.norm_turned, Vec.norm_turned]
  exact ⟨truncatedArm_offset hx hy, rfl, hlength, hlength⟩

/-- The arms of a steep segment have almost their full length. -/
theorem lengths_of_steep :
    let arms : Perpendicular := ⟨⟨0, 2⟩, ⟨19, -2⟩, ⟨-19, 6⟩⟩
    perpendicular ⟨0, 0⟩ ⟨1, 4⟩ = .ok arms ∧ 324 < (arms.mid.to arms.first).norm := by
  have h : perpendicular ⟨0, 0⟩ ⟨1, 4⟩ = .ok ⟨⟨0, 2⟩, ⟨19, -2⟩, ⟨-19, 6⟩⟩ := by decide +kernel
  exact ⟨h, (arm_lengths h).2.2.1.nearly_full (by decide)⟩

/-- Of the arms of a flat segment nothing is left: they should be 20 long, but both end where they
begin. -/
theorem arms_vanish :
    let arms : Perpendicular := ⟨⟨10, 0⟩, ⟨10, 0⟩, ⟨10, 0⟩⟩
    perpendicular ⟨0, 0⟩ ⟨20, 1⟩ = .ok arms ∧ ¬ 324 < (arms.mid.to arms.first).norm ∧
      arms.first = arms.mid ∧ arms.second = arms.mid := by
  decide +kernel

end Planimetry
