import Mathlib.Algebra.Order.Group.Unbundled.Int
import Mathlib.Order.Interval.Set.UnorderedInterval
import Planimetry.Grid

/-!
# Pixels and the cells under them

A pixel is computed from a coordinate in two steps, and each is clamped: the way from the centre,
and then the pixel. The way back is not clamped, but a pixel on a real surface never leads out of
the range of coordinates.

## Main definitions

* `Grid.Proper`: the surface has a size, and its grid lines are apart.
* `Grid.exactX`, `Grid.exactY`: where a coordinate lies on the surface, in exact numbers.
* `Grid.FitsExactly`: neither of the two steps is clamped.
* `Grid.ShortOf`: a pixel lies on the way to another one, in the same cell.
* `Grid.Unhindered`: the first clamp does no harm.

Main statements: `Grid.readout_inverse` and `Grid.toPixel_stops`. `Grid.moved_though_fits` is a
pixel that fits and is missed.
-/

namespace Planimetry

/-! ## Clamps and quotients -/

namespace Scalar

variable {m n s c t : Int}

/-- A summand that is clamped first stops the sum at `c + least`. -/
theorem toInt_clamp_add_clamp (h₀ : 0 ≤ c) (h₁ : c ≤ greatest) :
    (clamp (c + (clamp t).toInt)).toInt = max (c + least) (min (c + t) greatest) := by
  rw [toInt_clamp, toInt_clamp]
  simp only [least, greatest] at h₁ ⊢
  omega

/-- Subtracted, it stops the difference at `c - greatest`. -/
theorem toInt_clamp_sub_clamp (h₀ : 0 ≤ c) (h₁ : c ≤ greatest) :
    (clamp (c - (clamp t).toInt)).toInt = max (c - greatest) (min (c - t) greatest) := by
  rw [toInt_clamp, toInt_clamp]
  simp only [least, greatest] at h₁ ⊢
  omega

theorem Fits.of_mem_uIcc (hn : Fits n) (h : m ∈ Set.uIcc 0 n) : Fits m := by
  rw [Set.mem_uIcc] at h
  simp only [Fits, least, greatest] at hn ⊢
  omega

/-- What the quotient without its fraction measures out falls short of `n` by less than `s`. -/
theorem tdiv_mul_spec (n : Int) (hs : 0 < s) :
    n.tdiv s * s ∈ Set.uIcc 0 n ∧ |n - n.tdiv s * s| < s := by
  have hlow := Int.lt_tmod_of_pos n hs
  have hhigh := Int.tmod_lt_of_pos n hs
  have hrest := Int.tmod_add_tdiv_mul n s
  rw [Set.mem_uIcc, abs_lt]
  rcases le_total 0 n with hn | hn
  · have hmod := Int.tmod_nonneg s hn
    have hquot := Int.mul_nonneg (Int.tdiv_nonneg hn hs.le) hs.le
    omega
  · have hmod := Int.tmod_nonneg s (Int.neg_nonneg_of_nonpos hn)
    have hquot := Int.mul_nonneg (Int.tdiv_nonneg (Int.neg_nonneg_of_nonpos hn) hs.le) hs.le
    rw [Int.neg_tmod] at hmod
    rw [Int.neg_tdiv, Int.neg_mul] at hquot
    omega

theorem tdiv_mem_uIcc (hs : 0 < s) (h : m ∈ Set.uIcc 0 (n * s)) : m.tdiv s ∈ Set.uIcc 0 n := by
  rw [Set.mem_uIcc] at h ⊢
  rw [← Int.mul_tdiv_cancel n hs.ne', ← Int.zero_tdiv s]
  exact h.imp (.imp (Int.tdiv_le_tdiv hs) (Int.tdiv_le_tdiv hs))
    (.imp (Int.tdiv_le_tdiv hs) (Int.tdiv_le_tdiv hs))

theorem fits_tdiv (hn : Fits n) (hs : 0 < s) : Fits (n.tdiv s) := by
  apply hn.of_mem_uIcc
  apply tdiv_mem_uIcc hs
  rw [Set.mem_uIcc]
  rcases le_total 0 n with h | h
  · have := Int.mul_le_mul_of_nonneg_left hs h
    omega
  · have := Int.mul_le_mul_of_nonpos_left h hs
    omega

theorem exists_toInt_eq (hn : Fits n) : ∃ x : Int32, x.toInt = n := ⟨_, toInt_ofInt hn⟩

theorem elim_fit?_eq_ok_iff {e : ArithmeticFault} {x : Int32} :
    (fit? n).elim (.error e) .ok = Except.ok x ↔ x.toInt = n := by
  rw [← fit?_eq_some_iff]
  cases fit? n <;> simp

theorem sub_eq_ok_iff {a b x : Int32} : sub a b = .ok x ↔ x.toInt = a.toInt - b.toInt :=
  elim_fit?_eq_ok_iff

theorem neg_eq_ok_iff {a x : Int32} : neg a = .ok x ↔ x.toInt = -a.toInt :=
  elim_fit?_eq_ok_iff

theorem div_eq_ok_iff {a b x : Int32} (hb : b ≠ 0) :
    div a b = .ok x ↔ x.toInt = a.toInt.tdiv b.toInt := by
  rw [div, if_neg hb]
  exact elim_fit?_eq_ok_iff

end Scalar

namespace Grid

/-! ## Exact pixels -/

section

variable (g : Grid) (c : Coord)

/-- A surface with a size, and grid lines that are at least a pixel apart. -/
structure Proper : Prop where
  width_nonneg : 0 ≤ g.width.toInt
  height_nonneg : 0 ≤ g.height.toInt
  spacing_pos : 0 < g.spacing.toInt

/-- How far right the coordinate lies on the surface. -/
def exactX : Int := g.center.x.toInt + c.x.toInt * g.spacing.toInt

/-- How far down it lies; grid rows run against pixel rows. -/
def exactY : Int := g.center.y.toInt - c.y.toInt * g.spacing.toInt

/-- The exact pixel, clamped. -/
def clampedPixel : Pixel := ⟨Scalar.clamp (g.exactX c), Scalar.clamp (g.exactY c)⟩

/-- The way from the centre to the coordinate fits, and so does its pixel. -/
structure FitsExactly : Prop where
  way_x : Scalar.Fits (c.x.toInt * g.spacing.toInt)
  way_y : Scalar.Fits (c.y.toInt * g.spacing.toInt)
  pixel_x : Scalar.Fits (g.exactX c)
  pixel_y : Scalar.Fits (g.exactY c)

/-- The clamp of the way from the centre does no harm: it is not clamped on the side from which the
centre brings it back. -/
@[mk_iff]
structure Unhindered : Prop where
  left : Scalar.least ≤ c.x.toInt * g.spacing.toInt ∨ g.center.x = 0
  up : c.y.toInt * g.spacing.toInt ≤ Scalar.greatest

/-- The pixel `q` lies on the way from the centre to the pixel `p`, less than a cell away. -/
structure ShortOf (p q : Pixel) : Prop where
  x_mem : q.x.toInt ∈ Set.uIcc g.center.x.toInt p.x.toInt
  y_mem : q.y.toInt ∈ Set.uIcc g.center.y.toInt p.y.toInt
  x_near : |p.x.toInt - q.x.toInt| < g.spacing.toInt
  y_near : |p.y.toInt - q.y.toInt| < g.spacing.toInt

end

variable {g : Grid} {width height spacing : Int32}

theorem proper_of_eq_ofMeasures (hg : g = ofMeasures width height spacing) (hw : 0 ≤ width)
    (hh : 0 ≤ height) : g.Proper := by
  subst hg
  refine ⟨Int32.le_iff_toInt_le.1 hw, Int32.le_iff_toInt_le.1 hh, ?_⟩
  change 0 < (if spacing ≤ 1 then 1 else spacing).toInt
  split
  · decide
  · rename_i h
    rw [Int32.le_iff_toInt_le, Int32.toInt_one] at h
    omega

namespace Proper

variable {c : Coord} {p : Pixel}

theorem toInt_half {n : Int32} (h : 0 ≤ n.toInt) :
    0 ≤ (n / 2).toInt ∧ (n / 2).toInt ≤ Scalar.greatest := by
  rw [Int32.toInt_div_of_ne_right n 2 (by decide)]
  have hfits := Scalar.fits_tdiv (Scalar.fits_toInt n) (s := 2) (by decide)
  exact ⟨Int.tdiv_nonneg h (by decide), hfits.2⟩

theorem center_x (hg : g.Proper) : 0 ≤ g.center.x.toInt ∧ g.center.x.toInt ≤ Scalar.greatest :=
  toInt_half hg.width_nonneg

theorem center_y (hg : g.Proper) : 0 ≤ g.center.y.toInt ∧ g.center.y.toInt ≤ Scalar.greatest :=
  toInt_half hg.height_nonneg

/-- To the left a pixel stops at the least way from the centre. -/
theorem toPixel_x (hg : g.Proper) (c : Coord) : (g.toPixel c).x.toInt =
    max (g.center.x.toInt + Scalar.least) (min (g.exactX c) Scalar.greatest) :=
  Scalar.toInt_clamp_add_clamp hg.center_x.1 hg.center_x.2

/-- Upward it stops at the greatest way from the centre. -/
theorem toPixel_y (hg : g.Proper) (c : Coord) : (g.toPixel c).y.toInt =
    max (g.center.y.toInt - Scalar.greatest) (min (g.exactY c) Scalar.greatest) :=
  Scalar.toInt_clamp_sub_clamp hg.center_y.1 hg.center_y.2

/-! ## Cells under pixels -/

/-- A pixel has a cell if its distance from the centre fits, also with the other sign. -/
theorem exists_readout (hg : g.Proper) (hright : Scalar.Fits (p.x.toInt - g.center.x.toInt))
    (hdown : Scalar.Fits (p.y.toInt - g.center.y.toInt))
    (hup : Scalar.Fits (g.center.y.toInt - p.y.toInt)) :
    ∃ c, g.readout p = .ok c ∧
      c.x.toInt = (p.x.toInt - g.center.x.toInt).tdiv g.spacing.toInt ∧
      c.y.toInt = (g.center.y.toInt - p.y.toInt).tdiv g.spacing.toInt := by
  have hs : g.spacing ≠ 0 := by
    intro h
    have hpos := hg.spacing_pos
    rw [h] at hpos
    exact absurd hpos (by decide)
  obtain ⟨dx, hdx⟩ := Scalar.exists_toInt_eq hright
  obtain ⟨dy, hdy⟩ := Scalar.exists_toInt_eq hdown
  obtain ⟨dy', hdy'⟩ := Scalar.exists_toInt_eq hup
  obtain ⟨x, hx⟩ := Scalar.exists_toInt_eq (Scalar.fits_tdiv hright hg.spacing_pos)
  obtain ⟨y, hy⟩ := Scalar.exists_toInt_eq (Scalar.fits_tdiv hup hg.spacing_pos)
  have hsub_x := Scalar.sub_eq_ok_iff.2 hdx
  have hsub_y := Scalar.sub_eq_ok_iff.2 hdy
  have hneg : Scalar.neg dy = .ok dy' := Scalar.neg_eq_ok_iff.2 (by omega)
  have hdiv_x : Scalar.div dx g.spacing = .ok x := (Scalar.div_eq_ok_iff hs).2 (hdx ▸ hx)
  have hdiv_y : Scalar.div dy' g.spacing = .ok y := (Scalar.div_eq_ok_iff hs).2 (hdy' ▸ hy)
  refine ⟨⟨x, y⟩, ?_, hx, hy⟩
  simp only [readout, bind, Except.bind, hsub_x, hsub_y, hneg, hdiv_x, hdiv_y]
  rfl

/-- The way to the pixel of a coordinate leads towards the coordinate, and it fits. -/
theorem way_toPixel (hg : g.Proper) (c : Coord) :
    (g.toPixel c).x.toInt - g.center.x.toInt ∈ Set.uIcc 0 (c.x.toInt * g.spacing.toInt) ∧
      g.center.y.toInt - (g.toPixel c).y.toInt ∈ Set.uIcc 0 (c.y.toInt * g.spacing.toInt) ∧
      Scalar.Fits ((g.toPixel c).x.toInt - g.center.x.toInt) ∧
      Scalar.Fits ((g.toPixel c).y.toInt - g.center.y.toInt) ∧
      Scalar.Fits (g.center.y.toInt - (g.toPixel c).y.toInt) := by
  have hcx := hg.center_x
  have hcy := hg.center_y
  rw [hg.toPixel_x, hg.toPixel_y, exactX, exactY, Set.mem_uIcc, Set.mem_uIcc]
  simp only [Scalar.Fits, Scalar.least, Scalar.greatest] at hcx hcy ⊢
  omega

/-- Where nothing is clamped, it is the exact way. -/
theorem way_of_fitsExactly (hg : g.Proper) (h : g.FitsExactly c) :
    (g.toPixel c).x.toInt - g.center.x.toInt = c.x.toInt * g.spacing.toInt ∧
      g.center.y.toInt - (g.toPixel c).y.toInt = c.y.toInt * g.spacing.toInt := by
  obtain ⟨hx, hy, hpx, hpy⟩ := h
  rw [hg.toPixel_x, hg.toPixel_y]
  simp only [exactX, exactY, Scalar.Fits, Scalar.least, Scalar.greatest] at hx hy hpx hpy ⊢
  omega

/-- The cell under the pixel of a coordinate. -/
theorem readout_toPixel (hg : g.Proper) (c : Coord) :
    ∃ d, g.readout (g.toPixel c) = .ok d ∧ d.x.toInt ∈ Set.uIcc 0 c.x.toInt ∧
      d.y.toInt ∈ Set.uIcc 0 c.y.toInt ∧ (g.FitsExactly c → d = c) := by
  obtain ⟨hx, hy, hright, hdown, hup⟩ := hg.way_toPixel c
  obtain ⟨d, hd, hdx, hdy⟩ := hg.exists_readout hright hdown hup
  refine ⟨d, hd, ?_, ?_, ?_⟩
  · rw [hdx]
    exact Scalar.tdiv_mem_uIcc hg.spacing_pos hx
  · rw [hdy]
    exact Scalar.tdiv_mem_uIcc hg.spacing_pos hy
  · intro h
    obtain ⟨hwx, hwy⟩ := hg.way_of_fitsExactly h
    rw [hwx, Int.mul_tdiv_cancel _ hg.spacing_pos.ne', Int32.toInt_inj] at hdx
    rw [hwy, Int.mul_tdiv_cancel _ hg.spacing_pos.ne', Int32.toInt_inj] at hdy
    rw [Coord.mk.injEq]
    exact ⟨hdx, hdy⟩

/-- The pixel of the cell under a pixel. -/
theorem toPixel_readout (hg : g.Proper) (hx : 0 ≤ p.x.toInt) (hy : 0 ≤ p.y.toInt) :
    ∃ c, g.readout p = .ok c ∧ g.ShortOf p (g.toPixel c) := by
  have hcx := hg.center_x
  have hcy := hg.center_y
  have hpx := Scalar.fits_toInt p.x
  have hpy := Scalar.fits_toInt p.y
  simp only [Scalar.Fits, Scalar.least, Scalar.greatest] at hcx hcy hpx hpy
  obtain ⟨c, hc, hc_x, hc_y⟩ := hg.exists_readout (p := p)
    (by simp only [Scalar.Fits, Scalar.least, Scalar.greatest]; omega)
    (by simp only [Scalar.Fits, Scalar.least, Scalar.greatest]; omega)
    (by simp only [Scalar.Fits, Scalar.least, Scalar.greatest]; omega)
  have hway_x := Scalar.tdiv_mul_spec (p.x.toInt - g.center.x.toInt) hg.spacing_pos
  have hway_y := Scalar.tdiv_mul_spec (g.center.y.toInt - p.y.toInt) hg.spacing_pos
  rw [← hc_x, Set.mem_uIcc, abs_lt] at hway_x
  rw [← hc_y, Set.mem_uIcc, abs_lt] at hway_y
  -- The pixel of the cell lies between two pixels that fit, so that it is not clamped.
  have hpixel_x : (g.toPixel c).x.toInt = g.exactX c := by
    rw [hg.toPixel_x, exactX]
    simp only [Scalar.least, Scalar.greatest]
    omega
  have hpixel_y : (g.toPixel c).y.toInt = g.exactY c := by
    rw [hg.toPixel_y, exactY]
    simp only [Scalar.greatest]
    omega
  refine ⟨c, hc, ?_, ?_, ?_, ?_⟩
  · rw [hpixel_x, exactX, Set.mem_uIcc]
    omega
  · rw [hpixel_y, exactY, Set.mem_uIcc]
    omega
  · rw [hpixel_x, exactX, abs_lt]
    omega
  · rw [hpixel_y, exactY, abs_lt]
    omega

/-- The exact pixel is found, clamped, exactly where the first clamp does no harm. -/
theorem toPixel_eq_clampedPixel_iff (hg : g.Proper) (c : Coord) :
    g.toPixel c = g.clampedPixel c ↔ g.Unhindered c := by
  have hcx := hg.center_x
  have hcy := hg.center_y
  have hzero : g.center.x = 0 ↔ g.center.x.toInt = 0 := Int32.toInt_inj.symm
  have hx : (g.toPixel c).x = (g.clampedPixel c).x ↔
      (g.toPixel c).x.toInt = max Scalar.least (min (g.exactX c) Scalar.greatest) := by
    rw [← Int32.toInt_inj, clampedPixel, Scalar.toInt_clamp]
  have hy : (g.toPixel c).y = (g.clampedPixel c).y ↔
      (g.toPixel c).y.toInt = max Scalar.least (min (g.exactY c) Scalar.greatest) := by
    rw [← Int32.toInt_inj, clampedPixel, Scalar.toInt_clamp]
  rw [Pixel.mk.injEq, hx, hy, unhindered_iff, hzero, hg.toPixel_x, hg.toPixel_y, exactX, exactY]
  simp only [Scalar.least, Scalar.greatest] at hcx hcy ⊢
  omega

end Proper

/-- A cell is read out for the pixel of every coordinate, towards the centre from it, and for every
pixel on the surface, and the pixel of that cell is towards the centre from the pixel. -/
theorem readout_inverse (hg : g = ofMeasures width height spacing) (hw : 0 ≤ width)
    (hh : 0 ≤ height) :
    (∀ c, ∃ d, g.readout (g.toPixel c) = .ok d ∧ d.x.toInt ∈ Set.uIcc 0 c.x.toInt ∧
      d.y.toInt ∈ Set.uIcc 0 c.y.toInt ∧ (g.FitsExactly c → d = c)) ∧
    ∀ p : Pixel, 0 ≤ p.x → 0 ≤ p.y → ∃ c, g.readout p = .ok c ∧ g.ShortOf p (g.toPixel c) := by
  have hproper := proper_of_eq_ofMeasures hg hw hh
  refine ⟨hproper.readout_toPixel, fun p hx hy => ?_⟩
  exact hproper.toPixel_readout (Int32.le_iff_toInt_le.1 hx) (Int32.le_iff_toInt_le.1 hy)

/-- A coordinate is read back from a pixel far off the surface, and the pixel at the far end of the
first row has a cell. -/
theorem readout_of_farOff :
    let c : Coord := ⟨53687081, -53687083⟩
    let p : Pixel := ⟨2147483647, 0⟩
    (0 : Int32) ≤ 800 ∧ (0 : Int32) ≤ 600 ∧ standard.FitsExactly c ∧ 0 ≤ p.x ∧ 0 ≤ p.y ∧
      standard.readout (standard.toPixel c) = .ok c ∧
      ∃ d, standard.readout p = .ok d ∧ standard.ShortOf p (standard.toPixel d) := by
  have hc : standard.FitsExactly ⟨53687081, -53687083⟩ :=
    ⟨by decide, by decide, by decide, by decide⟩
  have hg : standard = ofMeasures 800 600 40 := rfl
  have h := readout_inverse hg (by decide) (by decide)
  refine ⟨by decide, by decide, hc, by decide, by decide, ?_, h.2 _ (by decide) (by decide)⟩
  obtain ⟨d, hd, -, -, heq⟩ := h.1 ⟨53687081, -53687083⟩
  rw [heq hc] at hd
  exact hd

/-! ## Marks of a drawing -/

end Grid

/-- Whether `holds` is true of each coordinate of a primitive. -/
def Primitive.All (holds : Coord → Prop) : Primitive → Prop
  | point _ c => holds c
  | segment a b => holds a ∧ holds b

namespace Grid

/-- The mark of a primitive at its exact pixels, clamped. -/
def clampedMark (g : Grid) : Primitive → Mark
  | .point name c => .point name (g.clampedPixel c)
  | .segment a b => .line (g.clampedPixel a) (g.clampedPixel b)

theorem Proper.mark_eq_clampedMark_iff {g : Grid} (hg : g.Proper) (p : Primitive) :
    g.mark p = g.clampedMark p ↔ p.All g.Unhindered := by
  cases p with
  | point name c =>
    rw [mark, clampedMark, Mark.point.injEq, hg.toPixel_eq_clampedPixel_iff]
    exact and_iff_right rfl
  | segment a b =>
    rw [mark, clampedMark, Mark.line.injEq, hg.toPixel_eq_clampedPixel_iff,
      hg.toPixel_eq_clampedPixel_iff]
    exact Iff.rfl

/-- A pixel is the exact one, clamped not to the range of pixels but to the range that the first
clamp leaves of it. So a drawing is plotted at its exact pixels exactly if the first clamp does no
harm to any of them. -/
theorem toPixel_stops {g : Grid} {width height spacing : Int32}
    (hg : g = ofMeasures width height spacing) (hw : 0 ≤ width) (hh : 0 ≤ height) :
    (∀ c, (g.toPixel c).x.toInt =
        max (g.center.x.toInt + Scalar.least) (min (g.exactX c) Scalar.greatest) ∧
      (g.toPixel c).y.toInt =
        max (g.center.y.toInt - Scalar.greatest) (min (g.exactY c) Scalar.greatest) ∧
      (g.toPixel c = g.clampedPixel c ↔ g.Unhindered c)) ∧
    ∀ ps, g.plot ps = ps.map g.clampedMark ↔ ∀ p ∈ ps, p.All g.Unhindered := by
  have hproper := proper_of_eq_ofMeasures hg hw hh
  refine ⟨fun c => ⟨hproper.toPixel_x c, hproper.toPixel_y c,
    hproper.toPixel_eq_clampedPixel_iff c⟩, fun ps => ?_⟩
  rw [plot, List.map_inj_left]
  exact forall₂_congr fun p _ => hproper.mark_eq_clampedMark_iff p

/-- Two coordinates are plotted at their exact pixels, and with the next one to the left of them the
first clamp sets in. -/
theorem stops_of_farLeft :
    let a : Coord := ⟨-53687091, 53687091⟩
    let b : Coord := ⟨-53687092, 0⟩
    (0 : Int32) ≤ 800 ∧ (0 : Int32) ≤ 600 ∧ standard.Unhindered a ∧ ¬ standard.Unhindered b ∧
      standard.plot [.segment ⟨3, 1⟩ a] = [Primitive.segment ⟨3, 1⟩ a].map standard.clampedMark ∧
      standard.plot [.segment a b] ≠ [Primitive.segment a b].map standard.clampedMark ∧
      (standard.toPixel b).x.toInt = 400 + Scalar.least := by
  have hg : standard = ofMeasures 800 600 40 := rfl
  have h := toPixel_stops hg (by decide) (by decide)
  have horigin : standard.Unhindered ⟨3, 1⟩ := ⟨by decide, by decide⟩
  have ha : standard.Unhindered ⟨-53687091, 53687091⟩ := ⟨by decide, by decide⟩
  have hb : ¬ standard.Unhindered ⟨-53687092, 0⟩ := by
    rintro ⟨hleft, -⟩
    exact absurd hleft (by decide)
  refine ⟨by decide, by decide, ha, hb, ?_, ?_, (h.1 _).1.trans (by decide)⟩
  · exact (h.2 _).2 (List.forall_mem_singleton.2 ⟨horigin, ha⟩)
  · intro heq
    exact hb (List.forall_mem_singleton.1 ((h.2 _).1 heq)).2

/-- The way is clamped by 32 pixels before the centre brings it back, so that the mark is moved
though its exact pixel fits. -/
theorem moved_though_fits :
    let c : Coord := ⟨-53687092, 0⟩
    Scalar.Fits (standard.exactX c) ∧ Scalar.Fits (standard.exactY c) ∧
      standard.toPixel c ≠ standard.clampedPixel c ∧
      standard.plot [.point "A" c] = [.point "A" ⟨-2147483248, 300⟩] ∧
      [Primitive.point "A" c].map standard.clampedMark = [.point "A" ⟨-2147483280, 300⟩] := by
  decide

/-- On the way up the same happens. -/
example :
    let c : Coord := ⟨0, 53687092⟩
    Scalar.Fits (standard.exactY c) ∧ standard.exactY c = -2147483380 ∧
      standard.toPixel c = ⟨400, -2147483347⟩ := by
  decide

end Grid

end Planimetry
