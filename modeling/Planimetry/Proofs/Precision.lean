import Mathlib.Data.Rat.Floor
import Planimetry.Rounding

/-!
# How far rounding leads astray

A number is close to another one if some roundings could have led from the one to the other. This
relation can be chained, and it goes through products and quotients: all that is needed of a
calculation is the number of its roundings.

## Main definitions

* `Rounding.kept`: what is kept of a number in one rounding, at least.
* `Rounding.Close`: two numbers that are a number of roundings apart.

Main statements: `Rounding.close_round` and `Rounding.close_root`, one rounding leads no further
than the relation says.
-/

namespace Planimetry

namespace Rounding

/-! ## Powers of two -/

theorem two_pow_toNat_div (e : Int) : (2 : ℚ) ^ e.toNat / 2 ^ (-e).toNat = 2 ^ e := by
  obtain ⟨n, rfl | rfl⟩ := e.eq_nat_or_neg
  · simp
  · simp

theorem scaled_eq (m : Nat) (e : Int) : scaled m e = m * 2 ^ e := by
  rw [scaled, Rat.mkRat_eq_div, Nat.shiftLeft_eq, Nat.shiftLeft_eq, one_mul, ← two_pow_toNat_div]
  push_cast
  ring

/-- Numerator and denominator are shifted, the one or the other. -/
theorem shifted_ratio (n d : Nat) (s : Int) :
    ((n <<< s.toNat : Nat) : ℚ) / (d <<< (-s).toNat : Nat) = n / d * 2 ^ s := by
  rw [Nat.shiftLeft_eq, Nat.shiftLeft_eq, ← two_pow_toNat_div]
  push_cast
  ring

theorem two_zpow_leading_le {n d : Nat} (hn : n ≠ 0) (hd : d ≠ 0) :
    (2 : ℚ) ^ leading n d ≤ n / d := by
  have hd' : (0 : ℚ) < d := by positivity
  unfold leading
  dsimp only
  split
  · rename_i h
    rw [← two_pow_toNat_div, div_le_div_iff₀ (by positivity) hd', mul_comm]
    rw [Nat.shiftLeft_eq, Nat.shiftLeft_eq] at h
    exact_mod_cast h
  · -- The binary lengths alone tell the leading digit but for one place.
    have hlow : (2 : ℚ) ^ n.log2 ≤ n := by exact_mod_cast Nat.log2_self_le hn
    have hhigh : (d : ℚ) ≤ 2 ^ (d.log2 + 1) := by exact_mod_cast Nat.lt_log2_self.le
    have hexp : (n.log2 : Int) - d.log2 - 1 = n.log2 - (d.log2 + 1 : Nat) := by
      push_cast
      ring
    rw [hexp, zpow_sub₀ two_ne_zero, zpow_natCast, zpow_natCast]
    exact div_le_div₀ (by positivity) hlow hd' hhigh

/-! ## One rounding -/

theorem nearest_spec (n : Nat) {d : Nat} (hd : 0 < d) :
    2 * (nearest n d * d) ≤ 2 * n + d ∧ 2 * n ≤ 2 * (nearest n d * d) + d := by
  have hn := Nat.div_add_mod n d
  have hr := Nat.mod_lt n hd
  rw [mul_comm] at hn
  unfold nearest
  dsimp only
  split_ifs
  all_goals
    try rw [Nat.add_mul]
    omega

/-- A whole number is found to half a unit. -/
theorem abs_nearest_sub_le (n : Nat) {d : Nat} (hd : 0 < d) :
    |(nearest n d : ℚ) - n / d| ≤ 1 / 2 := by
  have hd' : (0 : ℚ) < d := by exact_mod_cast hd
  obtain ⟨hlow, hhigh⟩ := nearest_spec n hd
  have hlow' : 2 * ((nearest n d : ℚ) * d) ≤ 2 * n + d := by exact_mod_cast hlow
  have hhigh' : 2 * (n : ℚ) ≤ 2 * ((nearest n d : ℚ) * d) + d := by exact_mod_cast hhigh
  have hsub : (nearest n d : ℚ) - n / d = (nearest n d * d - n) / d := by
    field_simp
  rw [hsub, abs_div, abs_of_pos hd', div_le_iff₀ hd', abs_le]
  constructor <;> linarith

theorem abs_roundRatio_sub_le {n d : Nat} (hn : n ≠ 0) (hd : d ≠ 0) :
    |roundRatio n d - n / d| ≤ n / d / 2 ^ 53 := by
  rw [roundRatio, if_neg hn, scaled_eq]
  generalize hs : 52 - leading n d = s
  have hshift : d <<< (-s).toNat ≠ 0 := by
    rw [Nat.shiftLeft_eq]
    positivity
  have hnearest := abs_nearest_sub_le (n <<< s.toNat) (Nat.pos_of_ne_zero hshift)
  rw [shifted_ratio] at hnearest
  have hunit : (2 : ℚ) ^ (-s) = 2 ^ leading n d / 2 ^ 52 := by
    rw [← hs, neg_sub, zpow_sub₀ two_ne_zero]
    norm_num
  have hpos : (0 : ℚ) < 2 ^ (-s) := zpow_pos two_pos _
  have hcancel : (2 : ℚ) ^ s * 2 ^ (-s) = 1 := by
    rw [← zpow_add₀ two_ne_zero, add_neg_cancel, zpow_zero]
  generalize nearest (n <<< s.toNat) (d <<< (-s).toNat) = m at hnearest
  calc |(m : ℚ) * 2 ^ (-s) - n / d|
      = |((m : ℚ) - n / d * 2 ^ s) * 2 ^ (-s)| := by
        rw [sub_mul, mul_assoc ((n : ℚ) / d), hcancel, mul_one]
    _ = |(m : ℚ) - n / d * 2 ^ s| * 2 ^ (-s) := by
        rw [abs_mul, abs_of_pos hpos]
    _ ≤ 1 / 2 * 2 ^ (-s) := mul_le_mul_of_nonneg_right hnearest hpos.le
    _ = 2 ^ leading n d / 2 ^ 53 := by
        rw [hunit]
        ring
    _ ≤ n / d / 2 ^ 53 := by
        gcongr
        exact two_zpow_leading_le hn hd

/-! ## Signs and whole parts -/

variable {q x x' y y' z : ℚ} {j k : Nat}

theorem round_neg (q : ℚ) : round (-q) = -round q := by
  unfold round
  rw [Rat.num_neg_eq_neg_num, Rat.den_neg_eq_den, Int.natAbs_neg]
  rcases lt_trichotomy q.num 0 with h | h | h
  · rw [if_neg (by omega), if_pos h, neg_neg]
  · rw [h]
    rfl
  · rw [if_pos (by omega), if_neg (by omega)]

theorem round_zero : round 0 = 0 := rfl

theorem truncate_neg (q : ℚ) : truncate (-q) = -truncate q := by
  rw [truncate, truncate, Rat.num_neg_eq_neg_num, Rat.den_neg_eq_den, Int.neg_tdiv]

theorem truncate_of_nonneg (h : 0 ≤ q) : truncate q = ⌊q⌋ := by
  rw [truncate, Rat.floor_def', Int.tdiv_eq_ediv_of_nonneg (Rat.num_nonneg.2 h)]

theorem truncate_nonneg (h : 0 ≤ q) : 0 ≤ truncate q := by
  rw [truncate_of_nonneg h]
  exact Int.floor_nonneg.2 h

theorem truncate_le (h : 0 ≤ q) : truncate q ≤ q := by
  rw [truncate_of_nonneg h]
  exact Int.floor_le q

theorem lt_truncate_add_one (h : 0 ≤ q) : q < truncate q + 1 := by
  rw [truncate_of_nonneg h]
  exact Int.lt_floor_add_one q

theorem abs_truncate (q : ℚ) : |truncate q| = ⌊|q|⌋ := by
  rcases le_total 0 q with hq | hq
  · rw [truncate_of_nonneg hq, abs_of_nonneg hq, abs_of_nonneg (Int.floor_nonneg.2 hq)]
  · have hneg := neg_nonneg.2 hq
    rw [← abs_neg, ← truncate_neg, truncate_of_nonneg hneg, abs_of_nonpos hq,
      abs_of_nonneg (Int.floor_nonneg.2 hneg)]

/-! ## Several roundings -/

/-- What is kept of a number in one rounding, at least. -/
def kept : ℚ := 1 - 1 / 2 ^ 53

theorem kept_pos : 0 < kept := by norm_num [kept]

theorem kept_le_one : kept ≤ 1 := by norm_num [kept]

theorem kept_pow_pos (k : Nat) : 0 < kept ^ k := pow_pos kept_pos k

theorem kept_pow_le_one (k : Nat) : kept ^ k ≤ 1 := pow_le_one₀ kept_pos.le kept_le_one

/-- The numbers are `k` roundings apart: none of them is less than what `k` roundings keep of the
other one. -/
structure Close (k : Nat) (x y : ℚ) : Prop where
  lower : y * kept ^ k ≤ x
  upper : x * kept ^ k ≤ y

namespace Close

theorem refl (x : ℚ) : Close 0 x x := ⟨by simp, by simp⟩

theorem mono (h : Close j x y) (hjk : j ≤ k) (hy : 0 ≤ y) : Close k x y := by
  have hpow : kept ^ k ≤ kept ^ j := pow_le_pow_of_le_one kept_pos.le kept_le_one hjk
  have hx : 0 ≤ x := (mul_nonneg hy (kept_pow_pos j).le).trans h.lower
  exact ⟨(mul_le_mul_of_nonneg_left hpow hy).trans h.lower,
    (mul_le_mul_of_nonneg_left hpow hx).trans h.upper⟩

theorem pos (h : Close k x y) (hy : 0 < y) : 0 < x :=
  (mul_pos hy (kept_pow_pos k)).trans_le h.lower

theorem trans (h : Close j x y) (h' : Close k y z) : Close (j + k) x z where
  lower := calc
    z * kept ^ (j + k) = z * kept ^ k * kept ^ j := by ring
    _ ≤ y * kept ^ j := mul_le_mul_of_nonneg_right h'.lower (kept_pow_pos j).le
    _ ≤ x := h.lower
  upper := calc
    x * kept ^ (j + k) = x * kept ^ j * kept ^ k := by ring
    _ ≤ y * kept ^ k := mul_le_mul_of_nonneg_right h.upper (kept_pow_pos k).le
    _ ≤ z := h'.upper

theorem mul (h : Close j x y) (h' : Close k x' y') (hy : 0 < y) (hy' : 0 < y') :
    Close (j + k) (x * x') (y * y') where
  lower := calc
    y * y' * kept ^ (j + k) = y * kept ^ j * (y' * kept ^ k) := by ring
    _ ≤ x * x' := mul_le_mul h.lower h'.lower (mul_pos hy' (kept_pow_pos k)).le (h.pos hy).le
  upper := calc
    x * x' * kept ^ (j + k) = x * kept ^ j * (x' * kept ^ k) := by ring
    _ ≤ y * y' := mul_le_mul h.upper h'.upper (mul_pos (h'.pos hy') (kept_pow_pos k)).le hy.le

theorem inv (h : Close k x y) (hy : 0 < y) : Close k x⁻¹ y⁻¹ where
  lower := by
    rw [inv_mul_eq_div, div_le_iff₀ hy, le_inv_mul_iff₀ (h.pos hy)]
    exact h.upper
  upper := by
    rw [inv_mul_eq_div, div_le_iff₀ (h.pos hy), le_inv_mul_iff₀ hy]
    exact h.lower

theorem div (h : Close j x y) (h' : Close k x' y') (hy : 0 < y) (hy' : 0 < y') :
    Close (j + k) (x / x') (y / y') := by
  rw [div_eq_mul_inv, div_eq_mul_inv]
  exact h.mul (h'.inv hy') hy (inv_pos.2 hy')

theorem sq (h : Close k x y) (hy : 0 < y) : Close (2 * k) (x ^ 2) (y ^ 2) := by
  rw [pow_two, pow_two, two_mul]
  exact h.mul h hy hy

theorem const_add (h : Close k x y) (hz : 0 ≤ z) : Close k (z + x) (z + y) where
  lower := calc
    (z + y) * kept ^ k = z * kept ^ k + y * kept ^ k := add_mul ..
    _ ≤ z + x := add_le_add (mul_le_of_le_one_right hz (kept_pow_le_one k)) h.lower
  upper := calc
    (z + x) * kept ^ k = z * kept ^ k + x * kept ^ k := add_mul ..
    _ ≤ z + y := add_le_add (mul_le_of_le_one_right hz (kept_pow_le_one k)) h.upper

theorem const_mul (h : Close k x y) (hz : 0 ≤ z) : Close k (z * x) (z * y) where
  lower := by
    rw [mul_assoc]
    exact mul_le_mul_of_nonneg_left h.lower hz
  upper := by
    rw [mul_assoc]
    exact mul_le_mul_of_nonneg_left h.upper hz

end Close

/-- One rounding leads to a close number. -/
theorem close_round (hq : 0 < q) : Close 1 (round q) q := by
  have hnum : 0 < q.num := Rat.num_pos.2 hq
  have hq_eq : ((q.num.natAbs : Nat) : ℚ) / q.den = q := by
    rw [Nat.cast_natAbs, abs_of_pos hnum, Rat.num_div_den]
  have hround : round q = roundRatio q.num.natAbs q.den := if_neg (by omega)
  have herror := abs_roundRatio_sub_le (n := q.num.natAbs) (d := q.den) (by omega) q.den_nz
  rw [hq_eq, ← hround, abs_le] at herror
  constructor
  · rw [pow_one, kept]
    linarith
  · rw [pow_one, kept]
    linarith

theorem round_pos (hq : 0 < q) : 0 < round q := (close_round hq).pos hq

theorem round_eq_zero_iff : round q = 0 ↔ q = 0 := by
  constructor
  · intro h
    rcases lt_trichotomy q 0 with hq | hq | hq
    · have := round_pos (neg_pos.2 hq)
      rw [round_neg, h] at this
      simp at this
    · exact hq
    · exact absurd h (round_pos hq).ne'
  · rintro rfl
    exact round_zero

/-- Whatever its sign, a number is only multiplied in a rounding. -/
theorem exists_round_eq_mul (q : ℚ) : ∃ r, Close 1 r 1 ∧ round q = q * r := by
  have hpositive {q : ℚ} (hq : 0 < q) : ∃ r, Close 1 r 1 ∧ round q = q * r := by
    refine ⟨round q / q, ?_, (mul_div_cancel₀ (round q) hq.ne').symm⟩
    have h := (close_round hq).div (.refl q) hq hq
    rwa [div_self hq.ne'] at h
  rcases lt_trichotomy q 0 with hq | rfl | hq
  · obtain ⟨r, hr, heq⟩ := hpositive (neg_pos.2 hq)
    refine ⟨r, hr, ?_⟩
    rw [round_neg, neg_mul] at heq
    exact neg_inj.1 heq
  · exact ⟨1, (Close.refl 1).mono (Nat.zero_le 1) zero_le_one, (zero_mul 1).symm⟩
  · exact hpositive hq

/-! ## Roots -/

theorem rootDigits_eq_sqrt {n r : Nat} (k : Nat) (hr : r * r ≤ n)
    (hn : n < (r + 2 ^ k) * (r + 2 ^ k)) : rootDigits n k r = Nat.sqrt n := by
  induction k generalizing r with
  | zero => exact Nat.eq_sqrt.2 ⟨hr, hn⟩
  | succ k ih =>
    unfold rootDigits
    dsimp only
    rw [Nat.one_shiftLeft]
    split
    · rename_i h
      apply ih h
      rw [add_assoc, ← two_mul, ← pow_succ']
      exact hn
    · rename_i h
      exact ih hr (Nat.lt_of_not_le h)

theorem wholeRoot_eq_sqrt (n : Nat) : wholeRoot n = Nat.sqrt n := by
  apply rootDigits_eq_sqrt
  · exact Nat.zero_le n
  · rw [zero_add, ← pow_add]
    exact Nat.lt_log2_self.trans_le (Nat.pow_le_pow_right two_pos (by omega))

/-- Rounded down, a large root is at most half a unit below the exact one. -/
theorem close_sq_of_below {r v : ℚ} (hr : 2 ^ 52 ≤ r) (hlow : r ^ 2 ≤ v)
    (hhigh : v ≤ (r + 1 / 2) ^ 2) : Close 2 (r ^ 2) v where
  lower := calc
    v * kept ^ 2 ≤ (r + 1 / 2) ^ 2 * kept ^ 2 :=
      mul_le_mul_of_nonneg_right hhigh (kept_pow_pos 2).le
    _ = ((r + 1 / 2) * kept) ^ 2 := by ring
    _ ≤ r ^ 2 := by
      have hkept : (r + 1 / 2) * kept ≤ r := by
        rw [kept]
        linarith
      have hpos : 0 ≤ (r + 1 / 2) * kept := mul_nonneg (by linarith) kept_pos.le
      exact pow_le_pow_left₀ hpos hkept 2
  upper := (mul_le_of_le_one_right (sq_nonneg r) (kept_pow_le_one 2)).trans hlow

/-- Rounded up, it is at most half a unit above the exact one. -/
theorem close_sq_of_above {r v : ℚ} (hr : 2 ^ 52 ≤ r) (hlow : (r - 1 / 2) ^ 2 ≤ v)
    (hhigh : v ≤ r ^ 2) : Close 2 (r ^ 2) v where
  lower := calc
    v * kept ^ 2 ≤ v := mul_le_of_le_one_right ((sq_nonneg _).trans hlow) (kept_pow_le_one 2)
    _ ≤ r ^ 2 := hhigh
  upper := calc
    r ^ 2 * kept ^ 2 = (r * kept) ^ 2 := by ring
    _ ≤ (r - 1 / 2) ^ 2 := by
      have hkept : r * kept ≤ r - 1 / 2 := by
        rw [kept]
        linarith
      have hpos : 0 ≤ r * kept := mul_nonneg (by linarith) kept_pos.le
      exact pow_le_pow_left₀ hpos hkept 2
    _ ≤ v := hlow

/-- What a root is measured by before it is rounded: it is scaled so that its whole part has all the
digits that are kept. -/
theorem two_pow_le_scaled {n d : Nat} (hn : n ≠ 0) (hd : d ≠ 0) :
    (2 : ℚ) ^ 104 ≤ n / d * 2 ^ (2 * (52 - (leading n d).fdiv 2)) := by
  have hlead := two_zpow_leading_le hn hd
  have hexp : 104 ≤ leading n d + 2 * (52 - (leading n d).fdiv 2) := by
    rw [Int.fdiv_eq_ediv_of_nonneg _ (by decide)]
    omega
  calc (2 : ℚ) ^ 104 = 2 ^ (104 : Int) := (zpow_natCast 2 104).symm
    _ ≤ 2 ^ (leading n d + 2 * (52 - (leading n d).fdiv 2)) :=
        zpow_le_zpow_right₀ one_le_two hexp
    _ = 2 ^ leading n d * 2 ^ (2 * (52 - (leading n d).fdiv 2)) := zpow_add₀ two_ne_zero _ _
    _ ≤ n / d * 2 ^ (2 * (52 - (leading n d).fdiv 2)) :=
        mul_le_mul_of_nonneg_right hlead (zpow_pos two_pos _).le

/-- The nearest whole root is the whole part of the exact root or one more, as the middle between
them tells. -/
theorem close_sq_nearest {n d r : Nat} (hd : 0 < d) (hr : 2 ^ 52 ≤ r) (hlow : r * r * d ≤ n)
    (hhigh : n < (r + 1) * (r + 1) * d) :
    let half := (2 * r + 1) * (2 * r + 1) * d
    let m := if 4 * n < half then r else if half < 4 * n then r + 1 else r + r % 2
    0 < m ∧ Close 2 ((m : ℚ) ^ 2) (n / d) := by
  intro half m
  have hd' : (0 : ℚ) < d := by exact_mod_cast hd
  have hr' : (2 : ℚ) ^ 52 ≤ r := by exact_mod_cast hr
  have hlow' : (r : ℚ) ^ 2 ≤ n / d := by
    rw [le_div_iff₀ hd', pow_two]
    exact_mod_cast hlow
  have hhigh' : (n : ℚ) / d ≤ ((r + 1 : Nat) : ℚ) ^ 2 := by
    rw [div_le_iff₀ hd', pow_two]
    exact_mod_cast hhigh.le
  have hbelow (h : 4 * n ≤ half) : (n : ℚ) / d ≤ (r + 1 / 2) ^ 2 := by
    have h' : 4 * (n : ℚ) ≤ (2 * r + 1) * (2 * r + 1) * d := by exact_mod_cast h
    rw [div_le_iff₀ hd']
    linarith
  have habove (h : half ≤ 4 * n) : (((r + 1 : Nat) : ℚ) - 1 / 2) ^ 2 ≤ n / d := by
    have h' : (2 * (r : ℚ) + 1) * (2 * r + 1) * d ≤ 4 * n := by exact_mod_cast h
    rw [le_div_iff₀ hd']
    push_cast
    linarith
  have hm : m = r ∧ 4 * n ≤ half ∨ m = r + 1 ∧ half ≤ 4 * n := by
    dsimp only [m]
    split_ifs
    all_goals omega
  rcases hm with ⟨hm, h⟩ | ⟨hm, h⟩
  · rw [hm]
    exact ⟨by omega, close_sq_of_below hr' hlow' (hbelow h)⟩
  · rw [hm]
    refine ⟨by omega, close_sq_of_above ?_ (habove h) hhigh'⟩
    push_cast
    linarith

/-- The square of a rounded root is close to the number. -/
theorem close_root (hq : 0 < q) : 0 < root q ∧ Close 2 (root q ^ 2) q := by
  have hnum : 0 < q.num := Rat.num_pos.2 hq
  have hn : q.num.natAbs ≠ 0 := by omega
  have hq_eq : ((q.num.natAbs : Nat) : ℚ) / q.den = q := by
    rw [Nat.cast_natAbs, abs_of_pos hnum, Rat.num_div_den]
  have hlarge := two_pow_le_scaled hn q.den_nz
  unfold root
  dsimp only
  generalize 52 - (leading q.num.natAbs q.den).fdiv 2 = s at hlarge ⊢
  have hratio := shifted_ratio q.num.natAbs q.den (2 * s)
  rw [hq_eq] at hlarge hratio
  rw [neg_mul, wholeRoot_eq_sqrt]
  have hd : 0 < q.den <<< (-(2 * s)).toNat := by
    rw [Nat.shiftLeft_eq]
    exact Nat.mul_pos q.den_pos (Nat.two_pow_pos _)
  generalize q.num.natAbs <<< (2 * s).toNat = n at hratio ⊢
  generalize q.den <<< (-(2 * s)).toNat = d at hratio hd ⊢
  rw [← hratio, le_div_iff₀ (by exact_mod_cast hd)] at hlarge
  have hwhole : 2 ^ 104 ≤ n / d := (Nat.le_div_iff_mul_le hd).2 (by exact_mod_cast hlarge)
  have hr : 2 ^ 52 ≤ Nat.sqrt (n / d) := Nat.le_sqrt.2 (le_trans (by norm_num) hwhole)
  have hlow := (Nat.le_div_iff_mul_le hd).1 (Nat.sqrt_le (n / d))
  have hhigh := (Nat.div_lt_iff_lt_mul hd).1 (Nat.lt_succ_sqrt (n / d))
  obtain ⟨hpos, hclose⟩ := close_sq_nearest hd hr hlow hhigh
  have hunscale : (n : ℚ) / d * (2 ^ (-s)) ^ 2 = q := by
    rw [hratio, mul_assoc, ← zpow_natCast, ← zpow_mul, ← zpow_add₀ two_ne_zero]
    simp [mul_comm]
  rw [scaled_eq]
  have hunit : (0 : ℚ) < 2 ^ (-s) := zpow_pos two_pos _
  refine ⟨mul_pos (by exact_mod_cast hpos) hunit, ?_⟩
  rw [← hunscale, mul_pow, mul_comm, mul_comm ((n : ℚ) / d)]
  exact hclose.const_mul (sq_nonneg _)

end Rounding

end Planimetry
