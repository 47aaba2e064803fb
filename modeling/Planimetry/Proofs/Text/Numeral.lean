import Mathlib.Data.Nat.Digits.Defs
import Planimetry.Text.Numeral

/-!
# Printed numbers

Digits are read to the number that they stand for, as long as it lies in the range. So a number of
the range is read back from the way it is printed.

Main statement: `readNumeral_toString`.
-/

namespace Planimetry.Text

theorem isAsciiDigit_eq_isDigit (c : Char) : isAsciiDigit c = c.isDigit := by
  simp only [isAsciiDigit, Char.isDigit, ge_iff_le, Char.le_def]

theorem digitValue?_of_isDigit {c : Char} (h : c.isDigit) :
    digitValue? c = some (c.toNat - '0'.toNat) := by
  rw [digitValue?, isAsciiDigit_eq_isDigit, if_pos h]

/-- Further digits never make a number smaller. -/
theorem le_ofDigitChars (cs : List Char) (a : Nat) : a ≤ Nat.ofDigitChars 10 cs a := by
  induction cs generalizing a with
  | nil => exact Nat.le_refl a
  | cons c cs ih =>
    rw [Nat.ofDigitChars_cons]
    have := ih (10 * a + (c.toNat - '0'.toNat))
    omega

/-- Digits are read to the number that they make behind `a`, unless it is too large. -/
theorem digitsUpTo_of_digits {cs : List Char} (hi : Int) {a : Nat} (h : ∀ c ∈ cs, c.isDigit)
    (ha : (a : Int) ≤ hi) :
    digitsUpTo hi a cs =
      if (Nat.ofDigitChars 10 cs a : Int) ≤ hi then .ok (Nat.ofDigitChars 10 cs a : Int)
      else .error .tooLarge := by
  induction cs generalizing a with
  | nil => simp [digitsUpTo, ha]
  | cons c cs ih =>
    have hcs := le_ofDigitChars cs (10 * a + (c.toNat - '0'.toNat))
    have hnext : (10 * (a : Int) + ((c.toNat - '0'.toNat : Nat) : Int)) =
        ((10 * a + (c.toNat - '0'.toNat) : Nat) : Int) := by push_cast; rfl
    simp only [digitsUpTo, digitValue?_of_isDigit (h c List.mem_cons_self), Nat.ofDigitChars_cons,
      hnext]
    split
    · exact ih (fun d hd => h d (List.mem_cons_of_mem c hd)) ‹_›
    · rw [if_neg (by omega)]

/-- The same below zero. -/
theorem digitsDownTo_of_digits {cs : List Char} (lo : Int) {a : Nat} (h : ∀ c ∈ cs, c.isDigit)
    (ha : lo ≤ -(a : Int)) :
    digitsDownTo lo (-a) cs =
      if lo ≤ -(Nat.ofDigitChars 10 cs a : Int) then .ok (-(Nat.ofDigitChars 10 cs a : Int))
      else .error .tooSmall := by
  induction cs generalizing a with
  | nil => simp [digitsDownTo, ha]
  | cons c cs ih =>
    have hcs := le_ofDigitChars cs (10 * a + (c.toNat - '0'.toNat))
    have hnext : (10 * (-(a : Int)) - ((c.toNat - '0'.toNat : Nat) : Int)) =
        -((10 * a + (c.toNat - '0'.toNat) : Nat) : Int) := by push_cast; ring
    simp only [digitsDownTo, digitValue?_of_isDigit (h c List.mem_cons_self), Nat.ofDigitChars_cons,
      hnext]
    split
    · exact ih (fun d hd => h d (List.mem_cons_of_mem c hd)) ‹_›
    · rw [if_neg (by omega)]

/-! ## Signs -/

theorem readNumeral_of_digits (lo hi : Int) {cs : List Char} (hcs : cs ≠ [])
    (h : ∀ c ∈ cs, c.isDigit) : readNumeral lo hi cs = digitsUpTo hi 0 cs := by
  obtain ⟨c, cs, rfl⟩ := List.exists_cons_of_ne_nil hcs
  have hc : c.isDigit := h c List.mem_cons_self
  have hplus : c ≠ '+' := by rintro rfl; exact absurd hc (by decide)
  have hminus : c ≠ '-' := by rintro rfl; exact absurd hc (by decide)
  simp [readNumeral, hplus, hminus]

theorem readNumeral_minus {lo hi : Int} {cs : List Char} (hcs : cs ≠ []) (hlo : lo < 0) :
    readNumeral lo hi ('-' :: cs) = digitsDownTo lo 0 cs := by
  obtain ⟨c, cs, rfl⟩ := List.exists_cons_of_ne_nil hcs
  simp [readNumeral, hlo]

theorem isDigit_of_mem_toDigits {n : Nat} {c : Char} (h : c ∈ Nat.toDigits 10 n) : c.isDigit :=
  Nat.isDigit_of_mem_toDigits (by decide) (by decide) h

theorem toList_toString_natCast (n : Nat) : (toString (n : Int)).toList = Nat.toDigits 10 n := by
  change (Nat.repr n).toList = _
  simp [Nat.repr]

theorem toList_toString_negSucc (n : Nat) :
    (toString (Int.negSucc n)).toList = '-' :: Nat.toDigits 10 (n + 1) := by
  change ("-" ++ Nat.repr (n + 1)).toList = _
  simp [Nat.repr]

/-- A number of the range is read back from the way it is printed. -/
theorem readNumeral_toString {lo hi n : Int} (hlo : lo ≤ n) (hhi : n ≤ hi) (h0 : 0 ≤ hi)
    (h1 : lo ≤ 0) : readNumeral lo hi (toString n).toList = .ok n := by
  cases n with
  | ofNat n =>
    have hread := digitsUpTo_of_digits hi (fun c => isDigit_of_mem_toDigits (n := n)) h0
    rw [Nat.ofDigitChars_ten_toDigits, if_pos (by exact hhi)] at hread
    change readNumeral lo hi (toString (n : Int)).toList = _
    rw [toList_toString_natCast, readNumeral_of_digits lo hi Nat.toDigits_ne_nil
      fun c => isDigit_of_mem_toDigits]
    exact hread
  | negSucc n =>
    have hneg : Int.negSucc n = -((n + 1 : Nat) : Int) := rfl
    have hread := digitsDownTo_of_digits lo (a := 0)
      (fun c => isDigit_of_mem_toDigits (n := n + 1)) h1
    rw [Nat.ofDigitChars_ten_toDigits, ← hneg, if_pos hlo] at hread
    rw [toList_toString_negSucc, readNumeral_minus Nat.toDigits_ne_nil (by omega)]
    exact hread

/-- What a printed number is written with. -/
theorem mem_toList_toString {n : Int} {c : Char} (h : c ∈ (toString n).toList) :
    c = '-' ∨ c.isDigit := by
  cases n with
  | ofNat n =>
    change c ∈ (toString (n : Int)).toList at h
    rw [toList_toString_natCast] at h
    exact .inr (isDigit_of_mem_toDigits h)
  | negSucc n =>
    rw [toList_toString_negSucc, List.mem_cons] at h
    exact h.imp_right isDigit_of_mem_toDigits

end Planimetry.Text
