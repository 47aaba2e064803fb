import Mathlib.Data.UInt
import Mathlib.Logic.Function.Iterate
import Mathlib.Tactic.Ring
import Planimetry.Tape.Recurrence

/-!
# Scripted tapes go through all words

Behind its listed words a scripted tape goes on by a recurrence modulo 2 ^ 32, whose multiplier is
one more than a multiple of four and whose increment is odd. So 2 ^ k steps of it change a word by
an odd multiple of 2 ^ k, and from every word all others are reached.

Main statement: `Tape.exists_scriptedWord_eq`, each word stands behind each place of a scripted
tape.
-/

namespace Planimetry

namespace Tape

open Function
open scoped UInt32.CommRing

/-! ## Steps of the recurrence -/

/-- 2 ^ k steps of the recurrence in one. -/
theorem iterate_successor_two_pow (k : Nat) :
    ∃ a c : UInt32, ∀ v, successor^[2 ^ k] v = (1 + 2 ^ (k + 2) * a) * v + 2 ^ k * (2 * c + 1) := by
  induction k with
  | zero =>
    refine ⟨416131, 506952111, fun v => ?_⟩
    simp only [pow_zero, iterate_one, successor]
    ring
  | succ k ih =>
    obtain ⟨a, c, h⟩ := ih
    refine ⟨a + 2 ^ (k + 1) * a * a, c + 2 ^ k * a * (2 * c + 1), fun v => ?_⟩
    rw [pow_succ, mul_two, iterate_add_apply, h, h]
    ring

/-- Up to a multiple of the next power, 2 ^ k steps add 2 ^ k. -/
theorem exists_iterate_successor_add (k : Nat) (v : UInt32) :
    ∃ m, successor^[2 ^ k] v = v + 2 ^ k + 2 ^ (k + 1) * m := by
  obtain ⟨a, c, h⟩ := iterate_successor_two_pow k
  refine ⟨2 * a * v + c, ?_⟩
  rw [h]
  ring

theorem exists_eq_two_mul (m : UInt32) : ∃ h, m = 2 * h ∨ m = 2 * h + 1 := by
  have hmod : m.toNat = 2 * (m.toNat / 2) ∨ m.toNat = 2 * (m.toNat / 2) + 1 := by omega
  have hlt := m.toNat_lt
  refine ⟨m / 2, hmod.imp ?_ ?_⟩
  all_goals
    intro h
    apply UInt32.toNat_inj.1
    simp only [UInt32.toNat_add, UInt32.toNat_mul, UInt32.toNat_div, UInt32.reduceToNat]
    omega

/-- The lower `k` bits of a word are reached from every word in less than 2 ^ k steps. -/
theorem exists_iterate_successor_low (k : Nat) (v w : UInt32) :
    ∃ n < 2 ^ k, ∃ m, successor^[n] v = w + 2 ^ k * m := by
  induction k with
  | zero => exact ⟨0, Nat.one_pos, v - w, by simp⟩
  | succ k ih =>
    obtain ⟨n, hn, m, hm⟩ := ih
    have hlt : 2 ^ k < 2 ^ (k + 1) := Nat.pow_lt_pow_succ Nat.one_lt_two
    obtain ⟨h, rfl | rfl⟩ := exists_eq_two_mul m
    · exact ⟨n, hn.trans hlt, h, by rw [hm]; ring⟩
    · -- The next bit is wrong, and 2 ^ k further steps change it.
      obtain ⟨m', hm'⟩ := exists_iterate_successor_add k (successor^[n] v)
      refine ⟨2 ^ k + n, by rw [pow_succ]; omega, h + 1 + m', ?_⟩
      rw [iterate_add_apply, hm', hm]
      ring

/-- From every word all words are reached. -/
theorem exists_iterate_successor_eq (v w : UInt32) : ∃ n < wordCount, successor^[n] v = w := by
  obtain ⟨n, hn, m, h⟩ := exists_iterate_successor_low 32 v w
  have hzero : (2 : UInt32) ^ 32 = 0 := by decide +kernel
  exact ⟨n, hn, by rw [h, hzero, zero_mul, add_zero]⟩

/-! ## Scripted words -/

variable {words : List UInt32} {n : Nat}

theorem repeat_eq_iterate {α : Type} (f : α → α) (n : Nat) (a : α) :
    Nat.repeat f n a = f^[n] a := by
  induction n with
  | zero => rfl
  | succ n ih => rw [Nat.repeat, ih, iterate_succ_apply']

/-- Behind the listed words each word is the successor of the one before it. -/
theorem scriptedWord_add (h : words.length ≤ n) (k : Nat) :
    scriptedWord words (n + k) = successor^[k] (scriptedWord words n) := by
  have hrest (j : Nat) (hj : words.length ≤ j) :
      scriptedWord words j = successor^[j + 1 - words.length] (words.getLast?.getD 0) := by
    rw [scriptedWord, List.getElem?_eq_none hj]
    exact repeat_eq_iterate ..
  rw [hrest n h, hrest (n + k) (by omega), ← iterate_add_apply]
  congr 2
  omega

/-- Each word stands behind each place of a scripted tape, with its successors behind it. -/
theorem exists_scriptedWord_eq (words : List UInt32) (place : Nat) (w : UInt32) :
    ∃ d < words.length + wordCount, ∀ k, scriptedWord words (place + d + k) = successor^[k] w := by
  obtain ⟨n, hn, h⟩ := exists_iterate_successor_eq (scriptedWord words (place + words.length)) w
  refine ⟨words.length + n, by omega, fun k => ?_⟩
  have hplace : words.length ≤ place + words.length := Nat.le_add_left ..
  rw [← h, ← iterate_add_apply, ← scriptedWord_add hplace]
  congr 1
  omega

end Tape

end Planimetry
