/-!
# Tapes of random words

Random numbers come from a tape of 32-bit words that is read from the front. A tape has an end:
a draw that would have to read beyond it has no result. The tape of a seed is as long as the
keystream that it is cut from; a tape that a recurrence fills is as long as it is asked to be.

## Main definitions

* `Tape`: the words, how many have been read and how many are left.
* `Tape.roll`: an evenly distributed number below a bound.
-/

namespace Planimetry

/-- A sequence of random words, read up to some place. -/
structure Tape where
  word : Nat → UInt32
  read : Nat
  left : Nat

def wordCount : Nat := 4294967296

/-- How a number in `[0, sides)` is made from words. The word `v` stands for the number
`v * sides / wordCount`; it is passed over if the remainder is above `zone`, so that each number is
had from equally many words. -/
structure Die where
  sides : Nat
  zone : Nat
deriving DecidableEq, Repr

namespace Die

/-- Whether the word decides the number. -/
def accepts (d : Die) (v : UInt32) : Bool := v.toNat * d.sides % wordCount ≤ d.zone

/-- The number that an accepted word stands for. -/
def value (d : Die) (v : UInt32) : Nat := v.toNat * d.sides / wordCount

theorem value_lt {d : Die} (v : UInt32) (h : 0 < d.sides) : d.value v < d.sides := by
  unfold value
  apply Nat.div_lt_of_lt_mul
  exact Nat.mul_lt_mul_of_pos_right v.toNat_lt h

end Die

namespace Tape

/-- The tape behind its next word. -/
def advance (t : Tape) : Tape := { t with read := t.read + 1, left := t.left - 1 }

/-- Reads words until the die accepts one. -/
def roll (d : Die) (t : Tape) : Option (Nat × Tape) :=
  if t.left = 0 then none
  else
    let v := t.word t.read
    if d.accepts v then some (d.value v, t.advance) else roll d t.advance
termination_by t.left
decreasing_by
  simp only [advance]
  omega

/-- A draw uses up part of the tape. -/
theorem left_lt_of_roll {d : Die} {t t' : Tape} {n : Nat} (h : t.roll d = some (n, t')) :
    t'.left < t.left := by
  fun_induction roll d t with
  | case1 => cases h
  | case2 t ht =>
    cases h
    simp only [advance]
    omega
  | case3 t ht _ _ ih =>
    have := ih h
    simp only [advance] at this
    omega

theorem lt_of_roll {d : Die} {t t' : Tape} {n : Nat} (hd : 0 < d.sides)
    (h : t.roll d = some (n, t')) : n < d.sides := by
  fun_induction roll d t with
  | case1 => cases h
  | case2 t ht => cases h; exact Die.value_lt _ hd
  | case3 t _ _ _ ih => exact ih h

end Tape

end Planimetry
