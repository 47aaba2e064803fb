import Planimetry.Tape

/-!
# Scripted tapes

A tape that begins with given words and goes on by a linear recurrence modulo 2 ^ 32.
-/

namespace Planimetry

namespace Tape

/-- The word that the recurrence puts behind `v`. -/
def successor (v : UInt32) : UInt32 := v * 1664525 + 1013904223

/-- The word at place `n`: a listed word, or what the recurrence makes of the word before. -/
def scriptedWord (words : List UInt32) (n : Nat) : UInt32 :=
  match words[n]? with
  | some v => v
  | none => Nat.repeat successor (n + 1 - words.length) (words.getLast?.getD 0)

/-- A tape of `length` words that begins with the listed ones. -/
def scripted (words : List UInt32) (length : Nat) : Tape := ⟨scriptedWord words, 0, length⟩

end Tape

end Planimetry
