import Planimetry.Text.DecimalDigit

/-!
# Decimal numerals

Reading a whole number of a bounded range from text: one optional sign, then ASCII digits. The
digits are read from the left, and reading stops at the first thing that is wrong.
-/

namespace Planimetry.Text

/-- Why a text is no numeral of the wanted range. -/
inductive NumeralFault where
  | empty
  | invalidDigit
  | tooLarge
  | tooSmall
deriving DecidableEq, Repr

def NumeralFault.message : NumeralFault → String
  | .empty => "cannot parse integer from empty string"
  | .invalidDigit => "invalid digit found in string"
  | .tooLarge => "number too large to fit in target type"
  | .tooSmall => "number too small to fit in target type"

def digitValue? (c : Char) : Option Nat :=
  if isAsciiDigit c then some (c.toNat - '0'.toNat) else none

/-- Appends digits to the non-negative number `acc`, staying at or below `hi`. -/
def digitsUpTo (hi : Int) : Int → List Char → Except NumeralFault Int
  | acc, [] => .ok acc
  | acc, c :: cs =>
    match digitValue? c with
    | none => .error .invalidDigit
    | some d =>
      let next := 10 * acc + d
      if next ≤ hi then digitsUpTo hi next cs else .error .tooLarge

/-- Appends digits to the non-positive number `acc`, staying at or above `lo`. -/
def digitsDownTo (lo : Int) : Int → List Char → Except NumeralFault Int
  | acc, [] => .ok acc
  | acc, c :: cs =>
    match digitValue? c with
    | none => .error .invalidDigit
    | some d =>
      let next := 10 * acc - d
      if lo ≤ next then digitsDownTo lo next cs else .error .tooSmall

/-- Reads a numeral in `[lo, hi]`, a range around zero. Where no negative number is wanted
(`lo = 0`), a minus sign is a bad digit. -/
def readNumeral (lo hi : Int) : List Char → Except NumeralFault Int
  | [] => .error .empty
  | '+' :: [] => .error .invalidDigit
  | '-' :: [] => .error .invalidDigit
  | '+' :: cs => digitsUpTo hi 0 cs
  | '-' :: cs => if lo < 0 then digitsDownTo lo 0 cs else .error .invalidDigit
  | cs => digitsUpTo hi 0 cs

end Planimetry.Text
