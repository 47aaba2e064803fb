/-!
# Bounded whole numbers

Coordinates and pixels are signed numbers of 32 bits. Results are computed exactly and then
either refused or clamped when they do not fit.
-/

namespace Planimetry

namespace Scalar

def least : Int := -2147483648

def greatest : Int := 2147483647

/-- Whether the exact number `n` is a coordinate. -/
def Fits (n : Int) : Prop := least ≤ n ∧ n ≤ greatest

instance (n : Int) : Decidable (Fits n) := inferInstanceAs (Decidable (_ ∧ _))

/-- The coordinate of value `n`, if there is one. -/
def fit? (n : Int) : Option Int32 := if Fits n then some (Int32.ofInt n) else none

/-- The coordinate nearest to `n`. -/
def clamp (n : Int) : Int32 := Int32.ofInt (max least (min n greatest))

theorem toInt_ofInt {n : Int} (h : Fits n) : (Int32.ofInt n).toInt = n := by
  obtain ⟨h₁, h₂⟩ := h
  simp only [least, greatest] at h₁ h₂
  exact Int32.toInt_ofInt_of_le (by omega) (by omega)

theorem fits_toInt (x : Int32) : Fits x.toInt := by
  have h₁ := x.le_toInt
  have h₂ := x.toInt_lt
  simp only [Fits, least, greatest]
  omega

theorem toInt_clamp (n : Int) : (clamp n).toInt = max least (min n greatest) :=
  toInt_ofInt (by simp only [Fits, least, greatest]; omega)

theorem fit?_eq_some_iff {n : Int} {x : Int32} : fit? n = some x ↔ x.toInt = n := by
  unfold fit?
  split
  · rename_i h
    constructor
    · rintro ⟨⟩; exact toInt_ofInt h
    · intro e
      rw [← Int32.toInt_inj.1 ((toInt_ofInt h).trans e.symm)]
  · rename_i h
    simp only [reduceCtorEq, false_iff]
    rintro rfl
    exact h (fits_toInt x)

end Scalar

/-- An operation on bounded numbers that has no result. -/
inductive ArithmeticFault where
  | addOverflow
  | subtractOverflow
  | negateOverflow
  | divideByZero
  | divideOverflow
deriving DecidableEq, Repr

def ArithmeticFault.message : ArithmeticFault → String
  | addOverflow => "attempt to add with overflow"
  | subtractOverflow => "attempt to subtract with overflow"
  | negateOverflow => "attempt to negate with overflow"
  | divideByZero => "attempt to divide by zero"
  | divideOverflow => "attempt to divide with overflow"

namespace Scalar

def sub (a b : Int32) : Except ArithmeticFault Int32 :=
  (fit? (a.toInt - b.toInt)).elim (.error .subtractOverflow) .ok

/-- The number with the other sign, if it fits. -/
def neg (a : Int32) : Except ArithmeticFault Int32 :=
  (fit? (-a.toInt)).elim (.error .negateOverflow) .ok

/-- The quotient without its fraction, if there is one and it fits. -/
def div (a b : Int32) : Except ArithmeticFault Int32 :=
  if b = 0 then .error .divideByZero
  else (fit? (a.toInt.tdiv b.toInt)).elim (.error .divideOverflow) .ok

end Scalar

end Planimetry
