/-!
# Rounding to 53 binary digits

A quantity that is measured rather than counted, such as the slope of a segment, is a rational
number with at most 53 binary digits. Every operation on such numbers is computed exactly and
then rounded once, to the nearest such number, a tie to the one with an even last digit. The
exponent is not bounded: between grid coordinates it stays far from any limit.

## Main definitions

* `Rounding.round`: the nearest number of 53 digits.
* `Rounding.root`: the square root, rounded in the same way.
* `Rounding.truncate`: the whole part.
-/

namespace Planimetry

namespace Rounding

/-- The whole number nearest to `n / d`, of two nearest the even one. -/
def nearest (n d : Nat) : Nat :=
  let q := n / d
  let r := n % d
  if 2 * r < d then q
  else if d < 2 * r then q + 1
  else if q % 2 = 0 then q
  else q + 1

/-- The exponent of the highest binary digit of `n / d`, for positive `n` and `d`. -/
def leading (n d : Nat) : Int :=
  let e : Int := (n.log2 : Int) - d.log2
  if d <<< e.toNat ≤ n <<< (-e).toNat then e else e - 1

/-- The number `m * 2 ^ e`. -/
def scaled (m : Nat) (e : Int) : Rat := mkRat (m <<< e.toNat : Nat) (1 <<< (-e).toNat)

/-- `n / d` rounded to 53 digits. -/
def roundRatio (n d : Nat) : Rat :=
  if n = 0 then 0
  else
    let s := 52 - leading n d
    scaled (nearest (n <<< s.toNat) (d <<< (-s).toNat)) (-s)

/-- The number of 53 digits nearest to `q`. -/
def round (q : Rat) : Rat :=
  if q.num < 0 then -roundRatio q.num.natAbs q.den else roundRatio q.num.natAbs q.den

/-- Finds the `k` lowest binary digits of a root, the digits above them being those of `r`. -/
def rootDigits (n : Nat) : Nat → Nat → Nat
  | 0, r => r
  | k + 1, r =>
    let t := r + 1 <<< k
    if t * t ≤ n then rootDigits n k t else rootDigits n k r

/-- The whole part of the square root of `n`. -/
def wholeRoot (n : Nat) : Nat := rootDigits n (n.log2 / 2 + 1) 0

/-- The square root of a positive `q`, rounded to 53 digits. -/
def root (q : Rat) : Rat :=
  let n := q.num.natAbs
  let d := q.den
  let s := 52 - (leading n d).fdiv 2
  let n' := n <<< (2 * s).toNat
  let d' := d <<< (-2 * s).toNat
  let r := wholeRoot (n' / d')
  let half := (2 * r + 1) * (2 * r + 1) * d'
  let m := if 4 * n' < half then r else if half < 4 * n' then r + 1 else r + r % 2
  scaled m (-s)

/-- The whole part of `q`: the fraction is dropped. -/
def truncate (q : Rat) : Int := q.num.tdiv q.den

end Rounding

end Planimetry
