/-!
# Ranges of characters

Character classes beyond ASCII are lists of closed ranges of code points.
-/

namespace Planimetry.Text

/-- The code points from `first` to `last`, both included. -/
structure CharRange where
  first : Nat
  last : Nat
deriving DecidableEq, Repr

/-- Whether the code point of `c` lies in the range. -/
def CharRange.covers (r : CharRange) (c : Char) : Bool :=
  r.first ≤ c.toNat && c.toNat ≤ r.last

/-- Whether one of the ranges holds `c`. -/
def covers (rs : List CharRange) (c : Char) : Bool := rs.any (·.covers c)

theorem covers_iff {rs : List CharRange} {c : Char} :
    covers rs c = true ↔ ∃ r ∈ rs, r.first ≤ c.toNat ∧ c.toNat ≤ r.last := by
  simp [covers, CharRange.covers]

end Planimetry.Text
