import Planimetry.Scalar

/-!
# Positions in a text

A position is a line and a column, both counted from one, the column in characters.

## Main definitions

* `Position.walk`: the position behind a text.
* `Position.tally`: the same, counted in 64 bits.
-/

namespace Planimetry

structure Position where
  line : Nat
  col : Nat
deriving DecidableEq, Repr, Inhabited

namespace Position

instance : ToString Position := ⟨fun p => s!"{p.line}:{p.col}"⟩

def start : Position := ⟨1, 1⟩

/-- The position behind the character `c`: a line feed opens the next line. -/
def after (p : Position) (c : Char) : Position :=
  if c = '\n' then ⟨p.line + 1, 1⟩ else ⟨p.line, p.col + 1⟩

/-- The position behind a text that begins at `p`. -/
def walk (p : Position) (cs : List Char) : Position := cs.foldl after p

/-- Lines and columns are counted in 64 bits, below this bound. -/
def limit : Nat := 18446744073709551616

/-- `after`, as long as the line and the column stay countable. -/
def after? (p : Position) (c : Char) : Option Position :=
  if c = '\n' then
    if p.line + 1 < limit then some ⟨p.line + 1, 1⟩ else none
  else
    if p.col + 1 < limit then some ⟨p.line, p.col + 1⟩ else none

/-- `walk`, as long as every position on the way stays countable. -/
def walk? (p : Position) : List Char → Option Position
  | [] => some p
  | c :: cs => (p.after? c).bind (·.walk? cs)

/-- A result of counting, with the overflow as the reason for its absence. -/
def counted {α : Type} : Option α → Except ArithmeticFault α
  | some a => .ok a
  | none => .error .addOverflow

/-- The position behind a text that begins at `p`, if all the lines and columns can be counted. -/
def tally (p : Position) (cs : List Char) : Except ArithmeticFault Position := counted (p.walk? cs)

@[simp] theorem walk_nil (p : Position) : p.walk [] = p := rfl

@[simp] theorem walk_cons (p : Position) (c : Char) (cs : List Char) :
    p.walk (c :: cs) = (p.after c).walk cs := rfl

theorem walk_append (p : Position) (cs ds : List Char) :
    p.walk (cs ++ ds) = (p.walk cs).walk ds := by
  simp [walk]

theorem eq_after_of_after? {p q : Position} {c : Char} (h : p.after? c = some q) :
    q = p.after c := by
  unfold after? at h
  unfold after
  split at h <;> split at h <;> simp_all

/-- Where the counting succeeds it gives the plain position. -/
theorem eq_walk_of_walk? {p q : Position} {cs : List Char} (h : p.walk? cs = some q) :
    q = p.walk cs := by
  induction cs generalizing p with
  | nil => simpa [walk?] using h.symm
  | cons c cs ih =>
    obtain ⟨r, hr, hq⟩ := Option.bind_eq_some_iff.1 h
    rw [walk_cons, ← eq_after_of_after? hr]
    exact ih hq

end Position

end Planimetry
