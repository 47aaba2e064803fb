import Planimetry.Coord
import Planimetry.Tape

/-!
# Tables of points

A table knows the coordinates of named points. A point that is mentioned without coordinates and
is not known yet gets a random free position in a small box.

## Main definitions

* `PointMap`: names with their coordinates, each name once.
* `PointTable`: a map together with the tape that new positions are drawn from.
* `PointTable.resolve`: the coordinates of a mentioned point, which the table keeps.
* `PointTable.lookup`: the coordinates of a point, nothing being kept.
-/

namespace Planimetry

/-! ## Maps -/

/-- Coordinates by name; each name occurs once. -/
structure PointMap where
  entries : List (String × Coord)
  nodup : (entries.map Prod.fst).Nodup

namespace PointMap

def empty : PointMap := ⟨[], by simp⟩

def get? (m : PointMap) (name : String) : Option Coord := m.entries.lookup name

def contains (m : PointMap) (name : String) : Bool := (m.get? name).isSome

def size (m : PointMap) : Nat := m.entries.length

/-- Gives `name` the coordinates `c`, whatever it had before. -/
def insert (m : PointMap) (name : String) (c : Coord) : PointMap where
  entries := (name, c) :: m.entries.filter (·.1 ≠ name)
  nodup := by
    simp only [List.map_cons, List.nodup_cons]
    refine ⟨?_, m.nodup.sublist (List.filter_sublist.map _)⟩
    intro h
    obtain ⟨e, he, rfl⟩ := List.mem_map.1 h
    simpa using (List.mem_filter.1 he).2

def isTaken (m : PointMap) (c : Coord) : Bool := m.entries.any (·.2 = c)

def sorted (m : PointMap) : List (String × Coord) := m.entries.mergeSort (·.1 ≤ ·.1)

@[simp] theorem get?_empty (name : String) : empty.get? name = none := rfl

theorem get?_insert_self (m : PointMap) (name : String) (c : Coord) :
    (m.insert name c).get? name = some c := by
  simp [get?, insert]

theorem get?_insert_of_ne (m : PointMap) {name other : String} (c : Coord) (h : other ≠ name) :
    (m.insert name c).get? other = m.get? other := by
  have hb : (other == name) = false := beq_eq_false_iff_ne.2 h
  simp only [get?, insert, List.lookup_cons, hb]
  induction m.entries with
  | nil => rfl
  | cons e es ih =>
    obtain ⟨k, v⟩ := e
    by_cases hk : k = name
    · subst hk
      simpa [List.lookup_cons, hb] using ih
    · rw [List.filter_cons_of_pos (by simpa using hk), List.lookup_cons, List.lookup_cons, ih]

end PointMap

/-! ## Where coordinates come from -/

/-- Where the coordinates of a point came from. -/
inductive Provenance where
  /-- Written behind the name. -/
  | explicit
  /-- Taken from the table. -/
  | known
  /-- Drawn at random. -/
  | generated
  /-- Computed from other points. -/
  | derived
  /-- Not known, the origin instead. -/
  | defaulted
deriving DecidableEq, Repr

namespace Provenance

def label : Provenance → String
  | explicit => "Explicit"
  | known => "Known"
  | generated => "Generated"
  | derived => "Derived"
  | defaulted => "Defaulted"

instance : ToString Provenance := ⟨label⟩

/-- Whether a point brings its coordinates along, so that it needs no definition. -/
def carriesCoords : Provenance → Bool
  | explicit | derived => true
  | known | generated | defaulted => false

end Provenance

/-! ## Generated positions -/

/-- The x-coordinate of a generated position: a number below four. -/
def columnDie : Die := ⟨4, 2147483647⟩

/-- The y-coordinate of a generated position: a number below six. -/
def rowDie : Die := ⟨6, 3221225471⟩

/-- The cell of the box in column `x` and row `y`. -/
def boxCell (x y : Nat) : Coord := ⟨Int32.ofNat x, Int32.ofNat y⟩

/-- The positions that can be generated. -/
def box : List Coord :=
  (List.range columnDie.sides).flatMap fun x => (List.range rowDie.sides).map (boxCell x)

/-- Draws a position of the box, free or not. -/
def drawCell (t : Tape) : Option (Coord × Tape) :=
  (t.roll columnDie).bind fun (x, t₁) =>
    (t₁.roll rowDie).map fun (y, t₂) => (boxCell x y, t₂)

theorem left_lt_of_drawCell {t t' : Tape} {c : Coord} (h : drawCell t = some (c, t')) :
    t'.left < t.left := by
  obtain ⟨⟨x, t₁⟩, hx, h⟩ := Option.bind_eq_some_iff.1 h
  obtain ⟨⟨y, t₂⟩, hy, h⟩ := Option.map_eq_some_iff.1 h
  cases h
  exact Nat.lt_trans (Tape.left_lt_of_roll hy) (Tape.left_lt_of_roll hx)

/-- Draws positions from the tape until one is free. -/
def PointMap.drawFree (m : PointMap) (t : Tape) : Option (Coord × Tape) :=
  match _h : drawCell t with
  | none => none
  | some (c, t') => if m.isTaken c then m.drawFree t' else some (c, t')
termination_by t.left
decreasing_by exact left_lt_of_drawCell _h

/-- Why a point got no coordinates. -/
inductive ResolveFault where
  /-- Every position of the box is taken. -/
  | boxFull
  /-- The tape ended before a free position was drawn. -/
  | tapeEnded
deriving DecidableEq, Repr

def ResolveFault.message : ResolveFault → String
  | boxFull => s!"no free position left in [0, {columnDie.sides}) x [0, {rowDie.sides})"
  | tapeEnded => "no random words left"

/-! ## Tables -/

/-- The known points and the source of new positions. -/
structure PointTable where
  points : PointMap
  tape : Tape

namespace PointTable

def ofTape (t : Tape) : PointTable := ⟨.empty, t⟩

def insert (t : PointTable) (name : String) (c : Coord) : PointTable :=
  { t with points := t.points.insert name c }

/-- A free position of the box. Without one, nothing is read from the tape. -/
def generate (t : PointTable) : Except ResolveFault (Coord × Tape) :=
  if box.all t.points.isTaken then .error .boxFull
  else
    match t.points.drawFree t.tape with
    | some r => .ok r
    | none => .error .tapeEnded

/-- The coordinates of a mentioned point: the given ones, else the known ones, else generated
ones. The table keeps them; a fault leaves the table as it was. -/
def resolve (t : PointTable) (name : String) (given : Option Coord) :
    Except ResolveFault (Coord × Provenance) × PointTable :=
  match given with
  | some c => (.ok (c, .explicit), t.insert name c)
  | none =>
    match t.points.get? name with
    | some c => (.ok (c, .known), t)
    | none =>
      match t.generate with
      | .ok (c, tape) => (.ok (c, .generated), { t with tape := tape }.insert name c)
      | .error e => (.error e, t)

/-- The known coordinates of a point, or the origin. -/
def lookup (t : PointTable) (name : String) : Coord × Provenance :=
  match t.points.get? name with
  | some c => (c, .known)
  | none => (Coord.origin, .defaulted)

end PointTable

end Planimetry
