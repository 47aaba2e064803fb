import Planimetry.Node

/-!
# Reviews

A review walks through the tree of a program once, from the top, and notes what the program uses
without having defined it. A note stops nothing and changes nothing in the tree.

A point is defined by a node that puts it right in the chain of operations; a line by a segment or
a perpendicular there. The points inside larger figures define nothing.

## Main definitions

* `Remark`: a note of a review.
* `Node.review`: the remarks on a tree.
-/

namespace Planimetry

/-- What a remark is about. -/
inductive RemarkCause where
  | pointRedefined (name : String)
  /-- A point of a figure; `figure` names the figure, if it is not a network. -/
  | pointUndefined (name : String) (figure : Option String)
  /-- The ends of a line; `line` names the kind of line. -/
  | endsUndefined (a b : String) (line : String)
  | lineUndefined (name : String)
  | trianglePoints (found : Nat)
  | squarePoints (found : Nat)
  | squareSegments (found : Nat)
  | squareNames (found : Nat)
deriving DecidableEq, Repr

def RemarkCause.message : RemarkCause → String
  | pointRedefined name => s!"point \"{name}\" is already defined"
  | pointUndefined name none => s!"point \"{name}\" is not defined"
  | pointUndefined name (some figure) => s!"point \"{name}\" is not defined for {figure}"
  | endsUndefined a b line => s!"points \"{a}\" or \"{b}\" are not defined for {line}"
  | lineUndefined name => s!"line \"{name}\" is not defined for perpendicular line"
  | trianglePoints found => s!"triangle requires 3 points, found {found}"
  | squarePoints found => s!"square requires exactly 4 points, found {found}"
  | squareSegments found => s!"square requires exactly 4 segments, found {found}"
  | squareNames found => s!"square requires 4 distinct points, found {found}"

/-- A note of a review. -/
structure Remark where
  pos : Position
  cause : RemarkCause
deriving DecidableEq, Repr

/-- The names that a program has defined so far. -/
structure Scope where
  points : List String
  lines : List String
deriving Repr

namespace Scope

def empty : Scope := ⟨[], []⟩

def addPoint (s : Scope) (name : String) : Scope := { s with points := name :: s.points }

def addLine (s : Scope) (name : String) : Scope := { s with lines := name :: s.lines }

/-- Whether a point needs no definition any more. -/
def knows (s : Scope) (p : Point) : Bool :=
  s.points.contains p.name || p.source.carriesCoords

/-- Whether the ends of a line need no definition any more: both are defined, or one of them
brings its coordinates along. -/
def knowsEnds (s : Scope) (a b : Point) : Bool :=
  (s.points.contains a.name && s.points.contains b.name) ||
    (a.source.carriesCoords || b.source.carriesCoords)

/-- The remarks on the points of a figure. -/
def checkPoints (s : Scope) (figure : Option String) (ps : List Point) : List Remark :=
  (ps.filter (! s.knows ·)).map fun p => ⟨p.pos, .pointUndefined p.name figure⟩

/-- The remark on the ends of a line. -/
def checkEnds (s : Scope) (pos : Position) (line : String) (a b : Point) : List Remark :=
  if s.knowsEnds a b then [] else [⟨pos, .endsUndefined a.name b.name line⟩]

end Scope

/-- A remark that is made if a number is not the wanted one. -/
def Remark.unless (ok : Bool) (pos : Position) (cause : RemarkCause) : List Remark :=
  if ok then [] else [⟨pos, cause⟩]

namespace Node

/-- The remarks on a construction, and the scope behind it. -/
def checkConstruction (s : Scope) (n : Node) : List Remark × Scope :=
  match n.kind with
  | .program | .operation => ([], s)
  | .putPoint p =>
    if s.points.contains p.name then ([⟨p.pos, .pointRedefined p.name⟩], s)
    else ([], s.addPoint p.name)
  | .connectPoints => (s.checkPoints none n.putPoints, s)
  | .drawSegment a b => (s.checkEnds n.pos "segment" a b, s.addLine (a.name ++ b.name))
  | .drawPerpendicular segment a b _ _ =>
    (s.checkEnds n.pos "perpendicular line" a b ++
      Remark.unless (s.lines.contains segment) n.pos (.lineUndefined segment),
     s.addLine segment)
  | .buildTriangle =>
    let ps := n.putPoints
    (Remark.unless (ps.length = 3) n.pos (.trianglePoints ps.length) ++
      s.checkPoints (some "triangle") ps, s)
  | .buildSquare _ =>
    let ps := n.putPoints
    let segments := (n.children.filter isSegment).length
    let names := (ps.map Point.name).eraseDups.length
    (s.checkPoints (some "square") ps ++
      Remark.unless (ps.length = 4) n.pos (.squarePoints ps.length) ++
      Remark.unless (segments = 4) n.pos (.squareSegments segments) ++
      Remark.unless (4 ≤ names) n.pos (.squareNames names), s)

mutual

/-- The remarks on a tree in a scope, and the scope behind it. -/
def reviewFrom (s : Scope) : Node → List Remark × Scope
  | mk .program _ cs => reviewAll s cs
  | mk .operation _ cs => reviewAll s cs
  | n => checkConstruction s n

/-- The remarks on several trees, one after another. -/
def reviewAll (s : Scope) : List Node → List Remark × Scope
  | [] => ([], s)
  | c :: cs =>
    let (found, s) := reviewFrom s c
    let (more, s) := reviewAll s cs
    (found ++ more, s)

end

def review (n : Node) : List Remark := (reviewFrom Scope.empty n).1

/-- A review stops at a construction and does not look below it. -/
theorem reviewFrom_of_construction (s : Scope) {n : Node} (hp : n.kind ≠ .program)
    (ho : n.kind ≠ .operation) : reviewFrom s n = n.checkConstruction s := by
  cases n with
  | mk kind pos children =>
    cases kind with
    | program => exact absurd rfl hp
    | operation => exact absurd rfl ho
    | _ => rw [reviewFrom] <;> nofun

end Node

end Planimetry
