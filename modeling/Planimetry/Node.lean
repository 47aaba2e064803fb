import Planimetry.PointTable
import Planimetry.Position

/-!
# Trees of a program

The meaning of a program is a tree. A program node holds a chain of operation nodes; each of them
holds one construction and the operation behind it. Constructions hold the points and segments
that they are made of.

## Main definitions

* `Node`: a tree of any shape.
* `Node.operations`: the constructions of a program in order.
-/

namespace Planimetry

/-- A point as a program refers to it. -/
structure Point where
  name : String
  coord : Coord
  source : Provenance
  pos : Position
deriving DecidableEq

def Point.label (p : Point) : String := s!"{p.name} {p.coord}"

/-- What a node stands for. -/
inductive NodeKind where
  | program
  | operation
  | putPoint (p : Point)
  | connectPoints
  | drawSegment (a b : Point)
  | drawPerpendicular (segment : String) (a b : Point) (first second : Coord)
  | buildTriangle
  | buildSquare (side : String)
deriving DecidableEq

namespace NodeKind

def name : NodeKind → String
  | program => "Program"
  | operation => "Operation"
  | putPoint .. => "PutPoint"
  | connectPoints => "ConnectPoints"
  | drawSegment .. => "DrawSegment"
  | drawPerpendicular .. => "DrawPerpendicular"
  | buildTriangle => "BuildTriangle"
  | buildSquare .. => "BuildSquare"

def labels : NodeKind → List String
  | putPoint p => [p.name, toString p.coord]
  | drawSegment a b => [a.label, b.label]
  | drawPerpendicular _ a b first second => [a.label, b.label, s!"C1 {first}", s!"C2 {second}"]
  | program | operation | connectPoints | buildTriangle | buildSquare _ => []

end NodeKind

/-- A tree. -/
inductive Node where
  | mk (kind : NodeKind) (pos : Position) (children : List Node)

namespace Node

def kind : Node → NodeKind
  | mk k _ _ => k

def pos : Node → Position
  | mk _ p _ => p

def children : Node → List Node
  | mk _ _ cs => cs

def leaf (kind : NodeKind) (pos : Position) : Node := mk kind pos []

def isOperation (n : Node) : Bool := n.kind = .operation

def point? (n : Node) : Option Point :=
  match n.kind with
  | .putPoint p => some p
  | _ => none

def isSegment (n : Node) : Bool :=
  match n.kind with
  | .drawSegment .. => true
  | _ => false

def putPoints (n : Node) : List Point := n.children.filterMap point?

mutual

/-- The constructions of the chain that begins with this link. -/
def chainFrom : Node → List Node
  | mk _ _ cs => cs.filter (! ·.isOperation) ++ chainBehind cs

/-- The constructions of the chain that goes on with the last operation among the children. -/
def chainBehind : List Node → List Node
  | [] => []
  | c :: cs =>
    if cs.any isOperation then chainBehind cs
    else if c.isOperation then chainFrom c
    else []

end

/-- The constructions of a program, or of an operation, in order. -/
def operations (n : Node) : List Node :=
  match n.kind with
  | .program => (n.children.head?.map chainFrom).getD []
  | .operation => n.chainFrom
  | _ => []

end Node

end Planimetry
