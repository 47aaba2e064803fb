import Planimetry.Construction
import Planimetry.Node
import Planimetry.Primitive
import Planimetry.Reading

/-!
# Figures

A command becomes a figure once the table has given coordinates to its points. A figure has a
node in the tree of the program and primitives in the drawing.

## Main definitions

* `Command.settle`: the figure of a command.
* `Figure.node`: the tree of a figure.
* `Figure.primitives`: what is drawn of it.
-/

namespace Planimetry

/-- Why a command has no figure. -/
inductive GeometryCause where
  | cannotPlace (name : String) (cause : ResolveFault)
  | noPerpendicular (segment : String) (cause : ConstructionFault)
  | noSquare (side : String) (cause : ConstructionFault)
deriving DecidableEq

/-- A command without a figure. -/
structure GeometryFault where
  pos : Position
  cause : GeometryCause
deriving DecidableEq

def GeometryFault.message (f : GeometryFault) : String :=
  match f.cause with
  | .cannotPlace name cause => s!"cannot place {name}: {cause.message}"
  | .noPerpendicular segment cause => s!"no perpendicular to {segment}: {cause.message}"
  | .noSquare side cause => s!"no square on {side}: {cause.message}"

/-- A command whose points have coordinates. -/
inductive Figure where
  | point (p : Point)
  | network (ps : List Point)
  | segment (a b : Point)
  | perpendicular (segment : Side) (a b : Point) (arms : Perpendicular)
  | triangle (a b c : Point)
  | square (side : Side) (a b c d : Point)
deriving DecidableEq

/-! ## Settling -/

/-- A computation that asks the table for coordinates. -/
abbrev Settling := StateT PointTable (Except GeometryFault)

theorem Settling.bind_eq_ok_iff {α β : Type} {x : Settling α} {f : α → Settling β}
    {t t'' : PointTable} {b : β} :
    (x >>= f).run t = .ok (b, t'') ↔
      ∃ a t', x.run t = .ok (a, t') ∧ (f a).run t' = .ok (b, t'') := by
  rw [StateT.run_bind]
  cases x.run t with
  | error e => exact ⟨nofun, nofun⟩
  | ok a =>
    constructor
    · intro h
      exact ⟨a.1, a.2, rfl, h⟩
    · rintro ⟨a, t', ⟨⟩, h⟩
      exact h

def Mention.settle (m : Mention) : Settling Point := fun t =>
  match t.resolve m.name m.given with
  | (.ok (c, source), t') => .ok (⟨m.name, c, source, m.pos⟩, t')
  | (.error e, _) => .error ⟨m.pos, .cannotPlace m.name e⟩

/-- A point as the table knows it now. -/
def Point.refresh (p : Point) (t : PointTable) : Point :=
  { p with coord := (t.points.get? p.name).getD p.coord }

/-- The result of a construction at `pos`. -/
def constructed {α : Type} (pos : Position) (cause : ConstructionFault → GeometryCause) :
    Except ConstructionFault α → Settling α
  | .ok a => pure a
  | .error e => throw ⟨pos, cause e⟩

theorem eq_ok_of_constructed {α : Type} {pos : Position}
    {cause : ConstructionFault → GeometryCause} {x : Except ConstructionFault α} {a : α}
    {t t' : PointTable} (h : (constructed pos cause x).run t = .ok (a, t')) : x = .ok a := by
  cases x with
  | error e => cases h
  | ok b =>
    cases h
    rfl

/-- An end of a segment, as far as the table knows it. -/
def Side.lookup (s : Side) (name : String) (t : PointTable) : Point :=
  let (c, source) := t.lookup name
  ⟨name, c, source, s.pos⟩

/-- A corner of a square, named after the end of the side that it lies over. -/
def Side.corner (s : Side) (name : String) (c : Coord) : Point :=
  ⟨name ++ "1", c, .derived, s.pos⟩

namespace Command

/-- The figure of a command. Listed points that share a name stand where the last of them was
put. -/
def settle : Command → Settling Figure
  | place p => return .point (← p.settle)
  | connect ms => do
    let ps ← ms.mapM Mention.settle
    let t ← get
    return .network (ps.map (·.refresh t))
  | segment a b => do
    let a ← a.settle
    let b ← b.settle
    return .segment a b
  | perpendicular s => do
    let t ← get
    let a := s.lookup s.firstName t
    let b := s.lookup s.secondName t
    let arms ←
      constructed s.pos (.noPerpendicular s.text) (Planimetry.perpendicular a.coord b.coord)
    return .perpendicular s a b arms
  | triangle a b c => do
    let a ← a.settle
    let b ← b.settle
    let c ← c.settle
    return .triangle a b c
  | square s a b => do
    let a ← Mention.settle ⟨s.firstName, s.pos, a⟩
    let b ← Mention.settle ⟨s.secondName, s.pos, b⟩
    let (c, d) ← constructed s.pos (.noSquare s.text) (squareCorners a.coord b.coord)
    return .square s a b (s.corner s.firstName c) (s.corner s.secondName d)

end Command

structure Step where
  pos : Position
  figure : Figure
deriving DecidableEq

def Operation.settle (op : Operation) : Settling Step :=
  return ⟨op.pos, ← op.command.settle⟩

/-! ## Nodes and primitives -/

/-- Every pair of two places of a list, ordered by the first place and then by the second. -/
def pairs {α : Type} : List α → List (α × α)
  | [] => []
  | a :: as => as.map (a, ·) ++ pairs as

def Point.primitive (p : Point) : Primitive := .point p.name p.coord

def Point.segmentTo (a b : Point) : Primitive := .segment a.coord b.coord

def Point.node (p : Point) : Node := .leaf (.putPoint p) p.pos

/-- The node of a segment inside a larger figure. -/
def Point.nodeTo (a b : Point) : Node := .leaf (.drawSegment a b) a.pos

namespace Figure

def primitives : Figure → List Primitive
  | point p => [p.primitive]
  | network ps => ps.map Point.primitive ++ (pairs ps).map fun (a, b) => a.segmentTo b
  | segment a b => [a.segmentTo b, a.primitive, b.primitive]
  | perpendicular _ _ _ arms => [.segment arms.mid arms.first, .segment arms.mid arms.second]
  | triangle a b c =>
    [a.segmentTo b, b.segmentTo c, c.segmentTo a, a.primitive, b.primitive, c.primitive]
  | square _ a b c d =>
    [a.segmentTo c, a.segmentTo b, b.segmentTo d, c.segmentTo d,
     a.primitive, b.primitive, c.primitive, d.primitive]

/-- The tree of a figure whose command stands at `pos`. -/
def node (pos : Position) : Figure → Node
  | point p => .leaf (.putPoint p) pos
  | network ps =>
    .mk .connectPoints pos (ps.map Point.node ++ (pairs ps).map fun (a, b) => a.nodeTo b)
  | segment a b => .leaf (.drawSegment a b) pos
  | perpendicular s a b arms => .leaf (.drawPerpendicular s.text a b arms.first arms.second) pos
  | triangle a b c => .mk .buildTriangle pos [a.node, b.node, c.node]
  | square s a b c d =>
    .mk (.buildSquare s.text) pos
      [a.node, b.node, c.node, d.node, a.nodeTo b, c.nodeTo d, a.nodeTo c, b.nodeTo d]

def summary : Figure → String
  | point p => s!"PutPoint {p.label}"
  | network ps => s!"ConnectPoints {ps.length} points"
  | segment a b => s!"DrawSegment {a.label} - {b.label}"
  | perpendicular s _ _ arms => s!"DrawPerpendicular to {s.text} through {arms.mid}"
  | triangle a b c => s!"BuildTriangle {a.name}{b.name}{c.name}"
  | square s a b c d => s!"BuildSquare {s.text}: {a.coord} {b.coord} {c.coord} {d.coord}"

end Figure

end Planimetry
