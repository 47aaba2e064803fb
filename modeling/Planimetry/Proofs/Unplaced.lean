import Planimetry.Compilation

/-!
# Drawings without positions

What a program draws, and what a review finds in it, does not depend on the positions in its tree.

## Main definitions

* `Node.unplaced`: a tree without its positions.

Main statements: `Step.program_unplaced` and `Node.causes_review_unplaced`.
-/

namespace Planimetry

/-! ## Leaving positions out -/

def Point.unplaced (p : Point) : Point := { p with pos := Position.start }

def NodeKind.unplaced : NodeKind → NodeKind
  | program => program
  | operation => operation
  | putPoint p => putPoint p.unplaced
  | connectPoints => connectPoints
  | drawSegment a b => drawSegment a.unplaced b.unplaced
  | drawPerpendicular segment a b first second =>
    drawPerpendicular segment a.unplaced b.unplaced first second
  | buildTriangle => buildTriangle
  | buildSquare side => buildSquare side

namespace Node

mutual

/-- The tree with the beginning of the text in place of all positions. -/
def unplaced : Node → Node
  | mk kind _ children => mk kind.unplaced Position.start (unplacedAll children)

def unplacedAll : List Node → List Node
  | [] => []
  | n :: ns => n.unplaced :: unplacedAll ns

end

theorem unplacedAll_eq_map (ns : List Node) : unplacedAll ns = ns.map unplaced := by
  induction ns with
  | nil => rfl
  | cons n ns ih => rw [unplacedAll, ih, List.map_cons]

@[simp] theorem kind_unplaced (n : Node) : n.unplaced.kind = n.kind.unplaced := by
  cases n
  rfl

@[simp] theorem children_unplaced (n : Node) : n.unplaced.children = n.children.map unplaced := by
  cases n
  exact unplacedAll_eq_map _

end Node

def Side.unplaced (s : Side) : Side := { s with pos := Position.start }

namespace Figure

def unplaced : Figure → Figure
  | point p => point p.unplaced
  | network ps => network (ps.map Point.unplaced)
  | segment a b => segment a.unplaced b.unplaced
  | perpendicular s a b arms => perpendicular s.unplaced a.unplaced b.unplaced arms
  | triangle a b c => triangle a.unplaced b.unplaced c.unplaced
  | square s a b c d => square s.unplaced a.unplaced b.unplaced c.unplaced d.unplaced

end Figure

def Step.unplaced (s : Step) : Step := ⟨Position.start, s.figure.unplaced⟩

/-! ## Trees and primitives -/

theorem pairs_map {α β : Type} (f : α → β) (as : List α) :
    pairs (as.map f) = (pairs as).map (Prod.map f f) := by
  induction as with
  | nil => rfl
  | cons a as ih => simp [pairs, ih, Function.comp_def]

theorem Point.unplaced_node (p : Point) : p.node.unplaced = p.unplaced.node := rfl

theorem Point.unplaced_nodeTo (a b : Point) :
    (a.nodeTo b).unplaced = a.unplaced.nodeTo b.unplaced :=
  rfl

namespace Figure

theorem unplaced_node (f : Figure) (pos : Position) :
    (f.node pos).unplaced = f.unplaced.node Position.start := by
  cases f with
  | network ps =>
    have hpoints :
        (ps.map Point.node).map Node.unplaced = (ps.map Point.unplaced).map Point.node := by
      simp [Function.comp_def, Point.unplaced_node]
    have hpairs : ((pairs ps).map fun ab => ab.1.nodeTo ab.2).map Node.unplaced =
        (pairs (ps.map Point.unplaced)).map fun ab => ab.1.nodeTo ab.2 := by
      simp [pairs_map, Function.comp_def, Point.unplaced_nodeTo]
    simp only [node, unplaced, Node.unplaced, Node.unplacedAll_eq_map, List.map_append, hpoints,
      hpairs]
    rfl
  | _ => rfl

theorem primitives_unplaced (f : Figure) : f.unplaced.primitives = f.primitives := by
  cases f with
  | network ps =>
    simp only [unplaced, primitives, pairs_map, List.map_map]
    rfl
  | _ => rfl

end Figure

namespace Step

theorem unplacedAll_chain (ss : List Step) :
    Node.unplacedAll (chain ss) = chain (ss.map unplaced) := by
  induction ss with
  | nil => rfl
  | cons s ss ih =>
    have hnode : s.node.unplaced = s.unplaced.node := s.figure.unplaced_node s.pos
    simp only [chain, Node.unplacedAll, Node.unplaced, hnode, ih, List.map_cons]
    rfl

/-- The positions in a tree are those of its steps. -/
theorem program_unplaced (ss : List Step) : (program ss).unplaced = program (ss.map unplaced) := by
  rw [program, Node.unplaced, unplacedAll_chain]
  cases ss <;> rfl

end Step

/-! ## Reviews -/

theorem Remark.map_cause_unless (ok : Bool) (pos pos' : Position) (cause : RemarkCause) :
    (Remark.unless ok pos cause).map Remark.cause =
      (Remark.unless ok pos' cause).map Remark.cause := by
  cases ok <;> rfl

namespace Scope

theorem map_cause_checkPoints (s : Scope) (figure : Option String) (ps : List Point) :
    (s.checkPoints figure (ps.map Point.unplaced)).map Remark.cause =
      (s.checkPoints figure ps).map Remark.cause := by
  simp only [checkPoints, List.filter_map, List.map_map]
  rfl

theorem map_cause_checkEnds (s : Scope) (pos pos' : Position) (line : String) (a b : Point) :
    (s.checkEnds pos line a.unplaced b.unplaced).map Remark.cause =
      (s.checkEnds pos' line a b).map Remark.cause := by
  have hknows : s.knowsEnds a.unplaced b.unplaced = s.knowsEnds a b := rfl
  unfold checkEnds
  rw [hknows]
  split <;> rfl

end Scope

namespace Node

/-- What is found in a review, without positions, and the scope behind it. -/
def causes (r : List Remark × Scope) : List RemarkCause × Scope := (r.1.map Remark.cause, r.2)

theorem putPoints_unplaced (n : Node) : n.unplaced.putPoints = n.putPoints.map Point.unplaced := by
  have hpoint : point? ∘ unplaced = fun c => c.point?.map Point.unplaced := by
    funext c
    simp only [Function.comp_apply, point?, kind_unplaced]
    cases c.kind <;> rfl
  rw [putPoints, putPoints, children_unplaced, List.filterMap_map, List.map_filterMap, hpoint]

theorem length_filter_isSegment_unplaced (ns : List Node) :
    ((ns.map unplaced).filter isSegment).length = (ns.filter isSegment).length := by
  have hseg : isSegment ∘ unplaced = isSegment := by
    funext c
    simp only [Function.comp, isSegment, kind_unplaced]
    cases c.kind <;> rfl
  rw [List.filter_map, List.length_map, hseg]

theorem causes_checkConstruction_unplaced (s : Scope) (n : Node) :
    causes (n.unplaced.checkConstruction s) = causes (n.checkConstruction s) := by
  have hpoints (figure : Option String) :
      (s.checkPoints figure n.unplaced.putPoints).map Remark.cause =
        (s.checkPoints figure n.putPoints).map Remark.cause := by
    rw [putPoints_unplaced, Scope.map_cause_checkPoints]
  have hlength : n.unplaced.putPoints.length = n.putPoints.length := by
    rw [putPoints_unplaced, List.length_map]
  unfold checkConstruction
  rw [kind_unplaced]
  cases n.kind with
  | program => rfl
  | operation => rfl
  | putPoint p =>
    by_cases h : s.points.contains p.name
    · simp only [NodeKind.unplaced, Point.unplaced, h, if_true]
      rfl
    · simp only [NodeKind.unplaced, Point.unplaced, h]
      rfl
  | connectPoints => exact Prod.ext (hpoints none) rfl
  | drawSegment a b => exact Prod.ext (s.map_cause_checkEnds _ _ _ a b) rfl
  | drawPerpendicular segment a b first second =>
    refine Prod.ext ?_ rfl
    simp only [NodeKind.unplaced, causes, List.map_append, s.map_cause_checkEnds _ n.pos,
      Remark.map_cause_unless _ n.unplaced.pos n.pos]
  | buildTriangle =>
    refine Prod.ext ?_ rfl
    simp only [NodeKind.unplaced, causes, List.map_append, hpoints, hlength,
      Remark.map_cause_unless _ n.unplaced.pos n.pos]
  | buildSquare side =>
    have hnames : (n.unplaced.putPoints.map Point.name) = n.putPoints.map Point.name := by
      rw [putPoints_unplaced, List.map_map]
      rfl
    refine Prod.ext ?_ rfl
    simp only [NodeKind.unplaced, causes, List.map_append, hpoints, hlength, hnames,
      children_unplaced, length_filter_isSegment_unplaced,
      Remark.map_cause_unless _ n.unplaced.pos n.pos]

mutual

theorem causes_reviewFrom_unplaced (s : Scope) (n : Node) :
    causes (reviewFrom s n.unplaced) = causes (reviewFrom s n) := by
  cases n with
  | mk kind pos children =>
    cases kind with
    | program => exact causes_reviewAll_unplaced s children
    | operation => exact causes_reviewAll_unplaced s children
    | _ =>
      rw [reviewFrom_of_construction s (by nofun) (by nofun),
        reviewFrom_of_construction s (by nofun) (by nofun)]
      exact causes_checkConstruction_unplaced s _

theorem causes_reviewAll_unplaced (s : Scope) (ns : List Node) :
    causes (reviewAll s (unplacedAll ns)) = causes (reviewAll s ns) := by
  cases ns with
  | nil => rfl
  | cons n ns =>
    have hfirst := causes_reviewFrom_unplaced s n
    have hrest := causes_reviewAll_unplaced (reviewFrom s n).2 ns
    simp only [causes, Prod.mk.injEq] at hfirst hrest
    simp only [unplacedAll, reviewAll, causes, List.map_append, hfirst.1, hfirst.2, hrest.1,
      hrest.2]

end

/-- A review finds the same in a tree without positions. -/
theorem causes_review_unplaced (n : Node) :
    n.unplaced.review.map Remark.cause = n.review.map Remark.cause :=
  congrArg Prod.fst (causes_reviewFrom_unplaced Scope.empty n)

end Node

end Planimetry
