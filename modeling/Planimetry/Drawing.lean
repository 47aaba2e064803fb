import Planimetry.Figure

/-!
# Drawings

A drawing is all that a program says: its tree, the primitives in the order in which they are
drawn, and the table of points at the end.

## Main definitions

* `Reading.draw`: the drawing of a program, or the first fault in it.
-/

namespace Planimetry

/-- What a program draws. -/
structure Drawing where
  tree : Node
  primitives : List Primitive
  table : PointTable

/-- The first fault of a program that draws nothing. -/
inductive DrawingFault where
  | wording (fault : SyntaxFault)
  | geometry (fault : GeometryFault)
deriving DecidableEq

namespace Step

def node (s : Step) : Node := s.figure.node s.pos

/-- The chain of operation nodes of the steps: none, or one that holds the others. -/
def chain : List Step → List Node
  | [] => []
  | s :: ss => [.mk .operation s.pos (s.node :: chain ss)]

def program (ss : List Step) : Node :=
  .mk .program ((ss.head?.map Step.pos).getD Position.start) (chain ss)

end Step

namespace Drawing

/-- The drawing of the steps that leave `table` behind. -/
def ofSteps (ss : List Step) (table : PointTable) : Drawing :=
  ⟨Step.program ss, ss.flatMap (·.figure.primitives), table⟩

end Drawing

namespace Reading

/-- The drawing of a reading. Operations are settled in the order of the text, so of two faults
the one that comes first in the text counts; the points of an unfinished command are placed before
the fault of its text counts. -/
def draw (r : Reading) (t : PointTable) : Except DrawingFault Drawing :=
  match (r.operations.mapM Operation.settle).run t with
  | .error e => .error (.geometry e)
  | .ok (steps, t') =>
    match r.stop with
    | none => .ok (Drawing.ofSteps steps t')
    | some stop =>
      match (stop.mentions.mapM Mention.settle).run t' with
      | .error e => .error (.geometry e)
      | .ok _ => .error (.wording stop.fault)

end Reading

end Planimetry
