import Planimetry.Drawing
import Planimetry.Script

/-!
# Faults

A fault is what a user is told about a program: its kind, where it is and what is wrong. Semantic
faults are diagnostics of a program that can be drawn; all others are fatal.
-/

namespace Planimetry

inductive FaultKind where
  /-- The text is no program. -/
  | wording
  /-- The program refers to things that it did not define. -/
  | semantic
  /-- A command has no figure. -/
  | geometry
  /-- The drawing could not be written. -/
  | output
deriving DecidableEq, Repr

namespace FaultKind

def all : List FaultKind := [wording, semantic, geometry, output]

def label : FaultKind → String
  | wording => "SyntaxError"
  | semantic => "SemanticError"
  | geometry => "GeometryError"
  | output => "OutputError"

end FaultKind

/-- Something wrong in a program. -/
structure Fault where
  kind : FaultKind
  message : String
  pos : Position
  path : Option String
deriving DecidableEq, Repr

namespace Fault

/-- The text of a fault; a program without a file is shown as `~`. -/
def text (f : Fault) : String :=
  let path := f.path.getD "~"
  s!"{f.kind.label} at {path}:{f.pos}: {f.message}"

instance : ToString Fault := ⟨text⟩

/-- Whether the fault ends the work on its program. -/
def isFatal (f : Fault) : Bool := f.kind ≠ .semantic

/-- The texts of several faults, one on each line. -/
def listing (fs : List Fault) : String := "\n".intercalate (fs.map text)

def ofKind (k : FaultKind) (fs : List Fault) : List Fault := fs.filter (·.kind = k)

/-- The first fault of a program without a drawing. -/
def ofDrawing (s : Script) : DrawingFault → Fault
  | .wording f => ⟨.wording, f.message, f.pos s.finish, s.path⟩
  | .geometry f => ⟨.geometry, f.message, f.pos, s.path⟩

end Fault

end Planimetry
