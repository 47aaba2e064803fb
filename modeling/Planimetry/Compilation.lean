import Planimetry.Export
import Planimetry.Fault
import Planimetry.Review

/-!
# Compilation

A script is parsed to a drawing, checked for diagnostics, or compiled to an exported program.
Diagnostics never keep a drawing from being exported.

## Main definitions

* `Script.parse`: the drawing alone.
* `Script.check`: the drawing and its diagnostics.
* `Script.compile`: the same, the drawing being exported as well.
-/

namespace Planimetry

/-- A drawing and the diagnostics of its program. -/
structure Compilation where
  drawing : Drawing
  diagnostics : List Fault

namespace Script

/-- What the tokens of a script say. -/
def reading (s : Script) : Reading := Reading.ofTokens s.tokens

/-- The diagnostics of a tree, as faults of the script. -/
def diagnostics (s : Script) (n : Node) : List Fault :=
  n.review.map fun r => ⟨.semantic, r.cause.message, r.pos, s.path⟩

def parse (s : Script) (t : PointTable) : Except Fault Drawing :=
  match s.reading.draw t with
  | .ok d => .ok d
  | .error e => .error (.ofDrawing s e)

theorem parse_eq_ok_iff {s : Script} {t : PointTable} {d : Drawing} :
    s.parse t = .ok d ↔ s.reading.draw t = .ok d := by
  unfold parse
  cases s.reading.draw t <;> simp

theorem parse_eq_error_iff {s : Script} {t : PointTable} {f : Fault} :
    s.parse t = .error f ↔ ∃ e, s.reading.draw t = .error e ∧ Fault.ofDrawing s e = f := by
  unfold parse
  cases s.reading.draw t <;> simp

/-- The fault of a drawing that could not be written. -/
def outputFault (s : Script) (reason : String) : Fault :=
  ⟨.output, s!"failed to write the exported program: {reason}", Position.start, s.path⟩

/-- Parses and checks a script and writes its primitives through `e`. -/
def compileTo (s : Script) (t : PointTable) (e : Export) (sink : Sink) :
    Except Fault Compilation × Sink :=
  match s.parse t with
  | .error f => (.error f, sink)
  | .ok d =>
    match (e.addAll d.primitives).finish sink with
    | (.ok _, sink') => (.ok ⟨d, s.diagnostics d.tree⟩, sink')
    | (.error x, sink') => (.error (s.outputFault x.message), sink')

def compile (s : Script) (t : PointTable) (g : Grid) (sink : Sink) :
    Except Fault Compilation × Sink :=
  s.compileTo t (.ofGrid g) sink

/-- Checks a script. The sink gets nothing. -/
def check (s : Script) (t : PointTable) (g : Grid) (sink : Sink) :
    Except Fault Compilation × Sink :=
  s.compileTo t (Export.ofGrid g).silence sink

/-- What is compiled or checked is the drawing that is parsed, with its diagnostics. -/
theorem of_compileTo {s : Script} {t : PointTable} {e : Export} {sink sink' : Sink}
    {c : Compilation} (h : s.compileTo t e sink = (.ok c, sink')) :
    s.parse t = .ok c.drawing ∧ c.diagnostics = s.diagnostics c.drawing.tree := by
  unfold compileTo at h
  split at h
  · cases h
  · split at h
    · cases h
      exact ⟨‹_›, rfl⟩
    · cases h

end Script

end Planimetry
