import Planimetry.CommandLine.Options
import Planimetry.CommandLine.World
import Planimetry.Compilation
import Planimetry.Node.Outline
import Planimetry.Tape.Keystream

/-!
# A run of the command line

A run reads a program, draws it, and writes the exported drawing to a file unless it is asked only
to check. The output file is made before the program is drawn.

## Main definitions

* `CommandLine.run`: a run in any world.
-/

namespace Planimetry

namespace CommandLine

inductive Exit where
  | success
  /-- The program has a fault. -/
  | fault
  /-- The arguments or the files are of no use. -/
  | refusal
deriving DecidableEq, Repr

/-- The code that a run ends with. -/
def Exit.code : Exit → Nat
  | success => 0
  | fault => 1
  | refusal => 2

def versionText : String := "geodsl 0.3.0\n"

def helpText : String :=
  "Compiles Ukrainian geometry commands into a drawing\n\n" ++
  "Arguments: [OPTIONS] [INPUT]\n\n" ++
  "  INPUT                a file with commands, \"-\" or nothing for standard input\n" ++
  "  -o, --output FILE    where the exported drawing is written [drawing.rs]\n" ++
  "      --check          parse and review only, export nothing\n" ++
  "      --seed NUMBER    seed for generated coordinates\n" ++
  "      --width PIXELS   width of the surface [800]\n" ++
  "      --height PIXELS  height of the surface [600]\n" ++
  "      --spacing PIXELS distance between grid lines [40]\n" ++
  "      --tokens         print the tokens first\n" ++
  "  -h, --help           print this text\n" ++
  "  -V, --version        print the version\n"

/-- The text in UTF-8 bytes, if that is what they are. -/
def decode (bytes : List UInt8) : Except String String :=
  match String.fromUTF8? ⟨bytes.toArray⟩ with
  | some s => .ok s
  | none => .error "stream did not contain valid UTF-8"

section

variable {m : Type → Type} [Monad m]

/-- The text of the program, or what to say if it cannot be read. -/
def readProgram (w : World m) : Option String → m (Except String String)
  | none => do
    match decode (← w.input) with
    | .ok text => return .ok text
    | .error e => return .error s!"Error reading standard input: {e}"
  | some path => do
    match ← w.kind path with
    | .missing => return .error s!"\"{path}\" doesn't exist."
    | .other => return .error s!"\"{path}\" is a directory."
    | .file =>
      match (← w.read path).bind decode with
      | .ok text => return .ok text
      | .error e => return .error s!"Error reading input file: {e}"

/-- The lines of the tokens, if they are asked for. -/
def tokenLines (o : Options) (s : Script) : String :=
  if o.tokens then String.join (s.tokens.map fun t => s!"{t}\n") else ""

/-- The table that a run begins with. Without a seed, `entropy` stands in for it. -/
def table (o : Options) (entropy : UInt64) : PointTable :=
  .ofTape (Tape.seeded (o.seed.getD entropy))

def diagnosticLines (fs : List Fault) : String := String.join (fs.map fun f => s!"{f}\n")

/-- Shows a drawn program, or says why it cannot be drawn. -/
def report (w : World m) : Except Fault Compilation → m Exit
  | .ok c => do
    w.print (c.drawing.tree.outline ++ diagnosticLines c.diagnostics)
    return .success
  | .error f => do
    w.complain s!"Critical: {f}\n"
    return .fault

def refuse (w : World m) (reason : String) : m Exit := do
  w.complain s!"{reason}\n"
  return .refusal

/-- Draws a program for the export and writes it. -/
def compileInto (w : World m) (o : Options) (s : Script) (t : PointTable) :
    m (Except Fault Compilation) := do
  let (result, sink) := s.compile t (.ofMeasures o.width o.height o.spacing) .unlimited
  match result with
  | .error f => return .error f
  | .ok c =>
    match ← w.write o.output sink.taken with
    | .ok () => return .ok c
    | .error e => return .error (s.outputFault e)

/-- A run with understood options. -/
def runWith (w : World m) (o : Options) (entropy : UInt64) : m Exit := do
  match ← readProgram w o.input with
  | .error e => refuse w e
  | .ok text =>
    let s := Script.ofText text o.input
    let t := table o entropy
    w.print (tokenLines o s)
    if o.check then
      report w (s.check t (.ofMeasures o.width o.height o.spacing) .unlimited).1
    else
      match ← w.create o.output with
      | .error e => refuse w s!"Failed to create {o.output}: {e}."
      | .ok () => report w (← compileInto w o s t)

def run (w : World m) (entropy : UInt64) (args : List String) : m Exit :=
  match Request.ofArgs args with
  | .run o => runWith w o entropy
  | .help => do
    w.print helpText
    return .success
  | .version => do
    w.print versionText
    return .success
  | .misuse => refuse w "usage error"

end

end CommandLine

end Planimetry
