import Planimetry.Compilation
import Planimetry.Node.Outline

/-!
# Journals

A journal tells the single steps of a piece of work: which words were found, how each point got
its coordinates, which commands were carried out and what was drawn. It is told up to the place
where the work failed.

## Main definitions

* `Record`: an entry of a journal.
* `Script.journal`: the journal of a parse.
-/

namespace Planimetry

/-- How much an entry matters. -/
inductive Level where
  | trace
  | debug
  | warn
deriving DecidableEq, Repr

def Level.label : Level → String
  | trace => "TRACE"
  | debug => "DEBUG"
  | warn => "WARN"

/-- An entry of a journal. -/
structure Record where
  level : Level
  text : String
deriving DecidableEq, Repr

namespace Record

def line (r : Record) : String := s!"{r.level.label} {r.text}"

def classified (ts : List Token) : Record := ⟨.trace, s!"classified {ts.length} words"⟩

def token (t : Token) : Record := ⟨.trace, s!"{t} at {t.pos}"⟩

def resolved (name : String) (c : Coord) (source : Provenance) : Record :=
  ⟨.trace, s!"{name} => {c} ({source})"⟩

def emitted (p : Primitive) : Record := ⟨.trace, s!"emit {p}"⟩

def settled (f : Figure) : Record := ⟨.debug, f.summary⟩

def tree (n : Node) : Record := ⟨.debug, s!"parsed tree:\n{n.outline}"⟩

def diagnostic (f : Fault) : Record := ⟨.warn, f.text⟩

end Record

/-- The entries about mentions that are resolved in order. -/
def Mention.journal : List Mention → PointTable → List Record
  | [], _ => []
  | m :: ms, t =>
    match t.resolve m.name m.given with
    | (.ok (c, source), t') => .resolved m.name c source :: journal ms t'
    | (.error _, _) => []

def Figure.journal (f : Figure) : List Record := .settled f :: f.primitives.map .emitted

/-- The entries about operations that are carried out in order, and about the mentions of the
unfinished command behind them. -/
def Operation.journal (unfinished : List Mention) : List Operation → PointTable → List Record
  | [], t => Mention.journal unfinished t
  | op :: ops, t =>
    Mention.journal op.command.mentions t ++
      match op.settle t with
      | .ok (step, t') => step.figure.journal ++ journal unfinished ops t'
      | .error _ => []

namespace Script

/-- The journal of cutting a text into a script. -/
def openingJournal (s : Script) : List Record := .classified s.tokens :: s.tokens.map .token

def journal (s : Script) (t : PointTable) : List Record :=
  let r := s.reading
  Operation.journal ((r.stop.map Stop.mentions).getD []) r.operations t ++
    match r.draw t with
    | .ok d => [.tree d.tree]
    | .error _ => []

def checkJournal (s : Script) (t : PointTable) : List Record :=
  s.journal t ++
    match s.parse t with
    | .ok d => (s.diagnostics d.tree).map .diagnostic
    | .error _ => []

end Script

end Planimetry
