import Planimetry.Grid
import Planimetry.Sink
import Planimetry.Text.Quoted

/-!
# Exports

An export collects the primitives of a drawing and writes, at the end, the text of a program that
rebuilds the drawing primitive by primitive and prints the marks of it.

## Main definitions

* `Export.programText`: the text of a drawing on a grid.
* `Export.finish`: writes the collected primitives to a sink.
-/

namespace Planimetry

/-- Primitives that wait to be written. -/
structure Export where
  pending : List Primitive
  grid : Grid
  /-- Nothing is collected or written any more. -/
  silenced : Bool

namespace Export

/-! ## The exported text -/

def expression : Primitive → String
  | .point name c =>
    s!"Primitive::point({Text.quoted name}, {c.x.toInt}, {c.y.toInt})"
  | .segment a b =>
    s!"Primitive::segment({a.x.toInt}, {a.y.toInt}, {b.x.toInt}, {b.y.toInt})"

def pushLine (p : Primitive) : String := s!"    primitives.push({expression p});"

/-- The lines of the exported program. -/
def programLines (g : Grid) (ps : List Primitive) : List String :=
  [s!"// Rebuilds a drawing on a {g.width.toInt}x{g.height.toInt} grid.",
   "use geodsl::\x7bGrid, Primitive\x7d;",
   "",
   "fn main() \x7b",
   s!"    let mut primitives = Vec::with_capacity({ps.length});"] ++
  ps.map pushLine ++
  ["",
   s!"    let grid = Grid::new({g.width.toInt}, {g.height.toInt}, {g.spacing.toInt});",
   "    for mark in grid.plot(&primitives) \x7b",
   "        println!(\"\x7b\x7d\", mark);",
   "    \x7d",
   "\x7d"]

/-- The exported program; every line ends with a line feed. -/
def programText (g : Grid) (ps : List Primitive) : String :=
  String.join ((programLines g ps).map (· ++ "\n"))

/-! ## Collecting and writing -/

/-- An export that has collected nothing. -/
def ofGrid (g : Grid) : Export := ⟨[], g, false⟩

/-- The number of primitives that wait to be written. -/
def count (e : Export) : Nat := e.pending.length

def add (e : Export) (p : Primitive) : Export :=
  if e.silenced then e else { e with pending := e.pending ++ [p] }

def addAll (e : Export) (ps : List Primitive) : Export :=
  if e.silenced then e else { e with pending := e.pending ++ ps }

/-- Drops what waits to be written and collects nothing from now on. -/
def silence (e : Export) : Export := { e with pending := [], silenced := true }

def setGrid (e : Export) (g : Grid) : Export := { e with grid := g }

/-- Writes the program of the collected primitives. If the sink refuses, they keep waiting. -/
def finish (e : Export) (s : Sink) : Except SinkFault Export × Sink :=
  if e.silenced then (.ok e, s)
  else
    match s.deliver (programText e.grid e.pending).toUTF8.toList with
    | (.ok (), s') => (.ok { e with pending := [] }, s')
    | (.error x, s') => (.error x, s')

end Export

end Planimetry
