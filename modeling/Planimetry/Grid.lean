import Planimetry.Primitive

/-!
# Grids

A grid maps coordinates to the pixels of a surface. The origin lies in the middle of the surface,
x grows to the right and y upward, so pixel rows run against grid rows.

## Main definitions

* `Grid.toPixel`: the pixel of a coordinate, kept inside the range of pixels.
* `Grid.readout`: the coordinate that a pixel belongs to.
* `Grid.plot`: the marks of a drawing.
-/

namespace Planimetry

/-- A place on a surface, in pixels from its upper left corner. -/
structure Pixel where
  x : Int32
  y : Int32
deriving DecidableEq

/-- The size of a surface and the distance between neighbouring grid lines. -/
structure Grid where
  width : Int32
  height : Int32
  spacing : Int32
deriving DecidableEq

namespace Grid

/-- The grid with the given measures; a spacing below one pixel is raised to one. -/
def ofMeasures (width height spacing : Int32) : Grid := ⟨width, height, max spacing 1⟩

/-- The grid of a drawing that asks for none. -/
def standard : Grid := ofMeasures 800 600 40

instance : Inhabited Grid := ⟨standard⟩

def center (g : Grid) : Pixel := ⟨g.width / 2, g.height / 2⟩

/-- The product, clamped. -/
def scale (g : Grid) (n : Int32) : Int32 := Scalar.clamp (n.toInt * g.spacing.toInt)

/-- The pixel of a coordinate. Product and sum are each clamped to the range of pixels. -/
def toPixel (g : Grid) (c : Coord) : Pixel :=
  ⟨Scalar.clamp (g.center.x.toInt + (g.scale c.x).toInt),
    Scalar.clamp (g.center.y.toInt - (g.scale c.y).toInt)⟩

/-- The grid cell under a pixel, fractions dropped. -/
def readout (g : Grid) (p : Pixel) : Except ArithmeticFault Coord := do
  let dx ← Scalar.sub p.x g.center.x
  let x ← Scalar.div dx g.spacing
  let dy ← Scalar.sub p.y g.center.y
  let up ← Scalar.neg dy
  let y ← Scalar.div up g.spacing
  return ⟨x, y⟩

/-- The text that shows the grid cell under a pointer. -/
def pointerLabel (g : Grid) (p : Pixel) : Except ArithmeticFault String := do
  let c ← g.readout p
  return s!"Mouse: ({c.x.toInt}, {c.y.toInt})"

end Grid

/-- A primitive on a surface. -/
inductive Mark where
  | point (name : String) (p : Pixel)
  | line (p q : Pixel)
deriving DecidableEq

namespace Mark

def text : Mark → String
  | point name p => s!"point {name} at {p.x.toInt},{p.y.toInt}"
  | line p q => s!"line {p.x.toInt},{p.y.toInt} -> {q.x.toInt},{q.y.toInt}"

instance : ToString Mark := ⟨text⟩

end Mark

namespace Grid

def mark (g : Grid) : Primitive → Mark
  | .point name c => .point name (g.toPixel c)
  | .segment a b => .line (g.toPixel a) (g.toPixel b)

def plot (g : Grid) (ps : List Primitive) : List Mark := ps.map g.mark

end Grid

end Planimetry
