import UnitPlane.Hash.Blake3
import UnitPlane.MeasureUnit.Basic
import UnitPlane.Plane

/-!
# `UnitPlane.Grid`: planes of a quantity

A grid is a plane of magnitudes with their dimension and the unit they are in. Its digest identifies
the shape, the unit and the exact cells.
-/

set_option autoImplicit false

namespace UnitPlane

/-- A plane of magnitudes in a unit. -/
structure Grid where
  plane : Plane
  dimension : Dimension
  unit : MeasureUnit
deriving DecidableEq

namespace Grid

/-- The grid of magnitudes in the base unit of a dimension. -/
def inBaseUnit (plane : Plane) (dimension : Dimension) : Grid :=
  ⟨plane, dimension, .base dimension⟩

/-- Rows and columns exchanged. -/
def transpose (g : Grid) : Grid := { g with plane := g.plane.transpose }

/-- A range widened to a value. A value equal to a bound takes its place, so of two zeros the one
met last stays, with its sign. -/
def widen (range : Option (Float × Float)) (v : Float) : Option (Float × Float) :=
  match range with
  | none => some (v, v)
  | some (low, high) => some (if v ≤ low then v else low, if high ≤ v then v else high)

/-- The smallest and the largest of the finite values. -/
def rangeOf? (values : List Float) : Option (Float × Float) :=
  (values.filter Float.isFinite).foldl widen none

/-- The smallest and the largest of the finite cells. -/
def finiteRange? (g : Grid) : Option (Float × Float) := rangeOf? g.plane.cells.toList

/-- The number of cells that are not finite. -/
def nonFiniteCount (g : Grid) : Nat := g.plane.cells.toList.countP fun v => !v.isFinite

/-- Whether a cell is no number. -/
def hasNaN (g : Grid) : Bool := g.plane.cells.any Float.isNaN

/-! ### Digests -/

/-- The eight bytes of a word, the lowest first. -/
def wordBytes (w : UInt64) : List UInt8 :=
  [w.toUInt8, (w >>> 8).toUInt8, (w >>> 16).toUInt8, (w >>> 24).toUInt8, (w >>> 32).toUInt8,
    (w >>> 40).toUInt8, (w >>> 48).toUInt8, (w >>> 56).toUInt8]

/-- What the digest is taken of: the numbers of rows and columns, the unit's expression, and the
bits of every cell, row by row. -/
def digestInput (g : Grid) : List UInt8 :=
  wordBytes g.plane.rows.toUInt64 ++ wordBytes g.plane.cols.toUInt64 ++
    g.unit.expr.toUTF8.toList ++ g.plane.cells.toList.flatMap fun v => wordBytes v.toBits

/-- The digest with the name of its hash. -/
def digest (g : Grid) : String := "blake3:" ++ Blake3.hex (Blake3.hash g.digestInput)

end Grid

end UnitPlane
