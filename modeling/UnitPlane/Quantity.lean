import UnitPlane.Fault
import UnitPlane.MeasureUnit.Expression

/-!
# `UnitPlane.Quantity`: magnitudes with a unit

The magnitude of a quantity is finite. Every conversion checks that it still is.
-/

set_option autoImplicit false

namespace UnitPlane

/-- A finite magnitude in a unit. -/
structure Quantity where
  magnitude : Float
  unit : MeasureUnit
  finite : magnitude.isFinite = true
deriving DecidableEq

namespace Quantity

/-- The quantity of a magnitude in a unit. -/
def ofUnit? (magnitude : Float) (unit : MeasureUnit) : Except Fault Quantity :=
  if h : magnitude.isFinite = true then pure ⟨magnitude, unit, h⟩
  else throw (.configuration (.magnitudeNotFinite magnitude unit.displayName))

/-- The quantity of a magnitude in the unit that an expression stands for. -/
def ofExpr? (magnitude : Float) (expr : String) : Except Fault Quantity := do
  ofUnit? magnitude (← MeasureUnit.resolve expr)

/-- What the quantity measures. -/
def dimension (q : Quantity) : Dimension := q.unit.dimension

/-- The same quantity in the base unit. -/
def toBase? (q : Quantity) : Except Fault Quantity :=
  ofUnit? (q.unit.toBase q.magnitude) (.base q.unit.dimension)

/-- The same quantity in another unit of its dimension. -/
def toUnit? (q : Quantity) (target : MeasureUnit) : Except Fault Quantity :=
  if target.dimension = q.unit.dimension then
    ofUnit? (target.fromBase (q.unit.toBase q.magnitude)) target
  else throw (.dimensionality .conversion q.unit.dimension target.dimension)

end Quantity

end UnitPlane
