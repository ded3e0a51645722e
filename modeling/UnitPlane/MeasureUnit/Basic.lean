import UnitPlane.MeasureUnit.Factor

/-!
# `UnitPlane.MeasureUnit.Basic`: units of measure
-/

set_option autoImplicit false

namespace UnitPlane

/-- A unit: the expression it was written as, its dimension, and its size in the base unit. -/
structure MeasureUnit where
  expr : String
  dimension : Dimension
  scale : Float
deriving DecidableEq

namespace MeasureUnit

/-- The base unit of a dimension. -/
def base (d : Dimension) : MeasureUnit := ⟨d.baseUnit, d, 1⟩

/-- The unit of pure numbers, which has an empty expression. -/
def dimensionless : MeasureUnit := base .dimensionless

/-- Whether the unit measures pure numbers. -/
def isDimensionless (u : MeasureUnit) : Bool := u.dimension.isDimensionless

/-- The name of the unit in labels and file names. -/
def displayName (u : MeasureUnit) : String := if u.expr = "" then "dimensionless" else u.expr

/-- A magnitude in this unit, given in the base unit. -/
def toBase (u : MeasureUnit) (magnitude : Float) : Float := magnitude * u.scale

/-- A magnitude in the base unit, given in this unit. -/
def fromBase (u : MeasureUnit) (magnitude : Float) : Float := magnitude / u.scale

end MeasureUnit

end UnitPlane
