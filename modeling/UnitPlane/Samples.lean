import UnitPlane.MeasureUnit.Basic

/-!
# `UnitPlane.Samples`: the samples of an axis
-/

set_option autoImplicit false

namespace UnitPlane

/-- Samples in the base unit of a unit, which they are displayed in. -/
structure Samples where
  values : Array Float
  unit : MeasureUnit
deriving DecidableEq

namespace Samples

/-- What the samples measure. -/
def dimension (s : Samples) : Dimension := s.unit.dimension

/-- The expression of the unit that the values are in. -/
def baseUnit (s : Samples) : String := s.unit.dimension.baseUnit

/-- The samples in the unit they are displayed in. -/
def display (s : Samples) : Array Float := s.values.map s.unit.fromBase

/-- The first and the last sample in the unit they are displayed in. -/
def displayBounds? (s : Samples) : Option (Float × Float) :=
  match s.values[0]?, s.values.back? with
  | some first, some last => some (s.unit.fromBase first, s.unit.fromBase last)
  | _, _ => none

end Samples

end UnitPlane
