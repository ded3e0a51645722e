import UnitPlane.Grid

/-!
# `UnitPlane.Display`: results in the unit they are shown in

Magnitudes in one unit are divided by the scale factor to another to give magnitudes in that one.
-/

set_option autoImplicit false

namespace UnitPlane

/-- What one unit of `result` amounts to is divided into one to give the factor between the two
units, which have the same dimension. -/
def MeasureUnit.scaleFactor (result display : MeasureUnit) : Float :=
  1 / display.fromBase (result.toBase 1)

/-- A plane in another unit. -/
def Plane.rescale (p : Plane) (factor : Float) : Plane := p.map fun v => v / factor

end UnitPlane
