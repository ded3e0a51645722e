/-!
# `UnitPlane.Power`: powers of doubles

The platform's power function keeps two rules whatever the other number is: one to any power is one,
and any number to the power zero is one. They are written out here, so that what is said of powers
can use them; all other powers are the platform's.
-/

set_option autoImplicit false

namespace UnitPlane

/-- `x` to the power `y`. -/
def realPower (x y : Float) : Float := if x == 1 || y == 0 then 1 else Float.pow x y

end UnitPlane
