import UnitPlane.Exponent
import UnitPlane.Rounding

/-!
# `UnitPlane.Exponent.Fraction`: doubles read as simple fractions

The exponent of a power is computed in floating point, but scales a dimension exactly. It is read as
the fraction with the smallest denominator that it is close to.
-/

set_option autoImplicit false

namespace UnitPlane.Exponent

/-- The largest denominator of a simple fraction. -/
def maxDenominator : Nat := 1000

/-- How far a double may be from the fraction it is read as. -/
def tolerance (x : Float) : Float := 1e-9 * (if x.abs < 1 then 1 else x.abs)

/-- The numerator nearest to `x` over a given denominator, and whether it is close to it. -/
def atDenominator (x : Float) (d : Nat) : Option (Int × Bool) := do
  let n ← Rounding.nearest? (x * Float.ofNat d)
  if 2147483647 < n.natAbs then none
  else some (n, decide ((Float.ofInt n / Float.ofNat d - x).abs ≤ tolerance x))

/-- The first fraction that is close to `x`, from the denominator `d` on, as long as the numerators
fit. -/
def searchFrom (x : Float) : (steps d : Nat) → Option Exponent
  | 0, _ => none
  | steps + 1, d =>
    match atDenominator x d with
    | none => none
    | some (n, true) => ofFraction? n d
    | some (_, false) => searchFrom x steps (d + 1)

/-- The simple fraction that a double is close to. -/
def ofFloat? (x : Float) : Option Exponent :=
  if x.isFinite then searchFrom x maxDenominator 1 else none

end UnitPlane.Exponent
