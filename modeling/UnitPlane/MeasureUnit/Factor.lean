import UnitPlane.Dimension
import UnitPlane.Power

/-!
# `UnitPlane.MeasureUnit.Factor`: dimensions with a scale

A `Factor` is what one part of a unit expression stands for: a dimension, and how many base units of
that dimension the part amounts to. Factors multiply, divide and have rational powers. An integer
power squares repeatedly; any other power is taken in one step.
-/

set_option autoImplicit false

namespace UnitPlane

/-- A dimension, and a scale in its base unit. -/
structure Factor where
  dimension : Dimension
  scale : Float
deriving DecidableEq

namespace Factor

/-- A pure number. -/
def ofNumber (scale : Float) : Factor := ⟨.dimensionless, scale⟩

/-- The product, if its dimension exists. -/
def mul? (a b : Factor) : Option Factor :=
  (a.dimension.mul? b.dimension).map fun d => ⟨d, a.scale * b.scale⟩

/-- The quotient, if its dimension exists. -/
def div? (a b : Factor) : Option Factor :=
  (a.dimension.div? b.dimension).map fun d => ⟨d, a.scale / b.scale⟩

/-- `product` times the powers `square ^ 2`, `square ^ 4`, … that the binary digits of `digits`
select, the lowest first. -/
def squareAndMultiply (square product : Float) (digits : Nat) : Float :=
  if digits = 0 then product
  else
    let square := square * square
    squareAndMultiply square (if digits % 2 = 1 then product * square else product) (digits / 2)
termination_by digits

/-- A power with a natural exponent. -/
def powNat (a : Float) (n : Nat) : Float :=
  squareAndMultiply a (if n % 2 = 1 then a else 1) (n / 2)

/-- A power with an integer exponent. -/
def powInt (a : Float) (n : Int) : Float :=
  if n < 0 then 1 / powNat a n.natAbs else powNat a n.natAbs

/-- A power of a scale. -/
def powScale (a : Float) (p : Exponent) : Float :=
  if p.den = 1 then powInt a p.num else realPower a (Float.ofInt p.num / Float.ofNat p.den)

/-- The power, if its dimension exists. -/
def pow? (a : Factor) (p : Exponent) : Option Factor :=
  (a.dimension.pow? p).map fun d => ⟨d, powScale a.scale p⟩

end Factor

end UnitPlane
