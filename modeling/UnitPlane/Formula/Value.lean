import UnitPlane.Formula.Printer
import UnitPlane.Formula.Walk

/-!
# `UnitPlane.Formula.Value`: the value of a formula at a point

`Tree.value` is the plain floating point value. `Tree.value?` walks over the nodes of the formula
and gives the same, except that it refuses to divide by zero and names the subexpression that would.
-/

set_option autoImplicit false

namespace UnitPlane

/-- Whether an operator divides by zero: a quotient by zero, or zero to a negative power. -/
def Operator.dividesByZero : Operator → Float → Float → Bool
  | div, _, r => r == 0
  | pow, l, r => l == 0 && decide (r < 0)
  | _, _, _ => false

/-- The walk that evaluates a formula at a point. -/
def Walk.point (x y : Float) : Walk Float where
  variableOperand
    | .x => x
    | .y => y
  literalOperand value := value
  result op l r a b :=
    if op.dividesByZero a b then throw (.zeroDivision (Tree.binary op l r).text x y)
    else pure (op.apply a b)
  noOperand := .malformedTree

namespace Tree

/-- The floating point value at a point. -/
def value (x y : Float) : Tree → Float
  | var .x => x
  | var .y => y
  | literal value => value
  | binary op l r => op.apply (l.value x y) (r.value x y)

/-- The value at a point, if nothing is divided by zero on the way. -/
def value? (x y : Float) (t : Tree) : Except Fault Float := (Walk.point x y).run t

end Tree

end UnitPlane
