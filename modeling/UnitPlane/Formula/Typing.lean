import UnitPlane.Exponent.Fraction
import UnitPlane.Formula.Printer
import UnitPlane.Formula.Walk

/-!
# `UnitPlane.Formula.Typing`: the dimension of a formula

Sums and differences need operands of one dimension; products and quotients add and subtract
exponents. The exponent of a power is a pure number, and if the base has a dimension it must be a
constant that is a simple fraction, because the dimension of the power has to be known.
`Operator.combine` states these rules for one operator, and `Tree.typing?` applies them in a walk
over the nodes of a tree.
-/

set_option autoImplicit false

namespace UnitPlane

/-- A dimension, or the fault of an exponent that does not fit. -/
def Dimension.orOverflow (d : Option Dimension) : Except Fault Dimension :=
  match d with
  | some d => pure d
  | none => throw .exponentOverflow

/-- The dimension of the power that `exponent` stands in, for a base of dimension `base`. -/
def Operator.combinePower (exponent : Tree) (base dimension : Dimension) (constant : Option Float) :
    Except Fault Dimension :=
  if !dimension.isDimensionless then throw (.exponentDimension exponent.text dimension)
  else if base.isDimensionless then pure .dimensionless
  else
    match constant with
    | none => throw (.exponentValue exponent.text .notConstant)
    | some value =>
      match Exponent.ofFloat? value with
      | none => throw (.exponentValue exponent.text .notSimpleFraction)
      | some p => Dimension.orOverflow (base.pow? p)

/-- The dimension of an operator's result from those of its operands. A fault names the tree `whole`
or its right operand. The value of the right operand is given if it is a constant. -/
def Operator.combine (op : Operator) (whole right : Tree) (l r : Dimension)
    (constant : Option Float) : Except Fault Dimension :=
  match op with
  | add | sub => if l = r then pure l else throw (.dimensionMismatch whole.text l r)
  | mul => Dimension.orOverflow (l.mul? r)
  | div => Dimension.orOverflow (l.div? r)
  | pow => combinePower right l r constant

/-- What is known of a tree without samples: its dimension, and its value if it has no variables. -/
structure Typing where
  dimension : Dimension
  constant : Option Float
deriving DecidableEq

/-- The walk that finds typings from the dimensions of the variables. -/
def Walk.typing (x y : Dimension) : Walk Typing where
  variableOperand
    | .x => ⟨x, none⟩
    | .y => ⟨y, none⟩
  literalOperand value := ⟨.dimensionless, some value⟩
  result op l r left right := do
    let constant := do
      let a ← left.constant
      let b ← right.constant
      pure (op.apply a b)
    let dimension ←
      op.combine (.binary op l r) r left.dimension right.dimension right.constant
    pure ⟨dimension, constant⟩
  noOperand := .badSyntax 0 .emptyFormula

namespace Tree

/-- The typing of a tree whose variables have the given dimensions. -/
def typing? (x y : Dimension) (t : Tree) : Except Fault Typing := (Walk.typing x y).run t

/-- The dimension of a tree whose variables have the given dimensions. -/
def dimension? (x y : Dimension) (t : Tree) : Except Fault Dimension := do
  let typing ← t.typing? x y
  pure typing.dimension

end Tree

end UnitPlane
