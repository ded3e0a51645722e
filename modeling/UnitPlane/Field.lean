import UnitPlane.Formula.Typing
import UnitPlane.Grid
import UnitPlane.Limits
import UnitPlane.Samples

/-!
# `UnitPlane.Field`: formulas over a plane

A formula is evaluated on all points of a plane at once. Every part of it carries its dimension, so
the dimension of the result comes from the same walk over the nodes as its values. A part without
variables is one number, and any other part has a number for each point. Values follow floating
point arithmetic: a quotient by zero is an infinity or no number, and the plane carries it.
-/

set_option autoImplicit false

namespace UnitPlane

/-- The values of an expression on `n` points. -/
inductive Magnitude (n : Nat) where
  | constant (v : Float)
  | varying (values : Vector Float n)

namespace Magnitude

variable {n : Nat}

/-- The value, if it is one for all points. -/
def constant? : Magnitude n → Option Float
  | constant v => some v
  | varying _ => none

/-- An operator at every point. -/
def combine (op : Operator) : Magnitude n → Magnitude n → Magnitude n
  | constant a, constant b => constant (op.apply a b)
  | varying a, constant b => varying (a.map fun v => op.apply v b)
  | constant a, varying b => varying (b.map fun v => op.apply a v)
  | varying a, varying b => varying (Vector.zipWith op.apply a b)

/-- The value at every point. -/
def values : Magnitude n → Vector Float n
  | constant v => Vector.replicate n v
  | varying values => values

end Magnitude

/-- The values of an expression on `n` points, and what they measure. -/
structure Measured (n : Nat) where
  magnitude : Magnitude n
  dimension : Dimension

/-- The walk that evaluates a formula on `n` points where `xs` and `ys` are the values of the
variables, together with what the values measure. -/
def Walk.measure {n : Nat} (xs ys : Vector Float n) (x y : Dimension) : Walk (Measured n) where
  variableOperand
    | .x => ⟨.varying xs, x⟩
    | .y => ⟨.varying ys, y⟩
  literalOperand value := ⟨.constant value, .dimensionless⟩
  result op l r left right := do
    let dimension ←
      op.combine (.binary op l r) r left.dimension right.dimension right.magnitude.constant?
    pure ⟨left.magnitude.combine op right.magnitude, dimension⟩
  noOperand := .malformedTree

/-- The values of a tree on `n` points where `xs` and `ys` are the values of its variables, and what
they measure. -/
def Tree.measure {n : Nat} (xs ys : Vector Float n) (x y : Dimension) (t : Tree) :
    Except Fault (Measured n) := (Walk.measure xs ys x y).run t

/-- The first coordinate of every point of a plane. -/
def columnValues (xs ys : Array Float) : Vector Float (ys.size * xs.size) :=
  Vector.ofFn fun k =>
    have := (Plane.row_col_lt k.isLt).2
    xs[k.val % xs.size]

/-- The second coordinate of every point of a plane. -/
def rowValues (xs ys : Array Float) : Vector Float (ys.size * xs.size) :=
  Vector.ofFn fun k =>
    have := (Plane.row_col_lt k.isLt).1
    ys[k.val / xs.size]

/-- The values of a tree on the plane of two lists of samples, with a row for each of `ys` and a
column for each of `xs`, and what they measure. -/
def Tree.field? (t : Tree) (xs ys : Array Float) (x y : Dimension) (limits : Limits) :
    Except Fault (Plane × Dimension) := do
  let cells := ys.size * xs.size
  if limits.maxCells < cells then
    throw (.limitExceeded .cells (min cells Limits.ceiling) limits.maxCells)
  let m ← t.measure (columnValues xs ys) (rowValues xs ys) x y
  pure (.ofVector m.magnitude.values, m.dimension)

/-- The grid of a tree over the samples of two axes, in the base unit of its dimension. -/
def Tree.grid? (t : Tree) (xs ys : Samples) (limits : Limits) : Except Fault Grid := do
  let (plane, dimension) ← t.field? xs.values ys.values xs.dimension ys.dimension limits
  pure (.inBaseUnit plane dimension)

end UnitPlane
