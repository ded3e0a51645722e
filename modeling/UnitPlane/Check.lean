import UnitPlane.Formula.Typing
import UnitPlane.Formula.Value
import UnitPlane.Grid
import UnitPlane.MeasureUnit.Expression

/-!
# `UnitPlane.Check`: is the result what was asked for?

The dimension of a result is checked twice against the unit it is wanted in: before any sample is
taken, from the formula alone, and afterwards on the grid, from the text of the unit that is
attached to it.
-/

set_option autoImplicit false

namespace UnitPlane

/-- Two dimensions have to be the same. -/
def Dimension.require (stage : Stage) (actual expected : Dimension) : Except Fault PUnit :=
  if actual = expected then pure ⟨⟩ else throw (.dimensionality stage actual expected)

/-- The dimension of a formula, if the formula has a value where both variables are one and its
dimension is that of the target. -/
def Tree.preCheck (t : Tree) (x y : Dimension) (target : MeasureUnit) : Except Fault Dimension := do
  let _ ← t.value? 1 1
  let actual ← t.dimension? x y
  Dimension.require .preCheck actual target.dimension
  pure actual

/-- The dimension of the unit attached to a grid, if that unit has the dimension of the grid and of
the target. -/
def Grid.postCheck (g : Grid) (target : MeasureUnit) : Except Fault Dimension := do
  let attached ← MeasureUnit.resolve g.unit.expr
  Dimension.require .gridUnit attached.dimension g.dimension
  Dimension.require .postCheck attached.dimension target.dimension
  pure attached.dimension

end UnitPlane
