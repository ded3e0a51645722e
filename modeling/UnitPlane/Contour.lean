import UnitPlane.Axis
import UnitPlane.Check
import UnitPlane.Display
import UnitPlane.Field
import UnitPlane.Formula.Parser

/-!
# `UnitPlane.Contour`: a job from request to result

A request names a formula, two axes and the unit that the result is wanted in. `Request.run`
resolves the units, reads the formula, checks its dimension, samples the axes, evaluates the formula
over them and checks the grid. The first fault ends the job.
-/

set_option autoImplicit false

namespace UnitPlane

/-- A job: a formula over two axes, and the unit that its result must have. -/
structure Request where
  title : String
  xLabel : String
  yLabel : String
  formula : String
  targetUnit : String
  xAxis : Axis
  yAxis : Axis
  /-- Whether `y` is drawn on the horizontal axis. The formula still binds `x` and `y` to their own
  axes. -/
  swapAxes : Bool := false
deriving DecidableEq

/-- An axis as it is drawn. -/
structure PlacedAxis where
  label : String
  samples : Samples
deriving DecidableEq

/-- The result of a job. -/
structure Contour where
  formula : Formula
  /-- A row for each vertical sample and a column for each horizontal one, in the base unit. -/
  grid : Grid
  horizontal : PlacedAxis
  vertical : PlacedAxis
  displayUnit : MeasureUnit
  /-- Magnitudes of the grid divided by this are magnitudes in the display unit. -/
  scaleFactor : Float
  swapped : Bool
deriving DecidableEq

/-- The result with `x` on the horizontal axis. -/
def Contour.place (formula : Formula) (grid : Grid) (x y : PlacedAxis) (target : MeasureUnit) :
    Contour where
  formula := formula
  grid := grid
  horizontal := x
  vertical := y
  displayUnit := target
  scaleFactor := grid.unit.scaleFactor target
  swapped := false

/-- The result with the axes exchanged. -/
def Contour.swap (c : Contour) : Contour :=
  { c with
    grid := c.grid.transpose
    horizontal := c.vertical
    vertical := c.horizontal
    swapped := !c.swapped }

/-- The result of a request, with `x` on the horizontal axis. -/
def Request.runPlain (r : Request) (limits : Limits) : Except Fault Contour := do
  -- every unit has to resolve before any work starts
  let xUnit ← MeasureUnit.resolve r.xAxis.unit
  let yUnit ← MeasureUnit.resolve r.yAxis.unit
  let target ← MeasureUnit.resolve r.targetUnit
  let formula ← Formula.parse limits r.formula
  let _ ← formula.tree.preCheck xUnit.dimension yUnit.dimension target
  let x ← r.xAxis.samplesIn? xUnit limits
  let y ← r.yAxis.samplesIn? yUnit limits
  let grid ← formula.tree.grid? x y limits
  let _ ← grid.postCheck target
  pure (.place formula grid ⟨r.xLabel, x⟩ ⟨r.yLabel, y⟩ target)

/-- The result of a request. -/
def Request.run (r : Request) (limits : Limits) : Except Fault Contour := do
  let c ← r.runPlain limits
  pure (if r.swapAxes then c.swap else c)

end UnitPlane
