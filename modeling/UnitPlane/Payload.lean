import UnitPlane.Contour
import UnitPlane.Decimal.Spelling

/-!
# `UnitPlane.Payload`: what a plotting program gets

A payload is the result of a job with everything that a plotting program needs put into words:
labels, titles, samples in the unit of their axis, the range of the displayed values, and the parts
of a file name.
-/

set_option autoImplicit false

namespace UnitPlane

/-- The parts of the name of a figure's file. -/
structure FileName where
  title : String
  resultUnit : String
  xUnit : String
  xFirst : String
  xLast : String
  yUnit : String
  yFirst : String
  yLast : String
deriving DecidableEq

/-- The name of the file, without an ending. -/
def FileName.stem (f : FileName) : String :=
  s!"F_{f.title}_{f.resultUnit}_X_{f.xUnit}_{f.xFirst}-{f.xLast}_Y_{f.yUnit}_{f.yFirst}-{f.yLast}"

/-- An axis with its label, its unit and its samples in that unit. -/
structure AxisPayload where
  label : String
  unit : String
  samples : List Float
deriving DecidableEq

/-- What a plotting program gets. -/
structure Payload where
  title : String
  /-- The formula and the unit it is displayed in. -/
  plotTitle : String
  formula : String
  horizontal : AxisPayload
  vertical : AxisPayload
  grid : Grid
  displayUnit : String
  /-- Magnitudes of the grid divided by this are magnitudes in the display unit. -/
  scaleFactor : Float
  /-- The range of the finite cells in the display unit. -/
  displayRange : Option (Float × Float)
  nonFiniteCells : Nat
  gridHash : String
  fileName : FileName
  fileStem : String
deriving DecidableEq

/-- A text with a unit after it. -/
def withUnit (s unit : String) : String := s!"{s} [{unit}]"

/-- The number of places of the bounds in a file name. -/
def boundPlaces : Nat := 2

/-- The bounds of an axis in a file name. -/
def Samples.boundTexts (s : Samples) : String × String :=
  match s.displayBounds? with
  | some (first, last) => (Decimal.fixed boundPlaces first, Decimal.fixed boundPlaces last)
  | none => ("", "")

/-- The payload of an axis. -/
def PlacedAxis.payload (a : PlacedAxis) : AxisPayload :=
  let unit := a.samples.unit.displayName
  ⟨withUnit a.label unit, unit, a.samples.display.toList⟩

/-- The parts of the file name of a result. -/
def Contour.fileName (c : Contour) (title : String) : FileName :=
  let (xFirst, xLast) := c.horizontal.samples.boundTexts
  let (yFirst, yLast) := c.vertical.samples.boundTexts
  { title
    resultUnit := c.displayUnit.displayName
    xUnit := c.horizontal.samples.unit.displayName
    xFirst
    xLast
    yUnit := c.vertical.samples.unit.displayName
    yFirst
    yLast }

/-- The payload of a result. -/
def Contour.payload (c : Contour) (title : String) : Payload :=
  let displayUnit := c.displayUnit.displayName
  let formula := c.formula.text
  let factor := c.scaleFactor
  { title
    plotTitle := withUnit formula displayUnit
    formula
    horizontal := c.horizontal.payload
    vertical := c.vertical.payload
    grid := c.grid
    displayUnit
    scaleFactor := factor
    displayRange := c.grid.finiteRange?.map fun (low, high) => (low / factor, high / factor)
    nonFiniteCells := c.grid.nonFiniteCount
    gridHash := c.grid.digest
    fileName := c.fileName title
    fileStem := (c.fileName title).stem }

/-- The cells of the grid in the display unit. -/
def Payload.displayValues (p : Payload) : Plane := p.grid.plane.rescale p.scaleFactor

end UnitPlane
