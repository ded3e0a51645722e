import UnitPlane.Contour
import UnitPlane.Json.Number
import UnitPlane.Json.Reader
import UnitPlane.Json.Record
import UnitPlane.Json.Value

/-!
# `UnitPlane.Contour.Json`: requests as JSON texts
-/

set_option autoImplicit false

namespace UnitPlane

open Json

namespace Axis

/-- The names of the fields of an axis. -/
def fieldNames : List String := ["start", "stop", "step_or_count", "is_count", "is_log", "unit"]

/-- The density given by a number and whether it counts samples. -/
def densityOf (amount : Float) (isCount : Bool) : Density :=
  if isCount then .count amount else .step amount

/-- The spacing given by whether it is logarithmic. -/
def spacingOf (isLog : Bool) : Spacing := if isLog then .logarithmic else .linear

/-- Whether the density counts samples. -/
def isCount (a : Axis) : Bool :=
  match a.density with
  | .count _ => true
  | .step _ => false

/-- The axis of a record. -/
def ofRaw? (r : Raw) : Option Axis :=
  match r.fields? fieldNames with
  | some [some start, some stop, some amount, some isCount, some isLog, some unit] => do
    let start ← start.toFloat?
    let stop ← stop.toFloat?
    let amount ← amount.toFloat?
    let isCount ← isCount.toBool?
    let isLog ← isLog.toBool?
    let unit ← unit.toString?
    pure ⟨start, stop, densityOf amount isCount, spacingOf isLog, unit⟩
  | _ => none

/-- The record of an axis. -/
def toJson (a : Axis) : Value :=
  .object [
    ("start", .number a.start),
    ("stop", .number a.stop),
    ("step_or_count", .number a.density.amount),
    ("is_count", .bool a.isCount),
    ("is_log", .bool (a.spacing = .logarithmic)),
    ("unit", .string a.unit)]

end Axis

namespace Request

/-- The names of the fields of a request. -/
def fieldNames : List String :=
  ["title", "x_label", "y_label", "formula", "target_unit", "x_axis", "y_axis", "swap_axes"]

/-- The request of a record. Only the exchange of the axes may be left out. -/
def ofRaw? (r : Raw) : Option Request :=
  match r.fields? fieldNames with
  | some [some title, some xLabel, some yLabel, some formula, some targetUnit, some xAxis,
      some yAxis, swapAxes] => do
    let title ← title.toString?
    let xLabel ← xLabel.toString?
    let yLabel ← yLabel.toString?
    let formula ← formula.toString?
    let targetUnit ← targetUnit.toString?
    let xAxis ← Axis.ofRaw? xAxis
    let yAxis ← Axis.ofRaw? yAxis
    let swapAxes ← fieldOr false Raw.toBool? swapAxes
    pure { title, xLabel, yLabel, formula, targetUnit, xAxis, yAxis, swapAxes }
  | _ => none

/-- The request that a text stands for. -/
def ofJson? (s : String) : Option Request := (Json.read? s).bind ofRaw?

/-- The record of a request. -/
def toJson (r : Request) : Value :=
  .object [
    ("title", .string r.title),
    ("x_label", .string r.xLabel),
    ("y_label", .string r.yLabel),
    ("formula", .string r.formula),
    ("target_unit", .string r.targetUnit),
    ("x_axis", r.xAxis.toJson),
    ("y_axis", r.yAxis.toJson),
    ("swap_axes", .bool r.swapAxes)]

end Request

end UnitPlane
