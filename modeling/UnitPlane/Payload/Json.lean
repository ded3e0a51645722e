import UnitPlane.Json.Value
import UnitPlane.Payload

/-!
# `UnitPlane.Payload.Json`: payloads as JSON texts

A payload is one document, and a line break ends it. Documents written one after another on one line
each can be told apart by their line breaks.
-/

set_option autoImplicit false

namespace UnitPlane

open Json

/-- The version of the array format. -/
def planeFormat : Nat := 1

/-- A plane as an array: its shape, and the cells row by row. -/
def Plane.toJson (p : Plane) : Value :=
  .object [
    ("v", .natural planeFormat),
    ("dim", .array [.natural p.rows, .natural p.cols]),
    ("data", numbers p.cells.toList)]

/-- The record of a unit. -/
def MeasureUnit.toJson (u : MeasureUnit) : Value :=
  .object [
    ("expr", .string u.expr),
    ("dimension", .string u.dimension.text),
    ("scale", .number u.scale)]

/-- The record of a grid. -/
def Grid.toJson (g : Grid) : Value :=
  .object [
    ("values", g.plane.toJson),
    ("dimension", .string g.dimension.text),
    ("unit", g.unit.toJson)]

/-- The record of a file name. -/
def FileName.toJson (f : FileName) : Value :=
  .object [
    ("title", .string f.title),
    ("result_unit", .string f.resultUnit),
    ("x_unit", .string f.xUnit),
    ("x_first", .string f.xFirst),
    ("x_last", .string f.xLast),
    ("y_unit", .string f.yUnit),
    ("y_first", .string f.yFirst),
    ("y_last", .string f.yLast)]

/-- The record of an axis. -/
def AxisPayload.toJson (a : AxisPayload) : Value :=
  .object [
    ("label", .string a.label),
    ("unit", .string a.unit),
    ("samples", numbers a.samples)]

/-- A range as a pair, or null. -/
def rangeToJson : Option (Float × Float) → Value
  | some (low, high) => numbers [low, high]
  | none => .null

namespace Payload

/-- The record of a payload. -/
def toJson (p : Payload) : Value :=
  .object [
    ("title", .string p.title),
    ("plot_title", .string p.plotTitle),
    ("formula", .string p.formula),
    ("horizontal", p.horizontal.toJson),
    ("vertical", p.vertical.toJson),
    ("grid", p.grid.toJson),
    ("display_unit", .string p.displayUnit),
    ("scale_factor", .number p.scaleFactor),
    ("display_range", rangeToJson p.displayRange),
    ("non_finite_cells", .natural p.nonFiniteCells),
    ("grid_hash", .string p.gridHash),
    ("filename", p.fileName.toJson),
    ("file_stem", .string p.fileStem)]

/-- The document of a payload. -/
def document (layout : Layout) (p : Payload) : String := p.toJson.line layout

/-- The documents of payloads, one after another. -/
def documents (layout : Layout) (ps : List Payload) : String :=
  String.join (ps.map (document layout))

end Payload

/-- A writer that is given payloads one by one, and the bytes that it has written. -/
structure Sink where
  layout : Layout
  written : ByteArray

namespace Sink

/-- A writer that has written nothing. -/
def new (layout : Layout) : Sink := ⟨layout, ByteArray.empty⟩

/-- Writes the document of one more payload. -/
def emit (s : Sink) (p : Payload) : Sink :=
  { s with written := s.written ++ (p.document s.layout).toUTF8 }

end Sink

end UnitPlane
