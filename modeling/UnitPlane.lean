import UnitPlane.Decimal.Spelling
import UnitPlane.Decimal.Numeral
import UnitPlane.Dimension
import UnitPlane.Limits
import UnitPlane.Text.CharClass
import UnitPlane.Fault
import UnitPlane.MeasureUnit.Expression
import UnitPlane.Formula.Parser
import UnitPlane.Formula.Walk
import UnitPlane.Formula.Typing
import UnitPlane.Formula.Value
import UnitPlane.Formula.Arena
import UnitPlane.Formula.Arena.Walk
import UnitPlane.Axis
import UnitPlane.Field
import UnitPlane.Payload
import UnitPlane.Json.Value
import UnitPlane.Json.Reader
import UnitPlane.Json.Number
import UnitPlane.Limits.Json
import UnitPlane.Contour.Json
import UnitPlane.Payload.Json
import UnitPlane.Main
import UnitPlane.Proofs.Support.Except
import UnitPlane.Proofs.Text
import UnitPlane.Proofs.Text.Bytes
import UnitPlane.Proofs.Exponent
import UnitPlane.Proofs.Double.Canonical
import UnitPlane.Proofs.Double.Rounding
import UnitPlane.Proofs.Double.Arithmetic
import UnitPlane.Proofs.Double.Scientific
import UnitPlane.Proofs.Decimal.Written
import UnitPlane.Proofs.Decimal.ReadBack
import UnitPlane.Proofs.Formula.Walk
import UnitPlane.Proofs.Formula.Evaluation
import UnitPlane.Proofs.Formula.Typing
import UnitPlane.Proofs.Formula.Grammar
import UnitPlane.Proofs.Formula.Reading
import UnitPlane.Proofs.Formula.Readers
import UnitPlane.Proofs.Formula.Soundness
import UnitPlane.Proofs.Formula.Completeness
import UnitPlane.Proofs.Formula.Words
import UnitPlane.Proofs.Formula.Rereading
import UnitPlane.Proofs.Formula.Agreement
import UnitPlane.Proofs.Formula.Rendering
import UnitPlane.Proofs.Field
import UnitPlane.Proofs.MeasureUnit.Reading
import UnitPlane.Proofs.MeasureUnit.Power
import UnitPlane.Proofs.MeasureUnit.BaseUnit
import UnitPlane.Proofs.Contour
import UnitPlane.Proofs.MeasureUnit.BaseUnitText
import UnitPlane.Proofs.Formula.Acceptance
import UnitPlane.Proofs.Double.Integer
import UnitPlane.Proofs.Exponent.Fraction
import UnitPlane.Proofs.Dimension
import UnitPlane.Proofs.Formula.Rescaling
import UnitPlane.Proofs.MeasureUnit.Grammar
import UnitPlane.Proofs.MeasureUnit.Symbols
import UnitPlane.Proofs.MeasureUnit.Leaves
import UnitPlane.Proofs.MeasureUnit.Completeness
import UnitPlane.Proofs.MeasureUnit.Soundness
import UnitPlane.Proofs.MeasureUnit.Resolution
import UnitPlane.Proofs.Double.Order
import UnitPlane.Proofs.Double.Whole
import UnitPlane.Proofs.Double.Near
import UnitPlane.Proofs.Axis
import UnitPlane.Proofs.Limits
import UnitPlane.Proofs.Formula.Letters
import UnitPlane.Proofs.Formula.Exchange
import UnitPlane.Proofs.Plane
import UnitPlane.Proofs.Exchange
import UnitPlane.Proofs.Formula.Blame
import UnitPlane.Proofs.Grid
import UnitPlane.Proofs.Digest
import UnitPlane.Proofs.Swap
import UnitPlane.Proofs.Double.Quotient
import UnitPlane.Proofs.Double.Reciprocal
import UnitPlane.Proofs.Display
import UnitPlane.Proofs.Json.Reading
import UnitPlane.Proofs.Json.Scalars
import UnitPlane.Proofs.Json.ReadBack
import UnitPlane.Proofs.Json.Lines
import UnitPlane.Proofs.Lines
import UnitPlane.Proofs.Formula.Lines
import UnitPlane.Proofs.MeasureUnit.Lines
import UnitPlane.Proofs.Contour.Faults
import UnitPlane.Proofs.CommandLine.Arguments
import UnitPlane.Proofs.CommandLine.Limits
import UnitPlane.Proofs.CommandLine.Report
import UnitPlane.Proofs.Nested
import UnitPlane.Proofs.Formula.RoundTrip
import UnitPlane.Proofs.Formula.Loosening
import UnitPlane.Proofs.Formula.Brackets
import UnitPlane.Proofs.Exponent.Stored
import UnitPlane.Proofs.Dimension.Stored
import UnitPlane.Proofs.Double.Negation
import UnitPlane.Proofs.Double.Rounded
import UnitPlane.Proofs.Double.Tolerance
import UnitPlane.Proofs.Double.Division
import UnitPlane.Proofs.Double.Closest
import UnitPlane.Proofs.Axis.Steps
import UnitPlane.Proofs.Exponent.Opposite
import UnitPlane.Proofs.Exponent.Simple
import UnitPlane.Proofs.Formula.Scanning
import UnitPlane.Proofs.Formula.Reciprocal
import UnitPlane.Proofs.Range
import UnitPlane.Proofs.Double.Conversion
import UnitPlane.Proofs.Quantity
import UnitPlane.Proofs.Formula.Tiling
import UnitPlane.Proofs.Formula.Arena.Reading
import UnitPlane.Proofs.Formula.Arena.Layout
import UnitPlane.Proofs.Formula.Arena.Descent
import UnitPlane.Proofs.Formula.Arena.Trees
import UnitPlane.Proofs.Formula.Arena.Walk
import UnitPlane.Proofs.Formula.Arena.Sharing
import UnitPlane.Proofs.Formula.Arena.OneTree
import UnitPlane.Proofs.Formula.Spacing
import UnitPlane.Proofs.Formula.Due
import UnitPlane.Proofs.Formula.Halting
import UnitPlane.Proofs.Formula.Offender
