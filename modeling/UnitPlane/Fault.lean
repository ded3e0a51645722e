import UnitPlane.Decimal.Spelling
import UnitPlane.Dimension

/-!
# `UnitPlane.Fault`: what can go wrong in a job

A `Fault` says what went wrong, in terms of the job. Its `code` names the kind of fault for
programs, and its `message` explains it to people; both are functions of the cause, so that no other
module words an error.
-/

set_option autoImplicit false

namespace UnitPlane

open Decimal (text)

/-- What a reader of formulas was waiting for. -/
inductive Expectation where
  | operand
  | closingBracket
  | endOfFormula
deriving DecidableEq

/-- The wording of an expectation. -/
def Expectation.message : Expectation → String
  | operand => "a number, `x`, `y` or `(`"
  | closingBracket => "`)`"
  | endOfFormula => "end of formula"

/-- Why a text is not a formula. -/
inductive SyntaxCause where
  | emptyFormula
  /-- An operator without operands. -/
  | malformedTree
  | unexpectedCharacter (c : Char)
  /-- A numeral without digits before its exponent. -/
  | badNumber (numeral : String)
  | numberOutOfRange (numeral : String)
  /-- A token where something else was expected. -/
  | unexpectedToken (expected : Expectation) (found : String)
deriving DecidableEq

/-- The wording of a syntax error. -/
def SyntaxCause.message : SyntaxCause → String
  | emptyFormula => "empty formula"
  | malformedTree => "malformed formula tree"
  | unexpectedCharacter c => s!"unexpected character `{c}`"
  | badNumber numeral => s!"bad number `{numeral}`"
  | numberOutOfRange numeral => s!"number `{numeral}` is out of range"
  | unexpectedToken expected found => s!"expected {expected.message}, found {found}"

/-- Operators that formulas do not have. -/
inductive UnsupportedOperator where
  | symbol (s : String)
  /-- A name in front of an opening bracket. -/
  | call (name : String)
deriving DecidableEq

/-- The wording of an unsupported operator. The usual second spelling of a power gets a hint. -/
def UnsupportedOperator.message : UnsupportedOperator → String
  | symbol s => if s = "^" then "`^` (use `**` for powers)" else s!"`{s}`"
  | call name => s!"function call `{name}(...)`"

/-- Why the exponent of a quantity that has a dimension does not give a dimension. -/
inductive ExponentCause where
  | notConstant
  | notSimpleFraction
deriving DecidableEq

/-- The wording of an exponent error. -/
def ExponentCause.message : ExponentCause → String
  | notConstant => "depends on x or y but its base has a dimension"
  | notSimpleFraction => "is not a simple fraction, so the result dimension is undefined"

/-- The largest magnitude of an integer in the exponent of a unit expression. -/
def maxUnitExponent : Nat := 1000

/-- Why a text is not a unit expression. -/
inductive UnitCause where
  | tooLong
  | scaleNotPositive
  | exponentOverflow
  | missingBracket
  | missingExponentBracket
  | unknownName (name : String)
  | unexpectedCharacter (c : Char)
  | unexpectedEnd
  | zeroDenominator
  | exponentOutOfRange (n : Int)
  | notAnInteger
  | badNumber (numeral : String)
  | factorNotPositive
deriving DecidableEq

/-- The wording of a unit error. -/
def UnitCause.message : UnitCause → String
  | tooLong => "unit expression too long"
  | scaleNotPositive => "unit scale is not a positive finite number"
  | exponentOverflow => "exponent overflow"
  | missingBracket => "expected ')'"
  | missingExponentBracket => "expected ')' after exponent"
  | unknownName name => s!"unknown unit name `{name}`"
  | unexpectedCharacter c => s!"unexpected character `{c}`"
  | unexpectedEnd => "unexpected end of unit expression"
  | zeroDenominator => "zero exponent denominator"
  | exponentOutOfRange n =>
    s!"exponent {n} is out of range (at most {maxUnitExponent} in magnitude)"
  | notAnInteger => "expected integer exponent"
  | badNumber numeral => s!"bad number `{numeral}`"
  | factorNotPositive => "numeric factor must be positive"

/-- Why a quantity or an axis cannot be used. -/
inductive ConfigurationCause where
  /-- A magnitude, and the name of its unit. -/
  | magnitudeNotFinite (magnitude : Float) (unit : String)
  | boundsNotFinite (start stop step : Float)
  | startNotBelowStop (start stop : Float)
  | countNotPositive (count : Float)
  | stepNotPositive (step : Float)
  | rangeOverflows (start stop : Float) (unit : String)
  | logarithmicStep
  | logarithmicBounds (start stop : Float)
  | countNotInteger (count : Float)
  | tooFewSamples (count : Float)
  | stepTooSmall (step start stop : Float)
  | stepTooLarge (step start stop : Float)
  | sampleNotFinite (index : Nat) (sample : Float)
  | samplesNotIncreasing (index : Nat) (sample : Float)
deriving DecidableEq

/-- The wording of a configuration error. -/
def ConfigurationCause.message : ConfigurationCause → String
  | magnitudeNotFinite magnitude unit =>
    s!"quantity magnitude must be finite, got {text magnitude} {unit}"
  | boundsNotFinite start stop step =>
    s!"axis bounds must be finite, got start={text start} stop={text stop} step={text step}"
  | startNotBelowStop start stop => s!"axis start {text start} must be below stop {text stop}"
  | countNotPositive count => s!"axis count must be positive, got {text count}"
  | stepNotPositive step => s!"axis step must be positive, got {text step}"
  | rangeOverflows start stop unit =>
    s!"axis range {text start} to {text stop} {unit} overflows in base units"
  | logarithmicStep => "logarithmic axes need a sample count, not a step"
  | logarithmicBounds start stop =>
    s!"logarithmic axis needs positive bounds, got {text start} to {text stop}"
  | countNotInteger count => s!"axis sample count must be an integer, got {text count}"
  | tooFewSamples count => s!"axis needs at least 2 samples, got {text count}"
  | stepTooSmall step start stop =>
    s!"axis step {text step} is too small for range {text start} to {text stop}"
  | stepTooLarge step start stop =>
    s!"axis step {text step} leaves fewer than 2 samples between {text start} and {text stop}"
  | sampleNotFinite index sample => s!"axis sample {index} is not finite ({text sample})"
  | samplesNotIncreasing index sample =>
    s!"axis samples stop increasing at index {index} ({text sample}); " ++
      "the step is below floating point resolution"

/-- Where a dimension is compared with the one that is wanted. -/
inductive Stage where
  | conversion
  | preCheck
  | gridUnit
  | postCheck
deriving DecidableEq

/-- The name of a stage. -/
def Stage.name : Stage → String
  | conversion => "unit conversion"
  | preCheck => "pre-check"
  | gridUnit => "post-check (grid unit)"
  | postCheck => "post-check"

/-- What there may be too much of. -/
inductive Ceiling where
  | formulaLen
  | depth
  | nodes
  | cells
  /-- The numbers in the exponents of a dimension. -/
  | dimensionExponent
deriving DecidableEq

/-- The name of a ceiling. -/
def Ceiling.name : Ceiling → String
  | formulaLen => "max_formula_len"
  | depth => "max_depth"
  | nodes => "max_nodes"
  | cells => "max_cells"
  | dimensionExponent => "dimension_exponent"

/-- What went wrong in a job. -/
inductive Fault where
  /-- The formula is malformed, from the given byte on. -/
  | badSyntax (position : Nat) (cause : SyntaxCause)
  /-- A name other than `x` and `y`, at the given byte. -/
  | unknownVariable (name : String) (position : Nat)
  | unsupportedOperator (operator : UnsupportedOperator)
  /-- A sum or difference of unlike quantities. -/
  | dimensionMismatch (subexpression : String) (left right : Dimension)
  /-- An exponent that is no pure number. -/
  | exponentDimension (subexpression : String) (dimension : Dimension)
  /-- An exponent that gives no dimension to the power. -/
  | exponentValue (subexpression : String) (cause : ExponentCause)
  | undefinedUnit (expression : String) (cause : UnitCause)
  /-- A dimension other than the one that is wanted. -/
  | dimensionality (stage : Stage) (actual expected : Dimension)
  | configuration (cause : ConfigurationCause)
  /-- A quotient by zero, or zero to a negative power, at a point. -/
  | zeroDivision (subexpression : String) (x y : Float)
  | limitExceeded (ceiling : Ceiling) (actual max : Nat)
deriving DecidableEq

namespace Fault

/-- The name of the kind of fault. -/
def code : Fault → String
  | badSyntax .. => "E_FORMULA_SYNTAX"
  | unknownVariable .. => "E_FORMULA_UNKNOWN_VARIABLE"
  | unsupportedOperator .. => "E_FORMULA_UNSUPPORTED_OPERATOR"
  | dimensionMismatch .. => "E_DIM_MISMATCH"
  | exponentDimension .. => "E_DIM_EXPONENT"
  | exponentValue .. => "E_DIM_EXPONENT_CONST"
  | undefinedUnit .. => "E_UNIT_UNDEFINED"
  | dimensionality .. => "E_DIMENSIONALITY"
  | configuration .. => "E_CONFIG"
  | zeroDivision .. => "E_MATH_DIV_ZERO"
  | limitExceeded .. => "E_LIMIT"

/-- The explanation of a fault. -/
def message : Fault → String
  | badSyntax position cause => s!"formula syntax error at offset {position}: {cause.message}"
  | unknownVariable name position =>
    s!"unknown variable `{name}` at offset {position}; only `x` and `y` are allowed"
  | unsupportedOperator operator => s!"unsupported operator {operator.message}"
  | dimensionMismatch subexpression left right =>
    s!"dimension mismatch in `{subexpression}`: {left.text} vs {right.text}"
  | exponentDimension subexpression dimension =>
    s!"exponent `{subexpression}` must be dimensionless, found {dimension.text}"
  | exponentValue subexpression cause => s!"exponent `{subexpression}` {cause.message}"
  | undefinedUnit expression cause => s!"undefined unit `{expression}`: {cause.message}"
  | dimensionality stage actual expected =>
    s!"{stage.name}: result dimension {actual.text} does not match expected {expected.text}"
  | configuration cause => s!"configuration error: {cause.message}"
  | zeroDivision subexpression x y =>
    s!"division by zero in `{subexpression}` at x={text x}, y={text y}"
  | limitExceeded ceiling actual max =>
    s!"limit `{ceiling.name}` exceeded: {actual} > {max}"

/-- The fault of a dimension whose exponents do not fit 32 bits. -/
def exponentOverflow : Fault := limitExceeded .dimensionExponent 2147483648 2147483647

end Fault

end UnitPlane
