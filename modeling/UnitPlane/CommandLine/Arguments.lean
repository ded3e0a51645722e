import UnitPlane.Contour
import UnitPlane.Decimal.Numeral

/-!
# `UnitPlane.CommandLine.Arguments`: what the command line says

Thirteen positional arguments describe the job; options may stand anywhere among them. An option
with a value takes it after an equals sign or as the next argument. What starts with a hyphen is an
option unless it is a plain negative number or follows a lone `--`. Arguments are taken one after
another, and the first one that does not fit, or that asks for the version or for help, ends the
reading.
-/

set_option autoImplicit false

namespace UnitPlane

/-- Options without a value. -/
inductive Switch where
  | countX
  | countY
  | logX
  | logY
  | swapAxes
  | verbose
  | pretty
deriving DecidableEq

/-- The name of a switch. -/
def Switch.name : Switch → String
  | countX => "nstep-x"
  | countY => "nstep-y"
  | logX => "x-log"
  | logY => "y-log"
  | swapAxes => "swap-axes"
  | verbose => "verbose"
  | pretty => "pretty"

/-- All switches. -/
def Switch.all : List Switch := [countX, countY, logX, logY, swapAxes, verbose, pretty]

/-- Options with a value. -/
inductive Parameter where
  | out
  | limits
  | maxFormulaLen
  | maxDepth
  | maxNodes
  | maxCells
  | timeBudgetMs
deriving DecidableEq

/-- The name of a parameter. -/
def Parameter.name : Parameter → String
  | out => "out"
  | limits => "limits"
  | maxFormulaLen => "max-formula-len"
  | maxDepth => "max-depth"
  | maxNodes => "max-nodes"
  | maxCells => "max-cells"
  | timeBudgetMs => "time-budget-ms"

/-- All parameters. -/
def Parameter.all : List Parameter :=
  [out, limits, maxFormulaLen, maxDepth, maxNodes, maxCells, timeBudgetMs]

/-- Why reading the arguments ended early. -/
inductive Ending where
  | invalid
  | version
  | help
deriving DecidableEq

/-! ### Values -/

/-- A natural number of 64 bits: digits, with an optional plus sign. -/
def readSize? (s : String) : Option Nat :=
  let digits :=
    match s.toList with
    | '+' :: rest => rest
    | cs => cs
  let n := Decimal.natOfDigits 0 digits
  if digits.isEmpty || !digits.all Char.isDigit || decide (Limits.ceiling < n) then none else some n

/-- Whether a parameter can have a value. -/
def Parameter.accepts (p : Parameter) (value : String) : Bool :=
  match p with
  | out | limits => value ≠ ""
  | _ => (readSize? value).isSome

/-- The number of positional arguments. -/
def positionalCount : Nat := 13

/-- The positional arguments that are numbers, counted from zero. -/
def numericPositions : List Nat := [5, 6, 7, 9, 10, 11]

/-- The double that an argument stands for. -/
def readNumber? (s : String) : Option Float := Decimal.read? s.toList

/-- Whether a letter starts the exponent of a number. -/
def isExponentMark (c : Char) : Bool := c == 'e' || c == 'E'

/-- Whether the text after a hyphen makes a plain negative number: digits with at most one point,
which does not come first, and possibly an `e` of either case with digits after it. -/
def isPlainNumber (cs : List Char) : Bool :=
  let mantissa := cs.takeWhile fun c => !isExponentMark c
  let exponent := cs.dropWhile fun c => !isExponentMark c
  mantissa.all (fun c => c.isDigit || c == '.') && decide (mantissa.count '.' ≤ 1) &&
    mantissa.head? != some '.' &&
    match exponent with
    | [] => true
    | _ :: digits => !mantissa.isEmpty && !digits.isEmpty && digits.all Char.isDigit

/-! ### Reading -/

/-- What the arguments have said so far. -/
structure Given where
  positionals : List String := []
  switches : List Switch := []
  parameters : List (Parameter × String) := []

namespace Given

/-- One more positional argument. -/
def addPositional (g : Given) (s : String) : Except Ending Given :=
  let position := g.positionals.length
  if positionalCount ≤ position then throw .invalid
  else if position ∈ numericPositions ∧ (readNumber? s).isNone then throw .invalid
  else pure { g with positionals := g.positionals ++ [s] }

/-- One more switch. A switch may be given once. -/
def addSwitch (g : Given) (w : Switch) : Except Ending Given :=
  if w ∈ g.switches then throw .invalid else pure { g with switches := w :: g.switches }

/-- One more parameter. A parameter may be given once. -/
def addParameter (g : Given) (p : Parameter) (value : String) : Except Ending Given :=
  if (g.parameters.lookup p).isSome || !p.accepts value then throw .invalid
  else pure { g with parameters := (p, value) :: g.parameters }

/-- One option that is a single letter. -/
def addLetter (g : Given) (c : Char) : Except Ending Given :=
  match c with
  | 'v' => g.addSwitch .verbose
  | 'V' => throw .version
  | 'h' => throw .help
  | _ => throw .invalid

/-- The option of a given name that has no value. -/
def addNamed (g : Given) (name : String) : Except Ending Given :=
  if name = "version" then throw .version
  else if name = "help" then throw .help
  else
    match Switch.all.find? fun w => w.name = name with
    | some w => g.addSwitch w
    | none => throw .invalid

end Given

/-- The parameter of a given name. -/
def Parameter.ofName? (name : String) : Option Parameter := all.find? fun p => p.name = name

/-- Whether an argument can be the value of the parameter in front of it. -/
def isValue (s : String) : Bool :=
  match s.toList with
  | '-' :: c :: rest => c != '-' && isPlainNumber (c :: rest)
  | _ => true

/-- What the arguments say, after those that `g` stands for. -/
def readArguments (g : Given) : List String → Except Ending Given
  | [] => pure g
  | s :: rest =>
    match s.toList with
    | ['-', '-'] => rest.foldlM Given.addPositional g
    | '-' :: '-' :: option =>
      let name := String.ofList (option.takeWhile (· ≠ '='))
      match option.dropWhile (· ≠ '='), Parameter.ofName? name with
      | _ :: value, some p => do readArguments (← g.addParameter p (String.ofList value)) rest
      | _ :: _, none => throw .invalid
      | [], none => do readArguments (← g.addNamed name) rest
      | [], some p =>
        match rest with
        | [] => throw .invalid
        | value :: rest =>
          if isValue value then do readArguments (← g.addParameter p value) rest
          else throw .invalid
    | '-' :: c :: letters =>
      if isPlainNumber (c :: letters) then do readArguments (← g.addPositional s) rest
      else do readArguments (← (c :: letters).foldlM Given.addLetter g) rest
    | _ => do readArguments (← g.addPositional s) rest

/-! ### Jobs -/

/-- What the command line asks for. -/
structure Arguments where
  request : Request
  verbose : Bool
  layoutPretty : Bool
  /-- Where the payload is written, if not to the standard output. -/
  out : Option String
  /-- The file with limits. -/
  limitsFile : Option String
  /-- Limits that are given one by one. -/
  overrides : List (Parameter × Nat)

namespace Given

/-- An axis from its positional arguments and switches. -/
def axis? (g : Given) (start stop amount unit : String) (count log : Switch) : Option Axis := do
  let start ← readNumber? start
  let stop ← readNumber? stop
  let amount ← readNumber? amount
  let density := if count ∈ g.switches then Density.count amount else .step amount
  let spacing := if log ∈ g.switches then Spacing.logarithmic else .linear
  pure ⟨start, stop, density, spacing, unit⟩

/-- The limits that are given one by one. -/
def overrides (g : Given) : List (Parameter × Nat) :=
  g.parameters.filterMap fun (p, value) => (readSize? value).map fun n => (p, n)

/-- What the command line asks for, once all arguments are read. -/
def toArguments? (g : Given) : Option Arguments :=
  match g.positionals with
  | [title, xLabel, yLabel, formula, targetUnit, xStart, xStop, xStep, xUnit, yStart, yStop, yStep,
      yUnit] => do
    let xAxis ← g.axis? xStart xStop xStep xUnit .countX .logX
    let yAxis ← g.axis? yStart yStop yStep yUnit .countY .logY
    let swapAxes := decide (Switch.swapAxes ∈ g.switches)
    pure {
      request := { title, xLabel, yLabel, formula, targetUnit, xAxis, yAxis, swapAxes }
      verbose := decide (Switch.verbose ∈ g.switches)
      layoutPretty := decide (Switch.pretty ∈ g.switches)
      out := g.parameters.lookup .out
      limitsFile := g.parameters.lookup .limits
      overrides := g.overrides }
  | _ => none

end Given

/-- What the arguments of a command line ask for. -/
def Arguments.parse (args : List String) : Except Ending Arguments := do
  match (← readArguments {} args).toArguments? with
  | some a => pure a
  | none => throw .invalid

end UnitPlane
