import UnitPlane.CommandLine.Arguments
import UnitPlane.Limits.Json
import UnitPlane.Payload.Json

/-!
# `UnitPlane.CommandLine.Report`: what the command line answers

`Arguments.report` runs the job that a command line asks for. It is given the text of the limits
file, and it gives back what goes to the standard output, to the standard error and to a file, and
the exit status, so that reading and writing are left to the caller.

Some of what is reported is not worded here. The operating system says why a file cannot be read or
written, the reader of JSON says why a text states no limits, and the reader of the arguments
explains them. A `Wording` holds these texts, and a report takes them over as they are.
-/

set_option autoImplicit false

namespace UnitPlane

/-- What is said outside, word for word. A text that is not given is empty, for a caller that goes
by the codes alone. -/
structure Wording where
  /-- What the operating system says of the limits file when it cannot be read. -/
  unreadable : String := ""
  /-- What the reader of JSON says of a text that states no limits. -/
  notLimits : (text : String) → String := fun _ => ""
  /-- What the operating system says of a place that cannot be written to. -/
  unwritable : String := ""
  /-- What the reader of the arguments says of arguments that it cannot read. -/
  usage : String := ""
  /-- What the reader of the arguments says when it is asked to explain them. -/
  help : String := ""

/-- What the program answers. -/
structure Report where
  status : Nat
  stdout : String
  stderr : String
  /-- The path and the text of a file to be written. -/
  file : Option (String × String) := none
deriving DecidableEq

/-- The exit status of a job that failed. -/
def failureStatus : Nat := 1

/-- The exit status for arguments that cannot be read. -/
def usageStatus : Nat := 2

/-- Limits with one of them replaced. -/
def Limits.override (l : Limits) : Parameter × Nat → Limits
  | (.maxFormulaLen, n) => { l with maxFormulaLen := n }
  | (.maxDepth, n) => { l with maxDepth := n }
  | (.maxNodes, n) => { l with maxNodes := n }
  | (.maxCells, n) => { l with maxCells := n }
  | (.timeBudgetMs, n) => { l with timeBudgetMs := n }
  | (.out, _) => l
  | (.limits, _) => l

/-- The report of a failure: its code and its message on one line. -/
def Report.failure (code message : String) : Report :=
  ⟨failureStatus, "", s!"{code} {message}\n", none⟩

/-- What is said of a limits file that cannot be used, given its text if it can be read. -/
def Wording.ofLimits (w : Wording) : (file : Option String) → String
  | none => w.unreadable
  | some text => w.notLimits text

/-- The report of a limits file that cannot be used, given its text if it can be read: the path, and
what is said of the file. -/
def Report.badLimits (w : Wording) (path : String) (file : Option String) : Report :=
  .failure "E_CLI_LIMITS" s!"{path}: {w.ofLimits file}"

/-- The report of arguments that cannot be read. -/
def Report.usage (w : Wording) : Report := ⟨usageStatus, "", w.usage, none⟩

/-- The report that gives the version. -/
def Report.version : Report := ⟨0, "bivar-cli 0.1.0\n", "", none⟩

/-- The report that explains the arguments. -/
def Report.help (w : Wording) : Report := ⟨0, w.help, "", none⟩

/-- This report after its document could not be written. The place is the path of a file, or
`stdout`. -/
def Report.unwritten (r : Report) (place : String) (w : Wording := {}) : Report :=
  { status := failureStatus
    stdout := ""
    stderr := r.stderr ++ (Report.failure "E_IO_WRITE" s!"{place}: {w.unwritable}").stderr }

/-- The lines of a summary of a payload. -/
def Payload.summary (p : Payload) : List String :=
  [s!"formula: {p.formula}",
    s!"title: {p.plotTitle}",
    s!"x axis: {p.horizontal.label} ({p.grid.plane.cols} samples)",
    s!"y axis: {p.vertical.label} ({p.grid.plane.rows} samples)",
    s!"grid unit: {p.grid.unit.displayName}",
    s!"scale factor: {Decimal.text p.scaleFactor}"] ++
  (match p.displayRange with
    | some (low, high) =>
      [s!"range: {Decimal.text low} .. {Decimal.text high} {p.displayUnit}"]
    | none => []) ++
  (if 0 < p.nonFiniteCells then [s!"non-finite cells: {p.nonFiniteCells}"] else []) ++
  [s!"file: {p.fileStem}"]

/-- Lines of text. -/
def unlines (lines : List String) : String := String.join (lines.map (· ++ "\n"))

namespace Arguments

/-- How the payload is laid out. -/
def layout (a : Arguments) : Json.Layout := if a.layoutPretty then Json.pretty else Json.compact

/-- The limits for the job: the defaults, what the file says, and what single options say. -/
def limits? (a : Arguments) (file : Option String) : Option Limits := do
  let base ←
    match a.limitsFile with
    | none => some {}
    | some _ => file.bind Limits.ofJson?
  pure (a.overrides.foldl Limits.override base)

/-- The report of a payload. -/
def deliver (a : Arguments) (p : Payload) : Report :=
  let document := p.document a.layout
  let stderr := if a.verbose then unlines p.summary else ""
  match a.out with
  | some path => ⟨0, "", stderr, some (path, document)⟩
  | none => ⟨0, document, stderr, none⟩

/-- The report of the job, given the text of the limits file if it can be read, and what is said
outside. -/
def report (a : Arguments) (file : Option String) (w : Wording := {}) : Report :=
  match a.limits? file with
  | none => .badLimits w (a.limitsFile.getD "") file
  | some limits =>
    match a.request.run limits with
    | .error fault => .failure fault.code fault.message
    | .ok contour => a.deliver (contour.payload a.request.title)

end Arguments

/-- The report for arguments that ask for no job. -/
def Ending.report (e : Ending) (w : Wording := {}) : Report :=
  match e with
  | invalid => .usage w
  | version => .version
  | help => .help w

end UnitPlane
