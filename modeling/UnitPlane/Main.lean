import UnitPlane.CommandLine.Report

/-!
# `UnitPlane.Main`: the command line program

Files and streams are read and written here, and the texts that come from outside are collected:
what the operating system says of a failure goes into the report as it is said, followed by the
number that the system has for it.
-/

set_option autoImplicit false

namespace UnitPlane

/-- What this program's own readers say of a text that states no limits and of the arguments. -/
def wording : Wording where
  notLimits _ := "not a record of limits"
  usage := "error: unexpected or missing arguments; try --help\n"
  help :=
    "Usage: bivar-cli [OPTIONS] TITLE X_LABEL Y_LABEL FORMULA Z_DIM X_START X_STOP X_STEP X_DIM " ++
      "Y_START Y_STOP Y_STEP Y_DIM\n"

/-- What the operating system says of a failure. -/
def saying : IO.Error → String
  | .alreadyExists _ code details | .interrupted _ code details | .noFileOrDirectory _ code details
  | .invalidArgument _ code details | .permissionDenied _ code details
  | .resourceExhausted _ code details | .inappropriateType _ code details
  | .noSuchThing _ code details | .otherError code details | .resourceBusy code details
  | .resourceVanished code details | .unsupportedOperation code details
  | .hardwareFault code details | .unsatisfiedConstraints code details
  | .illegalOperation code details | .protocolError code details | .timeExpired code details =>
    s!"{details} (os error {code})"
  | .unexpectedEof => "failed to fill whole buffer"
  | .userError message => message

/-- The text of a file, or what is said of a file that cannot be read or is no text. -/
def readText (path : String) : IO (Except String String) := do
  try
    let bytes ← IO.FS.readBinFile path
    match String.fromUTF8? bytes with
    | some text => pure (.ok text)
    | none => pure (.error "stream did not contain valid UTF-8")
  catch e => pure (.error (saying e))

/-- Writes out a report, its document first. If the document cannot be written, the report that says
so takes its place. -/
def deliver (r : Report) : IO UInt32 := do
  let (place, write) :=
    match r.file with
    | some (path, text) => (path, IO.FS.writeFile path text)
    | none => ("stdout", do
      IO.print r.stdout
      (← IO.getStdout).flush)
  let r ←
    try
      write
      pure r
    catch e => pure (r.unwritten place { wording with unwritable := saying e })
  IO.eprint r.stderr
  pure r.status.toUInt32

/-- The report for a command line, with its limits file read. -/
def answer (args : List String) : IO Report := do
  match Arguments.parse args with
  | .error ending => pure (ending.report wording)
  | .ok a =>
    match a.limitsFile with
    | none => pure (a.report none wording)
    | some path =>
      match ← readText path with
      | .ok text => pure (a.report (some text) wording)
      | .error said => pure (a.report none { wording with unreadable := said })

end UnitPlane

/-- Answers the arguments of the command line and delivers the answer. -/
def main (args : List String) : IO UInt32 := do
  UnitPlane.deliver (← UnitPlane.answer args)
