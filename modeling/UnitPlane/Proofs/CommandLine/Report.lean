import UnitPlane.Proofs.CommandLine.Limits
import UnitPlane.Proofs.Contour
import UnitPlane.Proofs.Contour.Faults
import UnitPlane.Proofs.Json.ReadBack

/-!
# `UnitPlane.Proofs.CommandLine.Report`: all or nothing

A command line is answered in one of two ways. If the limits can be read and the job has a result,
the status is zero and the document of the payload goes to one place, the file that is named or else
the standard output. Otherwise the status is one, nothing is written anywhere but to the standard
error, and what goes there is the code of the first stage that failed, with its message after it.

A message takes over texts from outside as they are: the path of the limits file, what the operating
system or the reader of JSON says of that file, and the unit expressions. It is one line as long as
none of these has a line break in it, which `Arguments.InlineEchoes` says.

Asking for a summary changes the standard error alone, and asking for another layout changes the
white space of the document alone.

* `Arguments.report_settled`: all of this, for every command line, every limits file and whatever is
  said of it.
* `Arguments.report_brokenUnit`: a unit with a line break in it is reported on two lines.
-/

set_option autoImplicit false

namespace UnitPlane

deriving instance DecidableEq for Arguments

/-! ### Answers -/

namespace Report

/-- A report of success: the document is in one place and the other place is empty. -/
structure Delivers (r : Report) (out : Option String) (document : String) : Prop where
  status : r.status = 0
  place : match out with
    | none => r.stdout = document ∧ r.file = none
    | some path => r.stdout = "" ∧ r.file = some (path, document)

/-- A report of failure: both places are empty, and the standard error has the code and the message,
with one space between them and a line break at the end. -/
structure Fails (r : Report) (code message : String) : Prop where
  status : r.status = 1
  stdout : r.stdout = ""
  file : r.file = none
  stderr : r.stderr = code ++ " " ++ message ++ "\n"

/-- The document of a report, wherever it is. -/
def document (r : Report) : String :=
  match r.file with
  | none => r.stdout
  | some (_, text) => text

/-- Two reports that differ at most in the layout of their documents. -/
structure SameValue (r r' : Report) : Prop where
  status : r'.status = r.status
  stderr : r'.stderr = r.stderr
  place : r'.file.map Prod.fst = r.file.map Prod.fst
  value : r.status = 0 →
    ∃ raw, Json.read? r.document = some raw ∧ Json.read? r'.document = some raw
  failure : r.status ≠ 0 → r' = r

/-- A report that is made of a code and a message is one of failure with this code and this
message. -/
theorem fails_failure (code message : String) : (failure code message).Fails code message where
  status := rfl
  stdout := rfl
  file := rfl
  stderr := rfl

end Report

namespace Arguments

variable {a : Arguments} {file : Option String} {w : Wording}

/-- The code and the message of the first stage that fails: the limits file cannot be read, or its
text states no limits, or a stage of the job fails. What is said of the limits file comes from
outside, and it follows the path of the file as it is said. -/
inductive FirstFailure (a : Arguments) (w : Wording) :
    (file : Option String) → (code message : String) → Prop
  | unreadable {path : String} (hpath : a.limitsFile = some path) :
    FirstFailure a w none "E_CLI_LIMITS" (path ++ ": " ++ w.unreadable)
  | notLimits {path text : String} (hpath : a.limitsFile = some path)
      (h : ∀ l : Limits, ¬ l.StatedBy text) :
    FirstFailure a w (some text) "E_CLI_LIMITS" (path ++ ": " ++ w.notLimits text)
  | job {file : Option String} {l : Limits} {fault : Fault} (hl : a.HasLimits file l)
      (h : a.request.FirstFault l fault) : FirstFailure a w file fault.code fault.message

/-- What a message may take over is on one line: the path of the limits file, what is said of the
file, and the unit expressions without the white space around them. -/
structure InlineEchoes (a : Arguments) (file : Option String) (w : Wording) : Prop where
  path : ∀ path ∈ a.limitsFile, OneLine path
  said : OneLine (w.ofLimits file)
  units : a.request.InlineUnits

/-- The document of a payload goes to the file that is named, or else to the standard output, and
whatever else is asked for goes to neither. -/
theorem delivers_deliver (a : Arguments) (p : Payload) :
    (a.deliver p).Delivers a.out (p.document a.layout) := by
  unfold deliver
  cases a.out with
  | none => exact ⟨rfl, rfl, rfl⟩
  | some path => exact ⟨rfl, rfl, rfl⟩

/-- A job with limits and with a result is answered with the payload of the result, and there is
nothing left that could fail. -/
theorem report_eq_deliver {l : Limits} {c : Contour} (hl : a.limits? file = some l)
    (hc : a.request.run l = .ok c) : a.report file w = a.deliver (c.payload a.request.title) := by
  unfold report
  rw [hl]
  dsimp only
  rw [hc]

/-- A job with limits and without a result is answered with the code and the message of its
fault. -/
theorem report_eq_failure {l : Limits} {fault : Fault} (hl : a.limits? file = some l)
    (hfault : a.request.run l = .error fault) :
    a.report file w = .failure fault.code fault.message := by
  unfold report
  rw [hl]
  dsimp only
  rw [hfault]

/-- Without limits the answer is what is said of the limits file. The job itself is not looked
at. -/
theorem report_eq_badLimits (hl : a.limits? file = none) :
    a.report file w = .badLimits w (a.limitsFile.getD "") file := by
  unfold report
  rw [hl]

/-- A job has no limits only because of a limits file: there is one, and it cannot be read or its
text states no limits. This is then the first failure, reported with what is said of the file. -/
theorem exists_firstFailure_limits (hl : a.limits? file = none) :
    ∃ path, a.limitsFile = some path ∧
      a.FirstFailure w file "E_CLI_LIMITS" (path ++ ": " ++ w.ofLimits file) := by
  rw [limits?_eq, Option.bind_eq_none_iff] at hl
  -- Without a path the limits are those that all jobs start from, so there are some.
  cases hpath : a.limitsFile with
  | none =>
    rw [base?, hpath] at hl
    exact nomatch hl {} rfl
  | some path =>
    refine ⟨path, rfl, ?_⟩
    cases file with
    | none => exact .unreadable hpath
    | some text =>
      refine .notLimits hpath fun l hstated => ?_
      have hbase : a.base? (some text) = some l := by
        rw [base?, hpath]
        exact Limits.ofJson?_eq_some_iff.2 hstated
      exact nomatch hl l hbase

/-- The code of a fault is one of a few words, none of which has a line break in it. It does not
take over anything that the fault is about. -/
theorem oneLine_code (fault : Fault) : OneLine fault.code := by
  unfold Fault.code
  cases fault <;> exact oneLine_literal rfl

/-- What is reported of a failure is one line if what it takes over is. The words of the message
itself have no line breaks, and neither has the code. -/
theorem FirstFailure.oneLine {code message : String} (h : a.FirstFailure w file code message)
    (hinline : a.InlineEchoes file w) : OneLine (code ++ " " ++ message) := by
  simp only [oneLine_append]
  have hsaid := hinline.said
  -- The limits file is said of from outside, while the messages of faults are the program's own.
  cases h with
  | unreadable hpath | notLimits hpath =>
    simp only [oneLine_append]
    exact ⟨⟨oneLine_literal rfl, oneLine_literal rfl⟩,
      ⟨hinline.path _ hpath, oneLine_literal rfl⟩, hsaid⟩
  | job hl h =>
    have hfault := Request.inline_of_run_eq_error hinline.units (Request.run_eq_error_iff.2 h)
    exact ⟨⟨oneLine_code _, oneLine_literal rfl⟩, Fault.oneLine_message hfault⟩

/-- A job without a result is reported as its first failure: what is said of its limits file, or
else the fault of the first stage that fails under its limits. Each of the two comes with the code
that belongs to it. -/
theorem exists_firstFailure (hnodup : (a.overrides.map Prod.fst).Nodup) (w : Wording)
    (h : ∀ l c, a.HasLimits file l → a.request.run l ≠ .ok c) :
    ∃ code message, a.FirstFailure w file code message ∧ (a.report file w).Fails code message := by
  -- The job is run only if there are limits to run it with.
  cases hl : a.limits? file with
  | none =>
    obtain ⟨path, hpath, hfirst⟩ := exists_firstFailure_limits (w := w) hl
    refine ⟨_, _, hfirst, ?_⟩
    rw [report_eq_badLimits hl, hpath]
    exact Report.fails_failure _ _
  | some l =>
    have hlimits := (limits?_eq_some_iff hnodup).1 hl
    cases hrun : a.request.run l with
    | ok c => exact absurd hrun (h l c hlimits)
    | error fault =>
      refine ⟨_, _, .job hlimits (Request.run_eq_error_iff.1 hrun), ?_⟩
      rw [report_eq_failure hl hrun]
      exact Report.fails_failure _ _

/-! ### Summaries and layouts -/

/-- Asking for a summary changes the standard error alone: the summary is written there in front of
the document, and a job that fails has none. -/
theorem report_verbose (a : Arguments) (file : Option String) (w : Wording) :
    (({ a with verbose := true } : Arguments).report file w).status = (a.report file w).status ∧
      (({ a with verbose := true } : Arguments).report file w).stdout = (a.report file w).stdout ∧
      (({ a with verbose := true } : Arguments).report file w).file = (a.report file w).file := by
  have hlimits : ({ a with verbose := true } : Arguments).limits? file = a.limits? file := rfl
  unfold report
  rw [hlimits]
  -- The stages are gone through in their order, and only the messages depend on being verbose.
  cases a.limits? file with
  | none => exact ⟨rfl, rfl, rfl⟩
  | some l =>
    dsimp only
    cases a.request.run l with
    | error fault => exact ⟨rfl, rfl, rfl⟩
    | ok c =>
      unfold deliver
      cases a.out <;> exact ⟨rfl, rfl, rfl⟩

/-- Both layouts that can be asked for put only white space between the parts of a document, so both
are read as the same document. -/
theorem spaced_layout (a : Arguments) : a.layout.Spaced := by
  unfold layout
  split
  · exact Json.spaced_pretty
  · exact Json.spaced_compact

/-- A payload is the same document in every layout: its text is read as the raw form of the
document. -/
theorem sameValue_deliver (a : Arguments) (p : Payload) :
    (a.deliver p).SameValue (({ a with layoutPretty := true } : Arguments).deliver p) := by
  have hread (a : Arguments) : Json.read? (p.document a.layout) = some p.toJson.raw :=
    p.toJson.read?_line a.spaced_layout
  have hvalue := hread a
  have hvalue' := hread { a with layoutPretty := true }
  unfold deliver
  dsimp only
  -- The documents differ, but nothing else depends on the layout.
  generalize p.document a.layout = document at hvalue
  generalize p.document _ = document' at hvalue'
  cases a.out with
  | none => exact ⟨rfl, rfl, rfl, fun _ => ⟨_, hvalue, hvalue'⟩, fun h => absurd rfl h⟩
  | some path => exact ⟨rfl, rfl, rfl, fun _ => ⟨_, hvalue, hvalue'⟩, fun h => absurd rfl h⟩

/-- Asking for another layout changes the white space of the document alone, and nothing at all of a
report of failure. -/
theorem report_pretty (a : Arguments) (file : Option String) (w : Wording) :
    (a.report file w).SameValue (({ a with layoutPretty := true } : Arguments).report file w) := by
  have hlimits : ({ a with layoutPretty := true } : Arguments).limits? file = a.limits? file := rfl
  unfold report
  rw [hlimits]
  cases a.limits? file with
  | none => exact ⟨rfl, rfl, rfl, nofun, fun _ => rfl⟩
  | some l =>
    dsimp only
    cases a.request.run l with
    | error fault => exact ⟨rfl, rfl, rfl, nofun, fun _ => rfl⟩
    | ok c => exact a.sameValue_deliver _

/-! ### All or nothing -/

/-- Whatever the arguments, the limits file and what is said of it, the answer of a job is its whole
document in one place, or the code and the message of its first failure and nothing else. The code
and the message are one line if what the message takes over is. A switch that asks for a summary or
for another layout is accepted if it is not there yet, and it changes nothing else, wherever it
stands. -/
theorem report_settled {args : List String} (h : parse args = .ok a) (file : Option String)
    (w : Wording) :
    (∀ l c, a.HasLimits file l → a.request.run l = .ok c →
      (a.report file w).Delivers a.out ((c.payload a.request.title).document a.layout)) ∧
    ((∀ l c, a.HasLimits file l → a.request.run l ≠ .ok c) →
      ∃ code message, a.FirstFailure w file code message ∧ (a.report file w).Fails code message ∧
        (a.InlineEchoes file w → OneLine (code ++ " " ++ message))) ∧
    (a.verbose = false → parse ("--verbose" :: args) = .ok { a with verbose := true }) ∧
    (∀ before after a', args = before ++ after → parse (before ++ "--verbose" :: after) = .ok a' →
      (a'.report file w).status = (a.report file w).status ∧
        (a'.report file w).stdout = (a.report file w).stdout ∧
        (a'.report file w).file = (a.report file w).file) ∧
    (a.layoutPretty = false → parse ("--pretty" :: args) = .ok { a with layoutPretty := true }) ∧
    ∀ before after a', args = before ++ after → parse (before ++ "--pretty" :: after) = .ok a' →
      (a.report file w).SameValue (a'.report file w) := by
  have hnodup := nodup_overrides h
  refine ⟨?_, ?_, parse_verbose h, ?_, parse_pretty h, ?_⟩
  · intro l c hl hc
    rw [report_eq_deliver ((limits?_eq_some_iff hnodup).2 hl) hc]
    exact a.delivers_deliver _
  · intro hno
    obtain ⟨code, message, hfirst, hfails⟩ := exists_firstFailure hnodup w hno
    exact ⟨code, message, hfirst, hfails, hfirst.oneLine⟩
  -- A switch in the middle of the arguments asks for the same job with one field changed.
  · rintro before after a' rfl h'
    obtain rfl := parse_insert (w := .verbose) (.inl rfl) h h'
    exact a.report_verbose file w
  · rintro before after a' rfl h'
    obtain rfl := parse_insert (w := .pretty) (.inr rfl) h h'
    exact a.report_pretty file w

/-- A plane of pure numbers for a file, with one limit set. -/
def toFile : Arguments where
  request :=
    { title := "t"
      xLabel := "a"
      yLabel := "b"
      formula := "x"
      targetUnit := ""
      xAxis := .stepped 0 2 1 ""
      yAxis := .stepped 0 2 1 "" }
  verbose := false
  layoutPretty := false
  out := some "o.json"
  limitsFile := none
  overrides := [(.maxCells, 100)]

/-- The same plane with a limits file. -/
def fromFile : Arguments := { toFile with limitsFile := some "/x", overrides := [] }

/-- What is said of a limits file that is not there, and of one without anything in it. -/
def missing : Wording where
  unreadable := "No such file or directory (os error 2)"
  notLimits _ := "EOF while parsing a value at line 1 column 0"

/-- The plane goes to the file whole, and the two switches do what they ask for. With a limits file
that is not there, or that is empty, nothing is written but what is said of this file, on one
line. -/
theorem report_settled_toFile :
    parse ["t", "a", "b", "x", "", "0", "2", "1", "", "0", "2", "1", "", "--out=o.json",
        "--max-cells", "100"] = .ok toFile ∧
      (∃ c, toFile.request.run { maxCells := 100 } = .ok c ∧
        (toFile.report none missing).Delivers (some "o.json")
          ((c.payload "t").document Json.compact)) ∧
      (∃ a', parse ["--pretty", "t", "a", "b", "x", "", "0", "2", "1", "", "0", "2", "1", "",
          "--out=o.json", "--max-cells", "100"] = .ok a' ∧
        (toFile.report none missing).SameValue (a'.report none missing)) ∧
      parse ["t", "a", "b", "x", "", "0", "2", "1", "", "0", "2", "1", "", "--out=o.json",
        "--limits", "/x"] = .ok fromFile ∧
      (fromFile.report none missing).Fails "E_CLI_LIMITS"
        "/x: No such file or directory (os error 2)" ∧
      (fromFile.report (some "") missing).Fails "E_CLI_LIMITS"
        "/x: EOF while parsing a value at line 1 column 0" ∧
      OneLine ("E_CLI_LIMITS" ++ " " ++ "/x: EOF while parsing a value at line 1 column 0") := by
  have hparse : parse ["t", "a", "b", "x", "", "0", "2", "1", "", "0", "2", "1", "", "--out=o.json",
      "--max-cells", "100"] = .ok toFile := by
    decide +kernel
  have hparse' : parse ["t", "a", "b", "x", "", "0", "2", "1", "", "0", "2", "1", "",
      "--out=o.json", "--limits", "/x"] = .ok fromFile := by
    decide +kernel
  have hlimits : toFile.HasLimits none { maxCells := 100 } :=
    (limits?_eq_some_iff (by decide)).1 (by decide)
  have haccepted : toFile.request.Accepted { maxCells := 100 } .dimensionless .dimensionless
      .dimensionless ⟨.var .x, "x"⟩ .dimensionless ⟨#[0, 1], .dimensionless⟩
      ⟨#[0, 1], .dimensionless⟩ :=
    { xUnit := by decide
      yUnit := by decide
      targetUnit := by decide
      formula := by decide +kernel
      preCheck := by decide +kernel
      xSamples := by decide +kernel
      ySamples := by decide +kernel
      cells := by decide }
  obtain ⟨c, hrun, -⟩ := haccepted.run_eq_ok (by decide)
  obtain ⟨hsuccess, -, -, -, hpretty, hsame⟩ := report_settled hparse none missing
  refine ⟨hparse, ⟨c, hrun, hsuccess _ c hlimits hrun⟩,
    ⟨_, hpretty rfl, hsame [] _ _ rfl (hpretty rfl)⟩, hparse', ?_⟩
  -- Neither a file that is not there nor an empty one states limits.
  have hnone (l : Limits) : ¬ fromFile.HasLimits none l := by
    rintro ⟨base, ⟨text, htext, -⟩, -⟩
    exact nomatch htext
  have hempty (l : Limits) : ¬ fromFile.HasLimits (some "") l := by
    rintro ⟨base, ⟨text, ⟨⟩, hbase⟩, -⟩
    obtain ⟨document, fields, hread, -⟩ := hbase
    exact nomatch Json.read?_empty.symm.trans hread
  have hinline : fromFile.InlineEchoes (some "") missing :=
    { path := by
        rintro path ⟨⟩
        exact oneLine_literal rfl
      said := oneLine_literal rfl
      units := by
        intro expr hexpr
        obtain rfl : expr = "" := by simpa [fromFile, toFile, Axis.stepped] using hexpr
        exact oneLine_literal rfl }
  obtain ⟨-, hmissing, -⟩ := report_settled hparse' none missing
  obtain ⟨-, hunread, -⟩ := report_settled hparse' (some "") missing
  obtain ⟨code, message, hfirst, hfails, -⟩ := hmissing fun l c hl => absurd hl (hnone l)
  obtain ⟨code', message', hfirst', hfails', hline⟩ := hunread fun l c hl => absurd hl (hempty l)
  have hline := hline hinline
  refine ⟨?_, ?_⟩
  · cases hfirst with
    | unreadable hpath =>
      cases hpath
      exact hfails
    | job hl => exact absurd hl (hnone _)
  · cases hfirst' with
    | notLimits hpath =>
      cases hpath
      exact ⟨hfails', hline⟩
    | job hl => exact absurd hl (hempty _)

/-! ### Two lines -/

/-- A job whose first unit has a line break in it. -/
def brokenUnit : Arguments where
  request :=
    { title := "t"
      xLabel := "a"
      yLabel := "b"
      formula := "x"
      targetUnit := ""
      xAxis := .stepped 0 2 1 "?\n?"
      yAxis := .stepped 0 2 1 "" }
  verbose := false
  layoutPretty := false
  out := none
  limitsFile := none
  overrides := []

open UnitExpression in
/-- The unit is refused at its first character, and the fault takes over the unit as it is written,
with its line break. -/
theorem resolve_brokenUnit :
    MeasureUnit.resolve "?\n?" = .error (.undefinedUnit "?\n?" (.unexpectedCharacter '?')) := by
  have htrim : Text.trim "?\n?".toList = ['?', '\n', '?'] := by decide
  -- A question mark is no digit, no bracket and no letter, so no factor starts with it.
  have hfactor : Except.plain (readFactor ['?', '\n', '?']) =
      .error (.unexpectedCharacter '?') := by
    have hstarts : Text.startsName '?' = false := by decide +kernel
    rw [plain_readFactor, Text.skipBlanks_of_stops (Text.stops_cons.2 (by decide))]
    dsimp only
    rw [if_neg (by decide), if_neg (by decide), if_neg (by simp [hstarts])]
  have hread : read ['?', '\n', '?'] = .error (.unexpectedCharacter '?') := by
    rw [read_eq, plain_readProduct, plain_readTerm, hfactor]
    rfl
  have hevaluate : evaluate ['?', '\n', '?'] = .error (.unexpectedCharacter '?') := by
    unfold evaluate
    rw [if_neg (by decide), hread]
    rfl
  unfold MeasureUnit.resolve
  rw [htrim]
  dsimp only
  rw [hevaluate]
  rfl

/-- The message takes over the unit as it is, so the report of the failure is on two lines. No line
with a single line break after it is what was written. -/
theorem report_brokenUnit :
    parse ["t", "a", "b", "x", "", "0", "2", "1", "?\n?", "0", "2", "1", ""] = .ok brokenUnit ∧
      (brokenUnit.report none missing).status = 1 ∧
      (brokenUnit.report none missing).stderr =
        "E_UNIT_UNDEFINED undefined unit `?\n?`: unexpected character `?`\n" ∧
      ¬ ∃ line, OneLine line ∧ (brokenUnit.report none missing).stderr = line ++ "\n" := by
  have hparse : parse ["t", "a", "b", "x", "", "0", "2", "1", "?\n?", "0", "2", "1", ""] =
      .ok brokenUnit := by
    decide
  have hfirst : brokenUnit.request.FirstFault {}
      (.undefinedUnit "?\n?" (.unexpectedCharacter '?')) :=
    .xUnit resolve_brokenUnit
  have hlimits : brokenUnit.limits? none = some {} := rfl
  have hreport := report_eq_failure (w := missing) hlimits (Request.run_eq_error_iff.2 hfirst)
  have hstderr : (brokenUnit.report none missing).stderr =
      "E_UNIT_UNDEFINED undefined unit `?\n?`: unexpected character `?`\n" := by
    rw [hreport]
    decide
  refine ⟨hparse, by rw [hreport]; rfl, hstderr, ?_⟩
  rintro ⟨line, hline, heq⟩
  have hchars := congrArg String.toList (hstderr.symm.trans heq)
  rw [String.toList_append] at hchars
  -- The line is all but the last character, and has the line break of the unit in it.
  have hdropLast := congrArg List.dropLast hchars
  rw [show "\n".toList = ['\n'] from rfl, List.dropLast_concat] at hdropLast
  refine hline.newline_notMem ?_
  rw [← hdropLast]
  decide

end Arguments

end UnitPlane
