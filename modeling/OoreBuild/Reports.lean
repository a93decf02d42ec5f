import OoreBuild.RunnerLogs
import OoreBuild.Lib.F64

/-!
# Test and analyzer reports

After a step the runner reads the reports that it wrote, and after the steps it runs the analyzer.
Both collectors parse text that the build made, cut every field to size and send the result to the
daemon.

The JSON and XML readers are inputs (`ReportParsers`).
-/

namespace OoreBuild

namespace Reports

open Text

/-! ## The masker's patterns -/

/-- The lines of a value that are hidden by themselves: multi-line values such as keys are printed
line by line. -/
def maskedLines (value : Text) : List Text :=
  if '\n' ∈ value then ((lines value).map trim).filter fun line => 8 ≤ byteLen line else []

/-- The masker of a build's secrets, with the longest patterns first. -/
def secretMasker (values : List Text) : SecretMasker :=
  let patterns := (values.filter (· ≠ [])).flatMap fun value => value :: maskedLines value
  { patterns := (patterns.dedup.mergeSort (· ≤ ·)).mergeSort fun a b => byteLen b ≤ byteLen a }

/-! ## Text -/

/-- macOS temp paths often appear under two names. -/
structure Workspace where
  display : Text
  canonical : Option Text

def workspacePrefixes (workspace : Workspace) : List Text :=
  let own := workspace.display ++ ['/']
  own :: ((workspace.canonical.map (· ++ ['/'])).filter (· ≠ own)).toList

def stripPrefixes (value : Text) (prefixes : List Text) : Text :=
  prefixes.foldl (fun value pathPrefix => replaceAll pathPrefix [] value.length value) value

def ellipsis : Char := '…'

def truncate (value : Text) (maxBytes : ℕ) : Text :=
  if byteLen value ≤ maxBytes then value else truncateUtf8Bytes value maxBytes ++ [ellipsis]

def joinNonempty (parts : List Text) : Option Text :=
  let parts := (parts.map trim).filter (· ≠ [])
  if parts = [] then none else some (join "\n\n" parts)

/-! ## What the parsers are given -/

/-- A JSON value; a number is an integer or one that is not. -/
inductive JsonValue where
  | null
  | bool (b : Bool)
  | int (n : ℤ)
  | float
  | str (s : Text)
  | arr (values : List JsonValue)
  | obj (fields : List (Text × JsonValue))

namespace JsonValue

/-- The member of an object; `null` where there is none. -/
def get (name : Text) : JsonValue → JsonValue
  | obj fields => ((fields.find? (·.1 = name)).map (·.2)).getD null
  | _ => null

/-- `as_i64`: an integer that fits 64 bits. -/
def asInt : JsonValue → Option ℤ
  | int n => if -2 ^ 63 ≤ n ∧ n < 2 ^ 63 then some n else none
  | _ => none

def asStr : JsonValue → Option Text
  | str s => some s
  | _ => none

def asBool : JsonValue → Option Bool
  | bool b => some b
  | _ => none

end JsonValue

/-- What the XML reader returns one after the other; it ends with the first error. -/
inductive XmlToken where
  | elementStart (name : Text)
  | attribute (name value : Text)
  | endOpen
  | endEmpty
  | endClose (name : Text)
  | text (content : Text)
  | cdata (content : Text)
  | other
  | error

structure RawPosition where
  line : ℤ
  column : ℤ

structure RawLocation where
  file : Text
  range : Option RawPosition

/-- A diagnostic as the analyzer prints it. -/
structure RawDiagnostic where
  code : Text
  severity : Text
  problemMessage : Text
  location : Option RawLocation

structure ReportParsers where
  json : Text → Option JsonValue
  xml : Text → List XmlToken
  float : Text → Option F64
  /-- The analyzer's `diagnostics` object. -/
  diagnostics : Text → Option (List RawDiagnostic)

/-! ## Test reports -/

structure RunnerTestFailure where
  suite : Text
  name : Text
  message : Option Text
  stackTrace : Option Text
  durationMs : Option ℤ
  deriving DecidableEq, Repr

structure RunnerTestReport where
  step : Text := []
  total : ℤ := 0
  passed : ℤ := 0
  failed : ℤ := 0
  skipped : ℤ := 0
  durationMs : ℤ := 0
  failures : List RunnerTestFailure := []
  deriving DecidableEq, Repr

structure TestStart where
  name : Text
  suiteId : ℤ
  startedMs : ℤ

/-- What the event stream showed so far; the maps' newest entries come first. -/
structure DartStream where
  suites : List (ℤ × Text) := []
  tests : List (ℤ × TestStart) := []
  errors : List (ℤ × List Text × List Text) := []
  report : RunnerTestReport := {}
  lastTime : ℤ := 0
  isTestStream : Bool := false

def lookup {α : Type} (entries : List (ℤ × α)) (id : ℤ) : Option α :=
  (entries.find? (·.1 = id)).map (·.2)

/-- The messages and stack traces of a test. -/
def DartStream.errorsOf (s : DartStream) (id : ℤ) : List Text × List Text :=
  (lookup s.errors id).getD ([], [])

def DartStream.addError (s : DartStream) (event : JsonValue) (id : ℤ) : DartStream :=
  let found := s.errorsOf id
  { s with
    errors := (id, found.1 ++ [(event.get "error").asStr.getD []],
      found.2 ++ [(event.get "stackTrace").asStr.getD []]) :: s.errors }

/-- A test ended. Hidden tests are synthetic; they only matter when they fail. -/
def DartStream.testDone (s : DartStream) (event : JsonValue) (id time : ℤ) : DartStream :=
  let result := (event.get "result").asStr.getD "success"
  let report := { s.report with total := s.report.total + 1 }
  if (event.get "hidden").asBool.getD false ∧ result = "success" then s
  else if (event.get "skipped").asBool.getD false then
    { s with report := { report with skipped := report.skipped + 1 } }
  else if result = "success" then
    { s with report := { report with passed := report.passed + 1 } }
  else
    let test := lookup s.tests id
    let errors := s.errorsOf id
    let failure : RunnerTestFailure :=
      { suite := (test.bind fun test => lookup s.suites test.suiteId).getD []
        name := (test.map (·.name)).getD []
        message := joinNonempty errors.1
        stackTrace := joinNonempty errors.2
        durationMs := test.map fun test => max (time - test.startedMs) 0 }
    { s with
      errors := s.errors.filter (·.1 ≠ id)
      report := { report with
        failed := report.failed + 1, failures := report.failures ++ [failure] } }

def DartStream.event (s : DartStream) (event : JsonValue) : DartStream :=
  let time := (event.get "time").asInt
  let s := { s with lastTime := time.elim s.lastTime (max s.lastTime) }
  let kind := (event.get "type").asStr
  if kind = some "start" then { s with isTestStream := true }
  else if kind = some "suite" then
    let suite := event.get "suite"
    match (suite.get "id").asInt, (suite.get "path").asStr with
    | some id, some path => { s with suites := (id, path) :: s.suites }
    | _, _ => s
  else if kind = some "testStart" then
    let test := event.get "test"
    match (test.get "id").asInt with
    | some id =>
      { s with
        tests := (id, ⟨(test.get "name").asStr.getD [], (test.get "suiteID").asInt.getD (-1),
          time.getD 0⟩) :: s.tests }
    | none => s
  else if kind = some "error" then
    match (event.get "testID").asInt with
    | some id => s.addError event id
    | none => s
  else if kind = some "testDone" then
    match (event.get "testID").asInt with
    | some id => s.testDone event id (time.getD 0)
    | none => s
  else s

/-- The `dart test` JSON reporter protocol: one event a line. -/
def parseDartJsonReport (parsers : ReportParsers) (raw : Text) : Option RunnerTestReport :=
  let stream := (lines raw).foldl (fun s line =>
    match parsers.json (trim line) with
    | some event => s.event event
    | none => s) ({} : DartStream)
  if stream.isTestStream then some { stream.report with durationMs := stream.lastTime } else none

/-! ### JUnit -/

/-- The value of digits in the base. -/
def parseDigits (base : ℕ) (digit : Char → Option ℕ) (limit : ℕ) (t : Text) : Option ℕ :=
  let digits := dropPlus t
  if digits = [] then none
  else (digits.foldl (fun value c => do
    let value ← value
    let d ← digit c
    let next := value * base + d
    if next ≤ limit then some next else none) (some 0))

def hexDigit (c : Char) : Option ℕ :=
  if isAsciiDigit c then some (c.toNat - '0'.toNat)
  else if 'a' ≤ c ∧ c ≤ 'f' then some (c.toNat - 'a'.toNat + 10)
  else if 'A' ≤ c ∧ c ≤ 'F' then some (c.toNat - 'A'.toNat + 10)
  else none

def charFromU32 (n : ℕ) : Option Char := if n.isValidChar then some (Char.ofNat n) else none

def u32Max : ℕ := 2 ^ 32 - 1

def decodeEntity (entity : Text) : Option Char :=
  if entity = "lt" then some '<'
  else if entity = "gt" then some '>'
  else if entity = "amp" then some '&'
  else if entity = "quot" then some '"'
  else if entity = "apos" then some '\''
  else
    let hex := ((stripPrefix "#x" entity).or (stripPrefix "#X" entity)).bind
      (parseDigits 16 hexDigit u32Max)
    let dec := (stripPrefix "#" entity).bind (parseUnsigned u32Max)
    (hex.or dec).bind charFromU32

/-- The text with its entities decoded; one that is not known stays as it is. -/
def unescapeFrom : ℕ → Text → Text
  | 0, rest => rest
  | fuel + 1, rest =>
    match splitFirst "&" rest with
    | none => rest
    | some (before, after) => match splitFirst ";" after with
      | none => before ++ '&' :: after
      | some (entity, next) => match decodeEntity entity with
        | some c => before ++ c :: unescapeFrom fuel next
        | none => before ++ '&' :: unescapeFrom fuel after

def unescape (value : Text) : Text := unescapeFrom value.length value

structure JunitCase where
  suite : Text
  name : Text
  durationMs : Option ℤ
  failed : Bool := false
  skipped : Bool := false
  messages : List Text := []
  details : List Text := []

structure JunitStream where
  report : RunnerTestReport := {}
  /-- The suites that are open, the last one first. -/
  suites : List Text := []
  element : Text := []
  attrs : List (Text × Text) := []
  case : Option JunitCase := none
  capturing : Bool := false
  sawTestcaseRoot : Bool := false

def JunitStream.attr (s : JunitStream) (name : Text) : Option Text :=
  (s.attrs.find? (·.1 = name)).map (·.2)

def RunnerTestReport.finish (report : RunnerTestReport) (case : JunitCase) : RunnerTestReport :=
  let report :=
    { report with
      total := report.total + 1, durationMs := report.durationMs + case.durationMs.getD 0 }
  if case.failed then
    { report with
      failed := report.failed + 1
      failures := report.failures ++ [{
        suite := case.suite, name := case.name, message := joinNonempty case.messages
        stackTrace := joinNonempty case.details, durationMs := case.durationMs }] }
  else if case.skipped then { report with skipped := report.skipped + 1 }
  else { report with passed := report.passed + 1 }

def JunitStream.newCase (parsers : ReportParsers) (s : JunitStream) : JunitCase where
  suite := (((s.attr "classname").filter (· ≠ [])).or s.suites.head?).getD []
  name := (s.attr "name").getD []
  durationMs := ((s.attr "time").bind fun time => parsers.float (trim time)).map fun seconds =>
    (seconds.mulPos 1000).round.toI64

/-- The start tag of an element ended. -/
def JunitStream.opened (parsers : ReportParsers) (s : JunitStream) (empty : Bool) : JunitStream :=
  if s.element = "testsuites" then { s with sawTestcaseRoot := true }
  else if s.element = "testsuite" then
    { s with
      sawTestcaseRoot := true
      suites := if empty then s.suites else (s.attr "name").getD [] :: s.suites }
  else if s.element = "testcase" then
    let s := { s with sawTestcaseRoot := true }
    let new := s.newCase parsers
    if empty then { s with report := s.report.finish new } else { s with case := some new }
  else if s.element = "failure" ∨ s.element = "error" then
    match s.case with
    | none => s
    | some case =>
      { s with
        capturing := !empty
        case := some { case with
          failed := true, messages := case.messages ++ (s.attr "message").toList } }
  else if s.element = "skipped" then
    { s with case := s.case.map fun case => { case with skipped := true } }
  else s

def JunitStream.closed (s : JunitStream) (name : Text) : JunitStream :=
  if name = "testsuite" then { s with suites := s.suites.tail }
  else if name = "testcase" then
    match s.case with
    | none => s
    | some case => { s with case := none, report := s.report.finish case }
  else if name = "failure" ∨ name = "error" then { s with capturing := false }
  else s

def JunitStream.addDetail (s : JunitStream) (detail : Text) : JunitStream :=
  if s.capturing then
    { s with case := s.case.map fun case => { case with details := case.details ++ [detail] } }
  else s

def JunitStream.token (parsers : ReportParsers) (s : JunitStream) :
    XmlToken → Option JunitStream
  | .elementStart name => some { s with element := name, attrs := [] }
  | .attribute name value => some { s with attrs := (name, unescape value) :: s.attrs }
  | .endOpen => some (s.opened parsers false)
  | .endEmpty => some (s.opened parsers true)
  | .endClose name => some (s.closed name)
  | .text content => some (s.addDetail (unescape content))
  | .cdata content => some (s.addDetail content)
  | .other => some s
  | .error => none

def parseJunitReport (parsers : ReportParsers) (raw : Text) : Option RunnerTestReport := do
  let stream ← (parsers.xml raw).foldlM (JunitStream.token parsers) {}
  if stream.sawTestcaseRoot then some stream.report else none

/-! ### The collector -/

def maxFailuresPerReport : ℕ := 200

def maxFailureMessageBytes : ℕ := 2048

def maxStackTraceBytes : ℕ := 4096

def maxReportFileBytes : ℕ := 64 * 1024 * 1024

/-- A file of the reports directory; `none` where it cannot be read as text. -/
structure ReportFile where
  extension : Option Text
  size : ℕ
  content : Option Text

def ReportFile.parse (parsers : ReportParsers) (file : ReportFile) : Option RunnerTestReport :=
  if file.size ≤ maxReportFileBytes then do
    let raw ← file.content
    if file.extension = some "json" then parseDartJsonReport parsers raw
    else if file.extension = some "xml" then parseJunitReport parsers raw
    else none
  else none

def RunnerTestReport.add (report parsed : RunnerTestReport) : RunnerTestReport where
  step := report.step
  total := report.total + parsed.total
  passed := report.passed + parsed.passed
  failed := report.failed + parsed.failed
  skipped := report.skipped + parsed.skipped
  durationMs := report.durationMs + parsed.durationMs
  failures := report.failures ++ parsed.failures

/-- The failure as it is sent. -/
def RunnerTestFailure.prepared (failure : RunnerTestFailure) (prefixes : List Text)
    (mask : Text → Text) : RunnerTestFailure :=
  { failure with
    suite := stripPrefixes failure.suite prefixes
    name := stripPrefixes failure.name prefixes
    message := failure.message.map fun message => truncate (mask message) maxFailureMessageBytes
    stackTrace := failure.stackTrace.map fun stack => truncate (mask stack) maxStackTraceBytes }

/-- The failures that the files hold, as far as they are sent. -/
def readFailures (parsers : ReportParsers) (files : List ReportFile) : List RunnerTestFailure :=
  ((files.filterMap (·.parse parsers)).flatMap (·.failures)).take maxFailuresPerReport

/-- Parse the files, in the order of their names; `none` where the step wrote no reports. -/
def collectTestReports (parsers : ReportParsers) (files : List ReportFile)
    (workspaces : List Workspace) (step : Text) (mask : Text → Text) : Option RunnerTestReport :=
  let prefixes := workspaces.flatMap workspacePrefixes
  let parsed := files.filterMap (·.parse parsers)
  if parsed = [] then none
  else
    let report := parsed.foldl RunnerTestReport.add { step }
    some { report with
      failures := (report.failures.take maxFailuresPerReport).map (·.prepared prefixes mask) }

/-! ## Analyzer reports -/

inductive AnalyzerSeverity where
  | error
  | warning
  | info
  deriving DecidableEq, Repr

structure AnalyzerCounts where
  errors : ℤ := 0
  warnings : ℤ := 0
  infos : ℤ := 0
  deriving DecidableEq, Repr

structure AnalyzerDiagnostic where
  severity : AnalyzerSeverity
  code : Text
  message : Text
  file : Text
  line : ℤ
  column : ℤ
  deriving DecidableEq, Repr

structure RunnerAnalyzerReport where
  counts : AnalyzerCounts
  diagnostics : List AnalyzerDiagnostic
  deriving DecidableEq, Repr

def maxDiagnostics : ℕ := 50

def maxDiagnosticMessageBytes : ℕ := 1024

def maxFileBytes : ℕ := 512

def maxCodeBytes : ℕ := 128

def severity (raw : Text) : AnalyzerSeverity :=
  let raw := raw.map Char.toUpper
  if raw = "ERROR" then .error else if raw = "WARNING" then .warning else .info

def AnalyzerSeverity.rank : AnalyzerSeverity → ℤ
  | error => 0
  | warning => 1
  | info => 2

def AnalyzerCounts.count (counts : AnalyzerCounts) : AnalyzerSeverity → AnalyzerCounts
  | .error => { counts with errors := counts.errors + 1 }
  | .warning => { counts with warnings := counts.warnings + 1 }
  | .info => { counts with infos := counts.infos + 1 }

def RawDiagnostic.diagnostic (raw : RawDiagnostic) : AnalyzerDiagnostic where
  severity := Reports.severity raw.severity
  code := raw.code
  message := raw.problemMessage
  file := raw.location.elim [] (·.file)
  line := (raw.location.bind (·.range)).elim 0 (·.line)
  column := (raw.location.bind (·.range)).elim 0 (·.column)

/-- The order of the diagnostics: by severity, file, line and column. -/
def AnalyzerDiagnostic.le (a b : AnalyzerDiagnostic) : Bool :=
  a.severity.rank < b.severity.rank || a.severity = b.severity &&
    (a.file < b.file || a.file = b.file &&
      (a.line < b.line || a.line = b.line && a.column ≤ b.column))

/-- The JSON is the last line that holds a `diagnostics` object, or what follows the first
brace. -/
def analyzerOutput (parsers : ReportParsers) (stdout : Text) : Option (List RawDiagnostic) :=
  (((lines stdout).reverse.map trim).filter fun line =>
      startsWith line "\x7b" && contains line "\"diagnostics\"").findSome? parsers.diagnostics |>.or
    ((splitFirst "\x7b" stdout).bind fun split => parsers.diagnostics (trim ("\x7b".toList ++ split.2)))

/-- The diagnostic as it is sent. -/
def AnalyzerDiagnostic.prepared (diagnostic : AnalyzerDiagnostic) (prefixes : List Text)
    (mask : Text → Text) : AnalyzerDiagnostic :=
  { diagnostic with
    file := truncate ((stripPrefixes diagnostic.file prefixes).dropWhile (· = '/')) maxFileBytes
    code := truncate diagnostic.code maxCodeBytes
    message := truncate (mask diagnostic.message) maxDiagnosticMessageBytes }

/-- The diagnostics that are sent, the most severe ones first. -/
def sentDiagnostics (raw : List RawDiagnostic) : List AnalyzerDiagnostic :=
  ((raw.map (·.diagnostic)).mergeSort AnalyzerDiagnostic.le).take maxDiagnostics

def parseAnalyzerOutput (parsers : ReportParsers) (stdout : Text) (workspaces : List Workspace)
    (mask : Text → Text) : Except Text RunnerAnalyzerReport :=
  let prefixes := workspaces.flatMap workspacePrefixes
  match analyzerOutput parsers stdout with
  | none => .error "the analyzer printed no JSON result"
  | some raw => .ok
    { counts := raw.foldl (fun counts raw => counts.count (severity raw.severity)) {}
      diagnostics := (sentDiagnostics raw).map (·.prepared prefixes mask) }

end Reports

end OoreBuild
