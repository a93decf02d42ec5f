import OoreBuild.Reports
import OoreBuild.Lib.Upsert
import OoreBuild.Lib.Steps

/-!
# Stored test results

A runner reports the tests of each step of a build. A step's latest report replaces its earlier
one: the totals are kept per step and summed up per build, and the failures of the step are deleted
before the new ones are inserted. A failure is unique per build and test, so a test that fails in
two steps has one row, which belongs to the step that reported it first. The store remembers the
calls that were recorded, to say what the latest reports of a build are.
-/

namespace OoreBuild

namespace TestResults

open Text
open Reports (RunnerTestReport RunnerTestFailure)

/-! ## Tables -/

/-- The numbers of a summary. -/
structure Counts where
  total : ℤ
  passed : ℤ
  failed : ℤ
  skipped : ℤ
  durationMs : ℤ
  deriving DecidableEq

structure StepSummary where
  buildId : Text
  step : Text
  counts : Counts

structure TestSummary where
  buildId : Text
  pipelineId : Text
  counts : Counts

structure FailureRow where
  buildId : Text
  testKey : Text
  suite : Text
  name : Text
  step : Text
  message : Option Text
  stackTrace : Option Text
  durationMs : Option ℤ

structure BuildRow where
  id : Text
  buildNumber : ℤ

/-- A report of a build's step, with the pipeline of the build. -/
structure Call where
  buildId : Text
  pipelineId : Text
  report : RunnerTestReport

structure Store where
  builds : List BuildRow
  stepSummaries : List StepSummary
  summaries : List TestSummary
  failures : List FailureRow
  /-- The calls that were recorded, the last one first. -/
  calls : List Call

/-! ## Recording a report -/

/-- Failed tests kept per build. -/
def maxFailuresPerBuild : ℕ := 500

/-- Recent test-reporting builds of a pipeline used for history and flakiness. -/
def historyWindow : ℕ := 20

def maxNameBytes : ℕ := 1024

def maxMessageBytes : ℕ := 4096

def maxStackTraceBytes : ℕ := 8192

def truncate (value : Text) (maxBytes : ℕ) : Text :=
  if byteLen value ≤ maxBytes then value else truncateUtf8Bytes value maxBytes

def testKey (suite name : Text) : Text := suite ++ '\x1f' :: name

def sumCounts (counts : List Counts) : Counts where
  total := (counts.map (·.total)).sum
  passed := (counts.map (·.passed)).sum
  failed := (counts.map (·.failed)).sum
  skipped := (counts.map (·.skipped)).sum
  durationMs := (counts.map (·.durationMs)).sum

/-- `SUM` fails for integers that do not fit 64 bits. -/
def Counts.fit (counts : Counts) : Bool :=
  counts.total < 2 ^ 63 && counts.passed < 2 ^ 63 && counts.failed < 2 ^ 63 &&
    counts.skipped < 2 ^ 63 && counts.durationMs < 2 ^ 63

def reportCounts (report : RunnerTestReport) : Counts where
  total := max report.total 0
  passed := max report.passed 0
  failed := max report.failed 0
  skipped := max report.skipped 0
  durationMs := max report.durationMs 0

def StepSummary.key (row : StepSummary) : Text × Text := (row.buildId, row.step)

def FailureRow.key (row : FailureRow) : Text × Text := (row.buildId, row.testKey)

/-- The step's name as it is stored. -/
def Call.step (call : Call) : Text := truncate call.report.step maxNameBytes

def Call.stepSummary (call : Call) : StepSummary :=
  ⟨call.buildId, call.step, reportCounts call.report⟩

def Call.failureRow (call : Call) (failure : RunnerTestFailure) : FailureRow :=
  let suite := truncate failure.suite maxNameBytes
  let name := truncate failure.name maxNameBytes
  { buildId := call.buildId
    testKey := testKey suite name
    suite, name
    step := call.step
    message := failure.message.map (truncate · maxMessageBytes)
    stackTrace := failure.stackTrace.map (truncate · maxStackTraceBytes)
    durationMs := failure.durationMs }

/-- The step totals after a report. -/
def Store.stepsAfter (s : Store) (call : Call) : List StepSummary :=
  Rows.upsert StepSummary.key call.stepSummary (fun _ => call.stepSummary) s.stepSummaries

/-- The sum over the steps of the build after a report. -/
def Store.countsAfter (s : Store) (call : Call) : Counts :=
  sumCounts (((s.stepsAfter call).filter (·.buildId = call.buildId)).map (·.counts))

/-- The failures without those of the step. -/
def Store.others (s : Store) (call : Call) : List FailureRow :=
  s.failures.filter fun row => !(row.buildId = call.buildId && row.step = call.step)

/-- How many of a report's failures are stored. -/
def Store.room (s : Store) (call : Call) : ℕ :=
  maxFailuresPerBuild - ((s.others call).filter (·.buildId = call.buildId)).length

/-- The transaction of a report; `none` where a sum does not fit. -/
def recordReport (s : Store) (call : Call) : Option Store :=
  if (s.countsAfter call).fit then
    some
      { s with
        stepSummaries := s.stepsAfter call
        summaries := Rows.upsert TestSummary.buildId
          ⟨call.buildId, call.pipelineId, s.countsAfter call⟩
          (fun old => { old with counts := s.countsAfter call }) s.summaries
        failures := Rows.insertAll FailureRow.key (s.others call)
          ((call.report.failures.take (s.room call)).map call.failureRow)
        calls := call :: s.calls }
  else none

/-- A call; one that fails changes nothing. -/
def Store.step (s : Store) (call : Call) : Option Store := some ((recordReport s call).getD s)

/-- No build has reported tests. -/
def Store.new (builds : List BuildRow) : Store := ⟨builds, [], [], [], []⟩

/-! ## The Tests view -/

structure TestRunOutcome where
  buildId : Text
  buildNumber : ℤ
  status : Text

structure BuildTestFailure where
  suite : Text
  name : Text
  step : Text
  message : Option Text
  stackTrace : Option Text
  durationMs : Option ℤ
  flaky : Bool
  history : List TestRunOutcome

structure BuildTestResultsResponse where
  summary : Option Counts
  failures : List BuildTestFailure
  historyWindow : ℕ

/-- The streaks of failures, after a run that failed or not. -/
def streaks (previous : Bool) : List Bool → ℕ
  | [] => 0
  | failed :: rest => (if failed && !previous then 1 else 0) + streaks failed rest

/-- At least two separate failure streaks. -/
def isFlaky (failedOldestFirst : List Bool) : Bool := 2 ≤ streaks false failedOldestFirst

/-- The builds of a pipeline that reported tests, up to a number: the last ones, oldest first. -/
def Store.historyBuilds (s : Store) (pipelineId : Text) (buildNumber : ℤ) : List (Text × ℤ) :=
  (((s.summaries.filter (·.pipelineId = pipelineId)).filterMap fun row =>
    (s.builds.find? (·.id = row.buildId)).bind fun build =>
      if build.buildNumber ≤ buildNumber then some (row.buildId, build.buildNumber) else none)
    |>.mergeSort fun a b => b.2 ≤ a.2).take historyWindow |>.reverse

/-- The failures of a build by suite and name. -/
def Store.failureRows (s : Store) (buildId : Text) : List FailureRow :=
  (s.failures.filter (·.buildId = buildId)).mergeSort fun a b =>
    a.suite < b.suite || (a.suite = b.suite && a.name ≤ b.name)

/-- The failed runs of the tests of some rows in some builds. -/
def Store.failedRuns (s : Store) (history : List (Text × ℤ)) (rows : List FailureRow) :
    List (Text × Text) :=
  (s.failures.filter fun row =>
    row.buildId ∈ history.map (·.1) && row.testKey ∈ rows.map (·.testKey)).map FailureRow.key

def testHistory (failedRuns : List (Text × Text)) (history : List (Text × ℤ)) (key : Text) :
    List TestRunOutcome :=
  history.map fun run =>
    { buildId := run.1
      buildNumber := run.2
      status := if (run.1, key) ∈ failedRuns then ("failed" : Text) else ("passed" : Text) }

def loadBuildTestResults (s : Store) (buildId : Text) : BuildTestResultsResponse :=
  match s.summaries.find? (·.buildId = buildId), s.builds.find? (·.id = buildId) with
  | some summary, some build =>
    let rows := s.failureRows buildId
    let history := s.historyBuilds summary.pipelineId build.buildNumber
    let failedRuns := s.failedRuns history rows
    { summary := some summary.counts
      failures := rows.map fun row =>
        let history := testHistory failedRuns history row.testKey
        { suite := row.suite
          name := row.name
          step := row.step
          message := row.message
          stackTrace := row.stackTrace
          durationMs := row.durationMs
          flaky := isFlaky (history.map fun run => run.status = ("failed" : Text))
          history }
      historyWindow := historyWindow }
  | _, _ => ⟨none, [], historyWindow⟩

/-! ## The latest reports -/

/-- The latest report of each step of a build, from its calls, the last one first. -/
def latestReports (buildId : Text) : List Call → List RunnerTestReport
  | [] => []
  | call :: older =>
    if call.buildId = buildId then
      call.report :: (latestReports buildId older).filter (·.step ≠ call.report.step)
    else latestReports buildId older

/-- The tests that fail in a report, by suite and name. -/
def testsOf (failures : List RunnerTestFailure) : List (Text × Text) :=
  failures.map fun failure => (failure.suite, failure.name)

/-- The tests that fail in some report. -/
def failingTests (reports : List RunnerTestReport) : Finset (Text × Text) :=
  (reports.flatMap fun report => testsOf report.failures).toFinset

def Store.latest (s : Store) (buildId : Text) : List RunnerTestReport :=
  latestReports buildId s.calls

/-- The failures that are stored for a build. -/
def Store.stored (s : Store) (buildId : Text) : List FailureRow :=
  s.failures.filter (·.buildId = buildId)

def FailureRow.test (row : FailureRow) : Text × Text := (row.suite, row.name)

/-- The numbers of a report, as it has them. -/
def countsOf (report : RunnerTestReport) : Counts where
  total := report.total
  passed := report.passed
  failed := report.failed
  skipped := report.skipped
  durationMs := report.durationMs

/-- The numbers of the latest reports, added up. -/
def sumReports (reports : List RunnerTestReport) : Counts := sumCounts (reports.map countsOf)

/-- What is stored and shown depends on the latest report of each step alone. -/
structure Store.Right (s : Store) : Prop where
  summary : ∀ buildId, s.latest buildId ≠ [] →
    (s.summaries.find? (·.buildId = buildId)).map (·.counts) =
      some (sumReports (s.latest buildId))
  /-- The stored failures are the failing tests, each once. -/
  failures : ∀ buildId, (failingTests (s.latest buildId)).card ≤ maxFailuresPerBuild →
    ((s.stored buildId).map FailureRow.test).Nodup ∧
      ∀ test, test ∈ (s.stored buildId).map FailureRow.test ↔
        test ∈ failingTests (s.latest buildId)
  /-- A failure belongs to a step whose latest report has it. -/
  attributed : ∀ row ∈ s.failures, ∃ report ∈ s.latest row.buildId,
    report.step = row.step ∧ row.test ∈ testsOf report.failures
  /-- A run is shown as failed where the test fails in the latest reports of its build. -/
  history : ∀ buildId, ∀ failure ∈ (loadBuildTestResults s buildId).failures,
    ∀ run ∈ failure.history,
      (failingTests (s.latest run.buildId)).card ≤ maxFailuresPerBuild →
        (run.status = ("failed" : Text) ↔
          (failure.suite, failure.name) ∈ failingTests (s.latest run.buildId))

/-! ## When a call keeps that -/

/-- The names of a report are stored whole, and its numbers as they are. -/
def Call.isPlain (call : Call) : Bool :=
  byteLen call.report.step ≤ maxNameBytes &&
    (call.report.failures.all fun failure =>
      byteLen failure.suite ≤ maxNameBytes && byteLen failure.name ≤ maxNameBytes) &&
    0 ≤ call.report.total && 0 ≤ call.report.passed && 0 ≤ call.report.failed &&
    0 ≤ call.report.skipped && 0 ≤ call.report.durationMs

/-- Different tests of the latest reports of all builds have different keys. -/
def KeysApart (calls : List Call) : Prop :=
  ∀ one ∈ calls, ∀ other ∈ calls,
    ∀ a ∈ failingTests (latestReports one.buildId calls),
      ∀ b ∈ failingTests (latestReports other.buildId calls),
        testKey a.1 a.2 = testKey b.1 b.2 → a = b

/-- A test has a row that belongs to another step of the build. -/
def Store.keepsRow (s : Store) (call : Call) (test : Text × Text) : Bool :=
  (s.others call).any fun row => row.buildId = call.buildId && row.test = test

/-- A call loses no failure: where the build keeps all its failing tests, each test that fails in
another step keeps a row or fails in the report, and each test of the report finds room. -/
structure Store.Keeps (s : Store) (call : Call) : Prop where
  plain : call.isPlain = true
  apart : KeysApart (call :: s.calls)
  others : (failingTests (latestReports call.buildId (call :: s.calls))).card ≤
      maxFailuresPerBuild →
    ∀ report ∈ s.latest call.buildId, report.step ≠ call.report.step →
      ∀ test ∈ testsOf report.failures,
        s.keepsRow call test = true ∨ test ∈ testsOf call.report.failures
  room : (failingTests (latestReports call.buildId (call :: s.calls))).card ≤
      maxFailuresPerBuild →
    ∀ test ∈ testsOf call.report.failures,
      s.keepsRow call test = true ∨
        test ∈ testsOf (call.report.failures.take (s.room call))

end TestResults

end OoreBuild
