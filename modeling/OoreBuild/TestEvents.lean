import OoreBuild.Reports

/-!
# Test reports as streams

A report file holds the events of a test run, one JSON object a line, or the tokens of a JUnit
document. This module counts the completed test cases of such a stream and lists the times they
took, from the stream alone, and relates both to the parsers' state.
-/

namespace OoreBuild

namespace Reports

open Text

/-- The number fits 64 bits. -/
def FitsI64 (n : ℤ) : Prop := -2 ^ 63 ≤ n ∧ n < 2 ^ 63

instance (n : ℤ) : Decidable (FitsI64 n) := inferInstanceAs (Decidable (_ ∧ _))

/-- The counts of a report add up, and it holds each failed test. -/
structure RunnerTestReport.Adds (report : RunnerTestReport) : Prop where
  total : report.total = report.passed + report.failed + report.skipped
  failures : (report.failures.length : ℤ) = report.failed

/-! ## Test events -/

/-- A test ended, and it is not a hidden test that succeeded. -/
def isCompleted (event : JsonValue) : Bool :=
  (event.get "type").asStr = some "testDone" &&
    !((event.get "hidden").asBool.getD false &&
      (event.get "result").asStr.getD "success" = "success")

def testId (event : JsonValue) : Option ℤ := (event.get "testID").asInt

/-- A completed test failed. -/
def isFailed (event : JsonValue) : Bool :=
  isCompleted event && !(event.get "skipped").asBool.getD false &&
    (event.get "result").asStr.getD "success" ≠ "success"

def eventTime (event : JsonValue) : ℤ := (event.get "time").asInt.getD 0

/-- The event starts the test. -/
def isStartOf (id : ℤ) (event : JsonValue) : Bool :=
  (event.get "type").asStr = some "testStart" && ((event.get "test").get "id").asInt = some id

/-- The time of the last event that starts the test. -/
def startedAt (events : List JsonValue) (id : ℤ) : Option ℤ :=
  (events.reverse.find? (isStartOf id)).map eventTime

/-- The times that `testDone` subtracts in a state: the end and the start of a failed test. -/
def DartStream.difference (s : DartStream) (event : JsonValue) : Option ℤ :=
  if isFailed event then
    (testId event).bind fun id => (lookup s.tests id).map fun test =>
      eventTime event - test.startedMs
  else none

/-- What a completed test adds to a report. -/
inductive Outcome where
  | skipped
  | passed
  | failed (failure : RunnerTestFailure)

def RunnerTestReport.record (report : RunnerTestReport) : Outcome → RunnerTestReport
  | .skipped => { report with total := report.total + 1, skipped := report.skipped + 1 }
  | .passed => { report with total := report.total + 1, passed := report.passed + 1 }
  | .failed failure =>
    { report with
      total := report.total + 1, failed := report.failed + 1
      failures := report.failures ++ [failure] }

theorem RunnerTestReport.Adds.record {report : RunnerTestReport} (h : report.Adds)
    (outcome : Outcome) : (report.record outcome).Adds := by
  obtain ⟨htotal, hfailures⟩ := h
  cases outcome with
  | skipped => exact ⟨by simp only [RunnerTestReport.record]; omega, hfailures⟩
  | passed => exact ⟨by simp only [RunnerTestReport.record]; omega, hfailures⟩
  | failed failure =>
    refine ⟨by simp only [RunnerTestReport.record]; omega, ?_⟩
    simp only [RunnerTestReport.record, List.length_append, List.length_singleton]
    omega

/-- A completed test is recorded once, a hidden success not at all. -/
theorem DartStream.testDone_report (s : DartStream) (event : JsonValue) (id time : ℤ)
    (hkind : (event.get "type").asStr = some "testDone") :
    if isCompleted event then
      ∃ outcome, (s.testDone event id time).report = s.report.record outcome
    else (s.testDone event id time).report = s.report := by
  unfold DartStream.testDone isCompleted
  dsimp only
  rw [decide_eq_true hkind, Bool.true_and]
  generalize (event.get "hidden").asBool.getD false = hidden
  generalize (event.get "result").asStr.getD "success" = result
  by_cases hhidden : hidden = true ∧ result = "success"
  · rw [if_pos hhidden, hhidden.1, decide_eq_true hhidden.2]
    exact rfl
  · have hcompleted : (!(hidden && decide (result = "success"))) = true := by
      rw [Bool.not_eq_true', Bool.eq_false_iff, ne_eq, Bool.and_eq_true, decide_eq_true_eq]
      exact hhidden
    rw [if_neg hhidden, if_pos hcompleted]
    split_ifs with hskipped hresult
    · exact ⟨.skipped, rfl⟩
    · exact ⟨.passed, rfl⟩
    · exact ⟨.failed _, rfl⟩

@[simp] theorem DartStream.testDone_tests (s : DartStream) (event : JsonValue) (id time : ℤ) :
    (s.testDone event id time).tests = s.tests := by
  unfold DartStream.testDone
  dsimp only
  split_ifs <;> rfl

/-- The state after an event's time was read. -/
def DartStream.timed (s : DartStream) (event : JsonValue) : DartStream :=
  { s with lastTime := (event.get "time").asInt.elim s.lastTime (max s.lastTime) }

namespace DartStream

theorem event_testDone (s : DartStream) {event : JsonValue}
    (hkind : (event.get "type").asStr = some "testDone") :
    s.event event = match testId event with
      | some id => (s.timed event).testDone event id (eventTime event)
      | none => s.timed event := by
  unfold DartStream.event
  dsimp only
  rw [hkind, if_neg (by decide), if_neg (by decide), if_neg (by decide), if_neg (by decide),
    if_pos rfl]
  rfl

theorem event_testStart (s : DartStream) {event : JsonValue}
    (hkind : (event.get "type").asStr = some "testStart") :
    s.event event = match ((event.get "test").get "id").asInt with
      | some id =>
        { s.timed event with
          tests := (id, ⟨((event.get "test").get "name").asStr.getD [],
            ((event.get "test").get "suiteID").asInt.getD (-1), eventTime event⟩) :: s.tests }
      | none => s.timed event := by
  unfold DartStream.event
  dsimp only
  rw [hkind, if_neg (by decide), if_neg (by decide), if_pos rfl]
  rfl

/-- Other events change neither the report nor the tests. -/
theorem event_other (s : DartStream) {event : JsonValue}
    (hdone : (event.get "type").asStr ≠ some "testDone")
    (hstart : (event.get "type").asStr ≠ some "testStart") :
    (s.event event).report = s.report ∧ (s.event event).tests = s.tests := by
  unfold DartStream.event
  dsimp only
  rw [if_neg hstart, if_neg hdone]
  split_ifs
  · exact ⟨rfl, rfl⟩
  · split <;> exact ⟨rfl, rfl⟩
  · split <;> exact ⟨rfl, rfl⟩
  · exact ⟨rfl, rfl⟩

/-- A completed test that names its test is recorded, and nothing else is. -/
theorem event_report (s : DartStream) (event : JsonValue) :
    if isCompleted event && (testId event).isSome then
      ∃ outcome, (s.event event).report = s.report.record outcome
    else (s.event event).report = s.report := by
  by_cases hdone : (event.get "type").asStr = some "testDone"
  · rw [event_testDone s hdone]
    cases testId event with
    | none =>
      rw [Option.isSome_none, Bool.and_false]
      exact rfl
    | some id =>
      rw [Option.isSome_some, Bool.and_true]
      exact testDone_report (s.timed event) event id (eventTime event) hdone
  · have hcompleted : isCompleted event = false := by
      unfold isCompleted
      rw [decide_eq_false hdone, Bool.false_and]
    rw [hcompleted, Bool.false_and]
    show (s.event event).report = s.report
    by_cases hstart : (event.get "type").asStr = some "testStart"
    · rw [event_testStart s hstart]
      split <;> rfl
    · exact (event_other s hdone hstart).1

/-- The state knows the last start of each test. -/
theorem lookup_event_tests (s : DartStream) (event : JsonValue) (id : ℤ) :
    (lookup (s.event event).tests id).map (·.startedMs) =
      if isStartOf id event then some (eventTime event)
      else (lookup s.tests id).map (·.startedMs) := by
  by_cases hstart : (event.get "type").asStr = some "testStart"
  · have hkind : isStartOf id event =
        decide (((event.get "test").get "id").asInt = some id) := by
      unfold isStartOf
      rw [decide_eq_true hstart, Bool.true_and]
    rw [event_testStart s hstart, hkind]
    cases ((event.get "test").get "id").asInt with
    | none =>
      rw [decide_eq_false (by simp)]
      rfl
    | some started =>
      by_cases hid : started = id
      · subst hid
        rw [decide_eq_true rfl]
        simp [lookup]
      · rw [decide_eq_false (by simpa using hid)]
        show (lookup ((started, _) :: s.tests) id).map _ = (lookup s.tests id).map _
        unfold lookup
        rw [List.find?_cons, decide_eq_false (by simpa using hid)]
  · have hkind : isStartOf id event = false := by
      unfold isStartOf
      rw [decide_eq_false hstart, Bool.false_and]
    rw [hkind]
    show (lookup (s.event event).tests id).map _ = (lookup s.tests id).map _
    by_cases hdone : (event.get "type").asStr = some "testDone"
    · rw [event_testDone s hdone]
      cases testId event with
      | none => rfl
      | some done => rw [testDone_tests]; rfl
    · rw [(event_other s hdone hstart).2]

/-! ### A run over the events -/

def run (events : List JsonValue) : DartStream := events.foldl DartStream.event {}

theorem run_append (events : List JsonValue) (event : JsonValue) :
    run (events ++ [event]) = (run events).event event := by
  rw [run, List.foldl_append]
  rfl

theorem lookup_run_tests (events : List JsonValue) (id : ℤ) :
    (lookup (run events).tests id).map (·.startedMs) = startedAt events id := by
  induction events using List.reverseRecOn with
  | nil => rfl
  | append_singleton events event ih =>
    rw [run_append, lookup_event_tests, ih, startedAt, startedAt, List.reverse_append,
      List.reverse_singleton, List.singleton_append, List.find?_cons]
    cases isStartOf id event <;> rfl

/-- The time that a failed test took, from the events before its end. -/
theorem difference_run (events : List JsonValue) (event : JsonValue) :
    (run events).difference event =
      if isFailed event then
        (testId event).bind fun id => (startedAt events id).map fun start =>
          eventTime event - start
      else none := by
  unfold difference
  congr 1
  cases testId event with
  | none => rfl
  | some id =>
    rw [Option.bind_some, Option.bind_some, ← lookup_run_tests, Option.map_map]
    rfl

theorem adds_run (events : List JsonValue) : (run events).report.Adds := by
  induction events using List.reverseRecOn with
  | nil => exact ⟨rfl, rfl⟩
  | append_singleton events event ih =>
    have hevent := event_report (run events) event
    rw [run_append]
    split at hevent
    · obtain ⟨outcome, houtcome⟩ := hevent
      rw [houtcome]
      exact ih.record outcome
    · rw [hevent]
      exact ih

theorem total_run (events : List JsonValue) :
    (run events).report.total =
      events.countP fun event => isCompleted event && (testId event).isSome := by
  induction events using List.reverseRecOn with
  | nil => rfl
  | append_singleton events event ih =>
    have hevent := event_report (run events) event
    rw [run_append, List.countP_append, List.countP_singleton, Nat.cast_add, ← ih]
    split at hevent
    · next h =>
      obtain ⟨outcome, houtcome⟩ := hevent
      rw [houtcome, if_pos h]
      cases outcome <;> rfl
    · next h =>
      rw [hevent, if_neg h]
      exact (add_zero _).symm

theorem timed_lastTime_testDone (s : DartStream) (event : JsonValue) (id time : ℤ) :
    (s.testDone event id time).lastTime = s.lastTime ∧
      (s.testDone event id time).isTestStream = s.isTestStream := by
  unfold DartStream.testDone
  dsimp only
  split_ifs <;> exact ⟨rfl, rfl⟩

theorem event_stream (s : DartStream) (event : JsonValue) :
    (s.event event).lastTime = (s.timed event).lastTime ∧
      (s.event event).isTestStream =
        (s.isTestStream || (event.get "type").asStr = some "start") := by
  by_cases hdone : (event.get "type").asStr = some "testDone"
  · have hstart : (event.get "type").asStr ≠ some "start" := by rw [hdone]; decide
    rw [event_testDone s hdone, decide_eq_false hstart, Bool.or_false]
    cases testId event with
    | none => exact ⟨rfl, rfl⟩
    | some id => exact timed_lastTime_testDone (s.timed event) event id (eventTime event)
  · unfold DartStream.event
    dsimp only
    split_ifs with hstart
    · rw [decide_eq_true hstart, Bool.or_true]
      exact ⟨rfl, rfl⟩
    all_goals rw [decide_eq_false hstart, Bool.or_false]
    · split <;> exact ⟨rfl, rfl⟩
    · split <;> exact ⟨rfl, rfl⟩
    · split <;> exact ⟨rfl, rfl⟩
    · exact ⟨rfl, rfl⟩

end DartStream

/-- The event opens the stream of a test run. -/
def isStart (event : JsonValue) : Bool := (event.get "type").asStr = some "start"

/-- The latest time of the events. -/
def lastTime (events : List JsonValue) : ℤ :=
  (events.filterMap fun event => (event.get "time").asInt).foldl max 0

theorem DartStream.run_isTestStream (events : List JsonValue) :
    (run events).isTestStream = events.any isStart := by
  induction events using List.reverseRecOn with
  | nil => rfl
  | append_singleton events event ih =>
    rw [run_append, (event_stream _ event).2, ih, List.any_append, List.any_cons, List.any_nil,
      Bool.or_false]
    rfl

theorem DartStream.run_lastTime (events : List JsonValue) :
    (run events).lastTime = Reports.lastTime events := by
  induction events using List.reverseRecOn with
  | nil => rfl
  | append_singleton events event ih =>
    rw [run_append, (event_stream _ event).1, DartStream.timed, ih, Reports.lastTime,
      Reports.lastTime, List.filterMap_append, List.foldl_append]
    dsimp only [List.filterMap_cons, List.filterMap_nil]
    cases (event.get "time").asInt <;> rfl

/-- The events of a file, one a line. -/
def eventsOf (parsers : ReportParsers) (raw : Text) : List JsonValue :=
  (lines raw).filterMap fun line => parsers.json (trim line)

theorem parseDartJsonReport_eq (parsers : ReportParsers) (raw : Text) :
    parseDartJsonReport parsers raw =
      if (eventsOf parsers raw).any isStart then
        some { (DartStream.run (eventsOf parsers raw)).report with
          durationMs := lastTime (eventsOf parsers raw) }
      else none := by
  unfold parseDartJsonReport
  dsimp only
  generalize hstream : List.foldl _ ({} : DartStream) (lines raw) = stream
  have hrun : stream = DartStream.run (eventsOf parsers raw) := by
    rw [← hstream]
    unfold DartStream.run eventsOf
    rw [List.foldl_filterMap]
    congr 1
    funext s line
    cases parsers.json (trim line) <;> rfl
  rw [hrun, DartStream.run_isTestStream, DartStream.run_lastTime]

end Reports

end OoreBuild
