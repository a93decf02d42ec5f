import OoreBuild.JunitTokens
import OoreBuild.XmlText

/-!
# Collected test reports

What the collector reports is compared with the streams of the files: how many test cases they
complete and how long these took. The counts always add up. A `testcase` that is opened inside
another one takes its place in the parser, so the outer one is not counted, and the times are added
and subtracted without a check.
-/

namespace OoreBuild

namespace Reports

open Text

/-- The stream of a test run in a report file. -/
inductive TestStream where
  | dart (events : List JsonValue)
  | junit (tokens : List XmlToken)

/-- The stream of a file: JSON that opens a test run, or text that is XML. -/
def ReportFile.stream (parsers : ReportParsers) (file : ReportFile) : Option TestStream :=
  if file.size ≤ maxReportFileBytes then do
    let raw ← file.content
    if file.extension = some "json" then
      if (eventsOf parsers raw).any isStart then some (.dart (eventsOf parsers raw)) else none
    else if file.extension = some "xml" then
      if (parsers.xml raw).all fun token => !JunitStream.isError token then
        some (.junit (parsers.xml raw))
      else none
    else none
  else none

def streams (parsers : ReportParsers) (files : List ReportFile) : List TestStream :=
  files.filterMap (·.stream parsers)

/-- How long the finished cases of a document took, in order. -/
def caseDurations (parsers : ReportParsers) (tokens : List XmlToken) : List ℤ :=
  (JunitStream.finished parsers {} tokens).map fun case => case.durationMs.getD 0

namespace TestStream

variable (parsers : ReportParsers)

/-- The completed test cases: each `testDone` that is not a hidden success, and each `testcase`
element, nested or not. -/
def completed : TestStream → ℕ
  | dart events => events.countP isCompleted
  | junit tokens => completedFrom 0 (caseTags [] tokens)

/-- Each completed test names its test, and no completed `testcase` element holds an opened one. -/
def isClear : TestStream → Bool
  | dart events => events.all fun event => !isCompleted event || (testId event).isSome
  | junit tokens => flatFrom [] (caseTags [] tokens)

/-- How long a stream took: the latest time, or the sum over its cases. -/
def duration : TestStream → ℤ
  | dart events => lastTime events
  | junit tokens => (caseDurations parsers tokens).sum

/-- What the parser reports of a stream. -/
def report : TestStream → Option RunnerTestReport
  | dart events => some { (DartStream.run events).report with durationMs := lastTime events }
  | junit tokens => (JunitStream.run parsers {} tokens).bind fun s =>
    if s.sawTestcaseRoot then some s.report else none

/-- The test cases that the parser counts. -/
def counted : TestStream → ℕ
  | dart events => events.countP fun event => isCompleted event && (testId event).isSome
  | junit tokens => countedFrom false (caseTags [] tokens)

end TestStream

/-- The times of the streams fit where the code adds and subtracts them. -/
structure StreamsClear (parsers : ReportParsers) (streams : List TestStream) : Prop where
  clear : ∀ stream ∈ streams, stream.isClear = true
  /-- The end and the start of each failed test. -/
  differences : ∀ events, .dart events ∈ streams → ∀ (k : ℕ) event id start,
    events[k]? = some event → isFailed event = true → testId event = some id →
      startedAt (events.take k) id = some start → FitsI64 (eventTime event - start)
  /-- The running time of each document. -/
  cases : ∀ tokens, .junit tokens ∈ streams →
    ∀ k, FitsI64 ((caseDurations parsers tokens).take k).sum
  /-- The running time of the files. -/
  files : ∀ k, FitsI64 ((streams.map (·.duration parsers)).take k).sum

/-- The collector counts each completed test case of the files once, keeps a bounded number of
failures and overflows nowhere; and `unescape` ends and inverts escaping. -/
structure CollectsRight (parsers : ReportParsers) (files : List ReportFile)
    (workspaces : List Workspace) (step : Text) (mask : Text → Text) : Prop where
  counts : ∀ report, collectTestReports parsers files workspaces step mask = some report →
    report.total = report.passed + report.failed + report.skipped ∧
      report.total = (((streams parsers files).map (·.completed)).sum : ℕ) ∧
      report.failures.length ≤ maxFailuresPerReport ∧ (report.failures.length : ℤ) ≤ report.failed
  /-- The time of a failed test, as `testDone` subtracts it. -/
  differences : ∀ events, .dart events ∈ streams parsers files → ∀ (k : ℕ) event difference,
    events[k]? = some event →
      (DartStream.run (events.take k)).difference event = some difference → FitsI64 difference
  /-- The time of a document, as `finish` adds it up. -/
  cases : ∀ tokens, .junit tokens ∈ streams parsers files → ∀ (k : ℕ) s,
    JunitStream.run parsers {} (tokens.take k) = some s → FitsI64 s.report.durationMs
  /-- The time of the files, as the collector adds it up. -/
  files : ∀ k, FitsI64 (((files.filterMap (·.parse parsers)).take k).foldl RunnerTestReport.add
    { step }).durationMs
  ends : ∀ value, Unescapes value (unescape value)
  inverts : ∀ text escaped, Escapes text escaped → unescape escaped = text

/-! ## The streams of the files -/

theorem parseJunitReport_eq (parsers : ReportParsers) (raw : Text) :
    parseJunitReport parsers raw =
      if (parsers.xml raw).all fun token => !JunitStream.isError token then
        TestStream.report parsers (.junit (parsers.xml raw))
      else none := by
  split_ifs with hwell
  · rfl
  · have hrun := (JunitStream.run_isSome_iff parsers {} (parsers.xml raw)).not.mpr hwell
    rw [Option.not_isSome_iff_eq_none] at hrun
    show (JunitStream.run parsers {} (parsers.xml raw)).bind _ = none
    rw [hrun]
    rfl

theorem ReportFile.parse_eq (parsers : ReportParsers) (file : ReportFile) :
    file.parse parsers = (file.stream parsers).bind (TestStream.report parsers) := by
  unfold ReportFile.parse ReportFile.stream
  by_cases hsize : file.size ≤ maxReportFileBytes
  · rw [if_pos hsize, if_pos hsize]
    cases file.content with
    | none => rfl
    | some raw =>
      dsimp only [Option.bind_eq_bind, Option.bind_some]
      rw [parseDartJsonReport_eq, parseJunitReport_eq]
      split_ifs <;> rfl
  · rw [if_neg hsize, if_neg hsize]
    rfl

theorem filterMap_parse (parsers : ReportParsers) (files : List ReportFile) :
    files.filterMap (·.parse parsers) =
      (streams parsers files).filterMap (TestStream.report parsers) := by
  rw [streams, List.filterMap_filterMap]
  congr 1
  funext file
  exact file.parse_eq parsers

theorem RunnerTestReport.Adds.finish {report : RunnerTestReport} (h : report.Adds)
    (case : JunitCase) : (report.finish case).Adds := by
  obtain ⟨htotal, hfailures⟩ := h
  unfold RunnerTestReport.finish
  dsimp only
  split_ifs
  · refine ⟨by dsimp only; omega, ?_⟩
    dsimp only
    rw [List.length_append, List.length_singleton]
    omega
  · exact ⟨by dsimp only; omega, hfailures⟩
  · exact ⟨by dsimp only; omega, hfailures⟩

theorem RunnerTestReport.finish_total (report : RunnerTestReport) (case : JunitCase) :
    (report.finish case).total = report.total + 1 ∧
      (report.finish case).durationMs = report.durationMs + case.durationMs.getD 0 := by
  unfold RunnerTestReport.finish
  dsimp only
  split_ifs <;> exact ⟨rfl, rfl⟩

theorem foldl_finish (cases : List JunitCase) (report : RunnerTestReport) (h : report.Adds) :
    (cases.foldl RunnerTestReport.finish report).Adds ∧
      (cases.foldl RunnerTestReport.finish report).total = report.total + cases.length ∧
      (cases.foldl RunnerTestReport.finish report).durationMs =
        report.durationMs + (cases.map fun case => case.durationMs.getD 0).sum := by
  induction cases generalizing report with
  | nil => exact ⟨h, (add_zero _).symm, (add_zero _).symm⟩
  | cons case rest ih =>
    obtain ⟨hadds, htotal, hduration⟩ := ih (report.finish case) (h.finish case)
    obtain ⟨hone, htime⟩ := report.finish_total case
    refine ⟨hadds, ?_, ?_⟩
    · rw [List.foldl_cons, htotal, hone, List.length_cons]
      push_cast
      ring
    · rw [List.foldl_cons, hduration, htime, List.map_cons, List.sum_cons]
      ring

theorem adds_default : ({} : RunnerTestReport).Adds := ⟨rfl, rfl⟩

namespace TestStream

variable {parsers : ReportParsers} {stream : TestStream}

/-- What the report of a stream holds. -/
theorem report_eq_some {report : RunnerTestReport} (h : stream.report parsers = some report) :
    report.Adds ∧ report.total = stream.counted ∧ report.durationMs = stream.duration parsers := by
  cases stream with
  | dart events =>
    cases h
    obtain ⟨htotal, hfailures⟩ := DartStream.adds_run events
    exact ⟨⟨htotal, hfailures⟩, DartStream.total_run events, rfl⟩
  | junit tokens =>
    obtain ⟨s, hrun, hs⟩ := Option.bind_eq_some_iff.mp h
    split at hs
    · cases hs
      obtain ⟨hadds, htotal, hduration⟩ :=
        foldl_finish (JunitStream.finished parsers {} tokens) {} adds_default
      rw [← JunitStream.run_report tokens {} hrun] at hadds htotal hduration
      rw [JunitStream.length_finished tokens {} hrun] at htotal
      refine ⟨hadds, ?_, ?_⟩
      · rw [htotal]
        exact zero_add _
      · rw [hduration]
        exact zero_add _
    · cases hs

theorem countedFrom_closed {tags : List CaseTag} (h : ∀ tag ∈ tags, tag = .closed) :
    countedFrom false tags = 0 := by
  induction tags with
  | nil => rfl
  | cons tag rest ih =>
    rw [h tag List.mem_cons_self]
    exact ih fun tag hmem => h tag (List.mem_cons_of_mem _ hmem)

/-- What `streams` takes as the stream of a test run. -/
def IsRead : TestStream → Prop
  | dart events => events.any isStart = true
  | junit tokens => (tokens.all fun token => !JunitStream.isError token) = true

/-- A stream that leaves no report holds no test case. -/
theorem report_eq_none (hread : stream.IsRead) (h : stream.report parsers = none) :
    stream.counted = 0 ∧ stream.completed = 0 ∧ stream.duration parsers = 0 := by
  cases stream with
  | dart events => cases h
  | junit tokens =>
    obtain ⟨s, hrun⟩ := Option.isSome_iff_exists.mp
      ((JunitStream.run_isSome_iff parsers {} tokens).mpr hread)
    have hroot : s.sawTestcaseRoot = false := by
      rw [report, hrun, Option.bind_some] at h
      split at h
      · cases h
      · next hroot => exact Bool.eq_false_iff.mpr hroot
    obtain ⟨-, hclosed⟩ := JunitStream.run_root tokens {} hrun hroot
    have hcounted : countedFrom false (caseTags [] tokens) = 0 := countedFrom_closed hclosed
    have hcompleted (tags : List CaseTag) (h : ∀ tag ∈ tags, tag = .closed) :
        completedFrom 0 tags = 0 := by
      induction tags with
      | nil => rfl
      | cons tag rest ih =>
        rw [h tag List.mem_cons_self]
        exact ih fun tag hmem => h tag (List.mem_cons_of_mem _ hmem)
    have hfinished : JunitStream.finished parsers {} tokens = [] := by
      rw [← List.length_eq_zero_iff, JunitStream.length_finished tokens {} hrun]
      exact hcounted
    refine ⟨hcounted, hcompleted _ hclosed, ?_⟩
    show ((JunitStream.finished parsers {} tokens).map _).sum = 0
    rw [hfinished]
    rfl

theorem countP_and_eq_iff {α : Type*} (p q : α → Bool) (l : List α) :
    l.countP (fun a => p a && q a) ≤ l.countP p ∧
      (l.countP (fun a => p a && q a) = l.countP p ↔ (l.all fun a => !p a || q a) = true) := by
  induction l with
  | nil => exact ⟨le_rfl, iff_of_true rfl rfl⟩
  | cons a rest ih =>
    obtain ⟨hle, hiff⟩ := ih
    rw [List.all_cons]
    cases hp : p a with
    | false =>
      rw [List.countP_cons_of_neg (by simp [hp]), List.countP_cons_of_neg (by simp [hp])]
      exact ⟨hle, hiff⟩
    | true =>
      rw [List.countP_cons_of_pos (l := rest) (p := p) hp]
      cases hq : q a with
      | true =>
        rw [List.countP_cons_of_pos (by simp [hp, hq])]
        refine ⟨Nat.succ_le_succ hle, ?_⟩
        rw [Nat.succ_inj]
        exact hiff
      | false =>
        rw [List.countP_cons_of_neg (by simp [hp, hq])]
        exact ⟨by omega, iff_of_false (by omega) Bool.false_ne_true⟩

/-- The parser counts the completed tests of a clear stream, and fewer of any other. -/
theorem counted_le (stream : TestStream) :
    stream.counted ≤ stream.completed ∧
      (stream.counted = stream.completed ↔ stream.isClear = true) := by
  cases stream with
  | dart events => exact countP_and_eq_iff _ _ events
  | junit tokens => exact counted_eq_iff (caseTags [] tokens) [] fun _ h => by cases h

end TestStream

theorem isRead_of_mem {parsers : ReportParsers} {files : List ReportFile} {stream : TestStream}
    (h : stream ∈ streams parsers files) : stream.IsRead := by
  obtain ⟨file, -, hfile⟩ := List.mem_filterMap.mp h
  unfold ReportFile.stream at hfile
  split at hfile
  · obtain ⟨raw, -, hraw⟩ := Option.bind_eq_some_iff.mp hfile
    split_ifs at hraw with _ hstart _ hwell
    · cases hraw
      exact hstart
    · cases hraw
      exact hwell
  · cases hfile

/-! ## Counts over all files -/

theorem foldl_add_eq (field : RunnerTestReport → ℤ)
    (hfield : ∀ a b : RunnerTestReport, field (a.add b) = field a + field b)
    (parsed : List RunnerTestReport) (start : RunnerTestReport) :
    field (parsed.foldl RunnerTestReport.add start) =
      field start + (parsed.map field).sum := by
  induction parsed generalizing start with
  | nil => exact (add_zero _).symm
  | cons report rest ih =>
    rw [List.foldl_cons, ih, hfield, List.map_cons, List.sum_cons]
    ring

theorem adds_foldl_add (parsed : List RunnerTestReport) (start : RunnerTestReport)
    (hstart : start.Adds) (h : ∀ report ∈ parsed, report.Adds) :
    (parsed.foldl RunnerTestReport.add start).Adds := by
  induction parsed generalizing start with
  | nil => exact hstart
  | cons report rest ih =>
    refine ih (start.add report) ?_ fun other hmem => h other (List.mem_cons_of_mem _ hmem)
    obtain ⟨htotal, hfailures⟩ := hstart
    obtain ⟨htotal', hfailures'⟩ := h report List.mem_cons_self
    constructor
    · show start.total + report.total = start.passed + report.passed +
        (start.failed + report.failed) + (start.skipped + report.skipped)
      omega
    · show ((start.failures ++ report.failures).length : ℤ) = start.failed + report.failed
      rw [List.length_append]
      push_cast
      omega

/-- The numbers of the streams with a report are those of all streams, as the others are zero. -/
theorem sum_reports {parsers : ReportParsers} (list : List TestStream)
    (hread : ∀ stream ∈ list, stream.IsRead) :
    ((list.filterMap (TestStream.report parsers)).map (·.total)).sum =
      ((list.map (·.counted)).sum : ℕ) := by
  induction list with
  | nil => rfl
  | cons stream rest ih =>
    have htail := ih fun other hmem => hread other (List.mem_cons_of_mem _ hmem)
    rw [List.map_cons, List.sum_cons, Nat.cast_add, ← htail]
    cases hreport : stream.report parsers with
    | none =>
      rw [List.filterMap_cons_none hreport,
        (TestStream.report_eq_none (hread stream List.mem_cons_self) hreport).1, Nat.cast_zero,
        zero_add]
    | some report =>
      rw [List.filterMap_cons_some hreport, List.map_cons, List.sum_cons,
        (TestStream.report_eq_some hreport).2.1]

/-- The report that is sent, from the sum of the parsed ones. -/
structure RunnerTestReport.Collected (report sum : RunnerTestReport) : Prop where
  total : report.total = sum.total
  passed : report.passed = sum.passed
  failed : report.failed = sum.failed
  skipped : report.skipped = sum.skipped
  failures : report.failures.length = min maxFailuresPerReport sum.failures.length

/-- Sums of smaller numbers agree where all numbers do. -/
theorem sum_eq_iff {α : Type*} (list : List α) (f g : α → ℕ) (hle : ∀ a ∈ list, f a ≤ g a) :
    (list.map f).sum = (list.map g).sum ↔ ∀ a ∈ list, f a = g a := by
  induction list with
  | nil => exact iff_of_true rfl fun _ h => by cases h
  | cons a rest ih =>
    have hrest : ∀ b ∈ rest, f b ≤ g b := fun b hmem => hle b (List.mem_cons_of_mem _ hmem)
    have hsum : (rest.map f).sum ≤ (rest.map g).sum := List.sum_le_sum hrest
    have ha := hle a List.mem_cons_self
    rw [List.map_cons, List.map_cons, List.sum_cons, List.sum_cons, List.forall_mem_cons,
      ← ih hrest]
    omega

theorem collectTestReports_eq_some {parsers : ReportParsers} {files : List ReportFile}
    {workspaces : List Workspace} {step : Text} {mask : Text → Text} {report : RunnerTestReport}
    (h : collectTestReports parsers files workspaces step mask = some report) :
    report.Collected ((files.filterMap (·.parse parsers)).foldl RunnerTestReport.add { step }) := by
  unfold collectTestReports at h
  dsimp only at h
  split at h
  · cases h
  · cases h
    refine ⟨rfl, rfl, rfl, rfl, ?_⟩
    dsimp only
    rw [List.length_map, List.length_take]

/-! ## Sums of times -/

/-- The running time of a document is the sum over the cases that are finished so far. -/
theorem cases_fit_iff {parsers : ReportParsers} (tokens : List XmlToken) (s : JunitStream) :
    (∀ (k : ℕ) next, s.run parsers (tokens.take k) = some next →
        FitsI64 next.report.durationMs) ↔
      ∀ k : ℕ, FitsI64 (s.report.durationMs + (((s.finished parsers tokens).map fun case =>
        case.durationMs.getD 0).take k).sum) := by
  induction tokens generalizing s with
  | nil =>
    simp only [List.take_nil, JunitStream.finished, List.map_nil, List.sum_nil, add_zero]
    constructor
    · intro h _
      exact h 0 s rfl
    · rintro h - next ⟨⟩
      exact h 0
  | cons token rest ih =>
    refine Nat.and_forall_add_one.symm.trans (Iff.trans ?_ Nat.and_forall_add_one)
    simp only [List.take_zero, List.take_succ_cons, List.sum_nil, add_zero]
    have hnow : (∀ next, s.run parsers [] = some next → FitsI64 next.report.durationMs) ↔
        FitsI64 s.report.durationMs := by
      constructor
      · intro h
        exact h s rfl
      · rintro h next ⟨⟩
        exact h
    rw [hnow]
    refine and_congr_right fun hfits => ?_
    cases hnext : s.token parsers token with
    | none =>
      simp only [JunitStream.run_cons, hnext, JunitStream.finished, List.map_nil, List.take_nil,
        List.sum_nil, add_zero]
      exact iff_of_true (fun _ _ h => by cases h) fun _ => hfits
    | some next =>
      have hreport := (JunitStream.follows_token hnext).report
      simp only [JunitStream.run_cons, hnext, Option.bind_some, JunitStream.finished]
      rw [ih next, hreport]
      cases s.finishes parsers token with
      | none =>
        show (∀ k : ℕ, FitsI64 (s.report.durationMs + _)) ↔ _
        constructor
        · intro h k
          exact h (k + 1)
        · intro h k
          cases k with
          | zero =>
            rw [List.take_zero, List.sum_nil, add_zero]
            exact hfits
          | succ k => exact h k
      | some case =>
        show (∀ k : ℕ, FitsI64 ((s.report.finish case).durationMs + _)) ↔
          ∀ k : ℕ, FitsI64 (s.report.durationMs + (case.durationMs.getD 0 + _))
        rw [(s.report.finish_total case).2]
        simp only [add_assoc]
        rfl

/-- The running time of the files is the sum over the streams so far. -/
theorem files_fit_iff {parsers : ReportParsers} (list : List TestStream)
    (hread : ∀ stream ∈ list, stream.IsRead) (start : RunnerTestReport) :
    (∀ k : ℕ, FitsI64 (((list.filterMap (TestStream.report parsers)).take k).foldl
        RunnerTestReport.add start).durationMs) ↔
      ∀ k : ℕ, FitsI64 (start.durationMs + ((list.map (·.duration parsers)).take k).sum) := by
  induction list generalizing start with
  | nil =>
    simp only [List.filterMap_nil, List.map_nil, List.take_nil, List.foldl_nil, List.sum_nil,
      add_zero]
  | cons stream rest ih =>
    have htail := ih fun other hmem => hread other (List.mem_cons_of_mem _ hmem)
    rw [List.map_cons, ← Nat.and_forall_add_one
      (p := fun k => FitsI64 (start.durationMs + (List.take k _).sum))]
    simp only [List.take_zero, List.take_succ_cons, List.sum_nil, List.sum_cons, add_zero]
    cases hreport : stream.report parsers with
    | none =>
      rw [List.filterMap_cons_none hreport, htail,
        (TestStream.report_eq_none (hread stream List.mem_cons_self) hreport).2.2]
      simp only [zero_add]
      constructor
      · intro h
        refine ⟨?_, h⟩
        have hzero := h 0
        rw [List.take_zero, List.sum_nil, add_zero] at hzero
        exact hzero
      · exact fun h => h.2
    | some report =>
      rw [List.filterMap_cons_some hreport, ← Nat.and_forall_add_one]
      simp only [List.take_zero, List.take_succ_cons, List.foldl_nil, List.foldl_cons]
      rw [htail (start.add report), ← (TestStream.report_eq_some hreport).2.2]
      show _ ∧ (∀ k : ℕ, FitsI64 (start.durationMs + report.durationMs + _)) ↔ _
      simp only [add_assoc]

/-! ## The collector -/

/-- The collector counts the completed test cases where every stream is clear. -/
theorem total_eq_iff {parsers : ReportParsers} {files : List ReportFile} :
    ((streams parsers files).map (·.counted)).sum =
        ((streams parsers files).map (·.completed)).sum ↔
      ∀ stream ∈ streams parsers files, stream.isClear = true := by
  rw [sum_eq_iff _ _ _ fun stream _ => stream.counted_le.1]
  exact forall₂_congr fun stream _ => stream.counted_le.2

/-- The collector does what it should exactly where each completed test names its test, no completed
`testcase` element holds an opened one, and the times fit 64 bits. -/
theorem collects_right_iff (parsers : ReportParsers) (files : List ReportFile)
    (workspaces : List Workspace) (step : Text) (mask : Text → Text) :
    CollectsRight parsers files workspaces step mask ↔
      StreamsClear parsers (streams parsers files) := by
  have hread : ∀ stream ∈ streams parsers files, stream.IsRead := fun _ => isRead_of_mem
  have hparsed := filterMap_parse parsers files
  have htotal : ((files.filterMap (·.parse parsers)).foldl RunnerTestReport.add { step }).total =
      (((streams parsers files).map (·.counted)).sum : ℕ) := by
    rw [foldl_add_eq (·.total) (fun _ _ => rfl), hparsed, sum_reports _ hread]
    exact zero_add _
  constructor
  · intro h
    refine ⟨?_, ?_, ?_, ?_⟩
    · rw [← total_eq_iff]
      cases hreport : collectTestReports parsers files workspaces step mask with
      | some report =>
        obtain ⟨-, hcount, -⟩ := h.counts report hreport
        rw [(collectTestReports_eq_some hreport).total, htotal] at hcount
        exact_mod_cast hcount
      | none =>
        -- without a report no stream holds a test case
        have hnil : files.filterMap (·.parse parsers) = [] := by
          unfold collectTestReports at hreport
          dsimp only at hreport
          split at hreport
          · assumption
          · cases hreport
        rw [hparsed, List.filterMap_eq_nil_iff] at hnil
        rw [sum_eq_iff _ _ _ fun stream _ => stream.counted_le.1]
        intro stream hmem
        obtain ⟨hcounted, hcompleted, -⟩ :=
          TestStream.report_eq_none (hread stream hmem) (hnil stream hmem)
        rw [hcounted, hcompleted]
    · intro events hmem k event id start hevent hfailed hid hstart
      refine h.differences events hmem k event _ hevent ?_
      rw [DartStream.difference_run, if_pos hfailed, hid, Option.bind_some, hstart]
      rfl
    · intro tokens hmem
      have hcases := (cases_fit_iff tokens {}).mp (h.cases tokens hmem)
      simpa only [caseDurations, zero_add] using hcases
    · have hfiles := h.files
      rw [hparsed, files_fit_iff _ hread] at hfiles
      simpa only [zero_add] using hfiles
  · intro h
    refine ⟨?_, ?_, ?_, ?_, unescapes_unescape, fun _ _ => unescape_escapes⟩
    · intro report hreport
      obtain ⟨hall, hpassed, hfailed, hskipped, hfailures⟩ := collectTestReports_eq_some hreport
      obtain ⟨hsum, hlength⟩ := adds_foldl_add (files.filterMap (·.parse parsers)) { step }
        ⟨rfl, rfl⟩ fun parsed hmem => by
          rw [hparsed] at hmem
          obtain ⟨stream, -, hstream⟩ := List.mem_filterMap.mp hmem
          exact (TestStream.report_eq_some hstream).1
      refine ⟨?_, ?_, ?_, ?_⟩
      · rw [hall, hpassed, hfailed, hskipped, hsum]
      · rw [hall, htotal, total_eq_iff.mpr h.clear]
      · rw [hfailures]
        exact min_le_left _ _
      · rw [hfailures, hfailed, ← hlength]
        exact_mod_cast min_le_right _ _
    · intro events hmem k event difference hevent hdifference
      rw [DartStream.difference_run] at hdifference
      split at hdifference
      · next hfailed =>
        obtain ⟨id, hid, hmap⟩ := Option.bind_eq_some_iff.mp hdifference
        obtain ⟨start, hstart, rfl⟩ := Option.map_eq_some_iff.mp hmap
        exact h.differences events hmem k event id start hevent hfailed hid hstart
      · cases hdifference
    · intro tokens hmem
      refine (cases_fit_iff tokens {}).mpr ?_
      simpa only [caseDurations, zero_add] using h.cases tokens hmem
    · rw [hparsed, files_fit_iff _ hread]
      simpa only [zero_add] using h.files

/-- A document with a `testcase` element in another one. -/
def nestedDocument : Text :=
  "<testsuite><testcase name=\"outer\"><testcase name=\"inner\"></testcase></testcase></testsuite>"

/-- Its tokens. -/
def nestedCases : List XmlToken :=
  [.elementStart "testsuite", .endOpen, .elementStart "testcase", .attribute "name" "outer",
    .endOpen, .elementStart "testcase", .attribute "name" "inner", .endOpen, .endClose "testcase",
    .endClose "testcase", .endClose "testsuite"]

/-- The readers on a step that leaves this document. -/
def nestedParsers : ReportParsers where
  json := fun _ => none
  xml := fun content => if content = nestedDocument then nestedCases else []
  float := fun _ => none
  diagnostics := fun _ => none

/-- The collector reports one test case of two. -/
theorem not_collects_nested :
    ¬ CollectsRight nestedParsers [⟨some "xml", nestedDocument.length, some nestedDocument⟩] []
      "build-1" id := by
  intro h
  obtain ⟨-, hcount, -⟩ := h.counts _ rfl
  revert hcount
  decide

end Reports

end OoreBuild
