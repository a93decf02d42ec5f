import OoreBuild.TestResults

/-!
# What the stored test results say

The latest reports of a build determine its stored summary, and its stored failures as long as
each call keeps the rows of the tests that fail in the other steps (`Store.Keeps`). A test that
fails in two steps has one row, so a report of the step that owns it can lose the other's failure.
-/

namespace OoreBuild

namespace TestResults

open Text
open Reports (RunnerTestReport RunnerTestFailure)

variable {s s' : Store} {call : Call}

/-! ## Plain calls -/

theorem truncate_of_le {value : Text} {maxBytes : ℕ} (h : byteLen value ≤ maxBytes) :
    truncate value maxBytes = value := if_pos h

theorem Call.step_eq (h : call.isPlain = true) : call.step = call.report.step := by
  simp only [Call.isPlain, Bool.and_eq_true, decide_eq_true_eq] at h
  exact truncate_of_le h.1.1.1.1.1.1

theorem Call.counts_eq (h : call.isPlain = true) :
    reportCounts call.report = countsOf call.report := by
  simp only [Call.isPlain, Bool.and_eq_true, decide_eq_true_eq] at h
  obtain ⟨⟨⟨⟨⟨_, htotal⟩, hpassed⟩, hfailed⟩, hskipped⟩, hduration⟩ := h
  unfold reportCounts countsOf
  rw [max_eq_left htotal, max_eq_left hpassed, max_eq_left hfailed, max_eq_left hskipped,
    max_eq_left hduration]

theorem Call.test_failureRow (h : call.isPlain = true) {failure : RunnerTestFailure}
    (hfailure : failure ∈ call.report.failures) :
    (call.failureRow failure).test = (failure.suite, failure.name) := by
  simp only [Call.isPlain, Bool.and_eq_true, List.all_eq_true, decide_eq_true_eq] at h
  obtain ⟨hsuite, hname⟩ := h.1.1.1.1.1.2 failure hfailure
  show (truncate failure.suite maxNameBytes, truncate failure.name maxNameBytes) = _
  rw [truncate_of_le hsuite, truncate_of_le hname]

/-! ## The latest reports after a call -/

theorem latestReports_cons_self (call : Call) (calls : List Call) :
    latestReports call.buildId (call :: calls) =
      call.report ::
        (latestReports call.buildId calls).filter (·.step ≠ call.report.step) :=
  if_pos rfl

theorem latestReports_cons_of_ne {buildId : Text} (h : call.buildId ≠ buildId)
    (calls : List Call) :
    latestReports buildId (call :: calls) = latestReports buildId calls :=
  if_neg h

theorem mem_latestReports_cons {report : RunnerTestReport} {calls : List Call} :
    report ∈ latestReports call.buildId (call :: calls) ↔
      report = call.report ∨
        report ∈ latestReports call.buildId calls ∧ report.step ≠ call.report.step := by
  rw [latestReports_cons_self, List.mem_cons, List.mem_filter, decide_eq_true_eq]

/-- A report of another step stays the latest one. -/
theorem mem_latestReports_of_step_ne {buildId : Text} {report : RunnerTestReport}
    {calls : List Call} (h : report ∈ latestReports buildId calls)
    (hstep : buildId = call.buildId → report.step ≠ call.report.step) :
    report ∈ latestReports buildId (call :: calls) := by
  by_cases hbuild : call.buildId = buildId
  · subst hbuild
    exact mem_latestReports_cons.mpr (Or.inr ⟨h, hstep rfl⟩)
  · rw [latestReports_cons_of_ne hbuild]
    exact h

theorem exists_call_of_mem_latestReports {buildId : Text} {report : RunnerTestReport}
    {calls : List Call} (h : report ∈ latestReports buildId calls) :
    ∃ call ∈ calls, call.buildId = buildId := by
  induction calls with
  | nil => cases h
  | cons call older ih =>
    by_cases hbuild : call.buildId = buildId
    · exact ⟨call, List.mem_cons_self, hbuild⟩
    · rw [latestReports_cons_of_ne hbuild] at h
      obtain ⟨other, hother, hid⟩ := ih h
      exact ⟨other, List.mem_cons_of_mem _ hother, hid⟩

theorem mem_failingTests {test : Text × Text} {reports : List RunnerTestReport} :
    test ∈ failingTests reports ↔ ∃ report ∈ reports, test ∈ testsOf report.failures := by
  unfold failingTests
  rw [List.mem_toFinset, List.mem_flatMap]

theorem mem_testsOf {failures : List RunnerTestFailure} {failure : RunnerTestFailure}
    (h : failure ∈ failures) : (failure.suite, failure.name) ∈ testsOf failures :=
  List.mem_map.mpr ⟨failure, h, rfl⟩

/-- Tests of different keys among the latest reports are different, whatever their builds. -/
theorem KeysApart.eq {calls : List Call} (h : KeysApart calls) {one other : Text}
    {a b : Text × Text} (ha : a ∈ failingTests (latestReports one calls))
    (hb : b ∈ failingTests (latestReports other calls))
    (hkey : testKey a.1 a.2 = testKey b.1 b.2) : a = b := by
  obtain ⟨report, hreport, _⟩ := mem_failingTests.mp ha
  obtain ⟨report', hreport', _⟩ := mem_failingTests.mp hb
  obtain ⟨call, hcall, rfl⟩ := exists_call_of_mem_latestReports hreport
  obtain ⟨call', hcall', rfl⟩ := exists_call_of_mem_latestReports hreport'
  exact h call hcall call' hcall' a ha b hb hkey

/-! ## What the rows keep -/

/-- The totals of a step, as its report has them. -/
def stepSummaryOf (buildId : Text) (report : RunnerTestReport) : StepSummary :=
  ⟨buildId, report.step, countsOf report⟩

structure Store.Kept (s : Store) : Prop where
  stepsNodup : (s.stepSummaries.map StepSummary.key).Nodup
  /-- The step totals are those of the latest reports. -/
  steps : ∀ buildId, (s.stepSummaries.filter (·.buildId = buildId)).Perm
    ((s.latest buildId).map (stepSummaryOf buildId))
  summary : ∀ buildId, s.latest buildId ≠ [] →
    (s.summaries.find? (·.buildId = buildId)).map (·.counts) =
      some (sumReports (s.latest buildId))
  keysNodup : (s.failures.map FailureRow.key).Nodup
  key : ∀ row ∈ s.failures, row.testKey = testKey row.suite row.name
  attributed : ∀ row ∈ s.failures, ∃ report ∈ s.latest row.buildId,
    report.step = row.step ∧ row.test ∈ testsOf report.failures
  complete : ∀ buildId, (failingTests (s.latest buildId)).card ≤ maxFailuresPerBuild →
    ∀ test ∈ failingTests (s.latest buildId),
      ∃ row ∈ s.failures, row.buildId = buildId ∧ row.test = test
  apart : KeysApart s.calls

theorem kept_new (builds : List BuildRow) : (Store.new builds).Kept where
  stepsNodup := List.nodup_nil
  steps _ := List.Perm.refl _
  summary _ h := absurd rfl h
  keysNodup := List.nodup_nil
  key _ h := nomatch h
  attributed _ h := nomatch h
  complete _ _ test h := by
    obtain ⟨report, hreport, _⟩ := mem_failingTests.mp h
    cases hreport
  apart := fun _ h => nomatch h

/-! ## The totals -/

theorem sumCounts_perm {some other : List Counts} (h : some.Perm other) :
    sumCounts some = sumCounts other := by
  unfold sumCounts
  rw [(h.map _).sum_eq, (h.map _).sum_eq, (h.map _).sum_eq, (h.map _).sum_eq, (h.map _).sum_eq]

theorem stepSummary_eq (h : call.isPlain = true) :
    call.stepSummary = stepSummaryOf call.buildId call.report := by
  unfold Call.stepSummary stepSummaryOf
  rw [Call.step_eq h, Call.counts_eq h]

theorem stepsAfter_perm (h : s.Kept) (hplain : call.isPlain = true) (buildId : Text) :
    ((s.stepsAfter call).filter (·.buildId = buildId)).Perm
      ((latestReports buildId (call :: s.calls)).map (stepSummaryOf buildId)) := by
  have hrow := stepSummary_eq hplain
  have hafter : (s.stepsAfter call).Perm
      (call.stepSummary :: s.stepSummaries.filter fun row => row.key ≠ call.stepSummary.key) :=
    Rows.upsert_perm h.stepsNodup
  refine (hafter.filter _).trans ?_
  rw [hrow, List.filter_cons]
  by_cases hbuild : call.buildId = buildId
  · subst hbuild
    have hself : decide ((stepSummaryOf call.buildId call.report).buildId = call.buildId) = true :=
      decide_eq_true rfl
    rw [latestReports_cons_self, List.map_cons, if_pos hself]
    refine List.Perm.cons _ ?_
    have hkeep : (fun report : RunnerTestReport => decide (report.step ≠ call.report.step)) =
        (fun row : StepSummary => decide (row.step ≠ call.report.step)) ∘
          stepSummaryOf call.buildId := rfl
    rw [hkeep, ← List.filter_map]
    refine List.Perm.trans ?_ ((h.steps call.buildId).filter _)
    rw [List.filter_filter, List.filter_filter]
    refine List.Perm.of_eq (List.filter_congr fun row _ => ?_)
    simp only [StepSummary.key, stepSummaryOf, ne_eq, Prod.mk.injEq, not_and]
    grind
  · have hother : ¬ decide ((stepSummaryOf call.buildId call.report).buildId = buildId) = true :=
      fun h => hbuild (of_decide_eq_true h)
    rw [latestReports_cons_of_ne hbuild, if_neg hother, List.filter_filter]
    refine List.Perm.trans (List.Perm.of_eq (List.filter_congr fun row _ => ?_))
      (h.steps buildId)
    simp only [StepSummary.key, stepSummaryOf, ne_eq, Prod.mk.injEq, not_and]
    grind

theorem countsAfter_eq (h : s.Kept) (hplain : call.isPlain = true) :
    s.countsAfter call = sumReports (latestReports call.buildId (call :: s.calls)) := by
  unfold Store.countsAfter sumReports
  rw [sumCounts_perm ((stepsAfter_perm h hplain call.buildId).map (·.counts)), List.map_map]
  rfl

/-! ## The failures -/

/-- The failures after a report. -/
def Store.failuresAfter (s : Store) (call : Call) : List FailureRow :=
  Rows.insertAll FailureRow.key (s.others call)
    ((call.report.failures.take (s.room call)).map call.failureRow)

theorem mem_others {row : FailureRow} : row ∈ s.others call ↔
    row ∈ s.failures ∧ (row.buildId = call.buildId → row.step ≠ call.step) := by
  unfold Store.others
  rw [List.mem_filter]
  simp [imp_iff_not_or]

/-- A row after a report was there before, and belongs to another step, or is of the report. -/
theorem mem_failuresAfter {row : FailureRow} (h : row ∈ s.failuresAfter call) :
    (row ∈ s.failures ∧ (row.buildId = call.buildId → row.step ≠ call.step)) ∨
      ∃ failure ∈ call.report.failures, call.failureRow failure = row := by
  rcases Rows.mem_insertAll h with hold | hnew
  · exact Or.inl (mem_others.mp hold)
  · obtain ⟨failure, hfailure, hrow⟩ := List.mem_map.mp hnew
    exact Or.inr ⟨failure, List.mem_of_mem_take hfailure, hrow⟩

theorem keysNodup_after (h : s.Kept) :
    ((s.failuresAfter call).map FailureRow.key).Nodup := by
  refine Rows.nodup_insertAll ?_ _
  exact h.keysNodup.sublist (List.filter_sublist.map _)

theorem key_after (h : s.Kept) :
    ∀ row ∈ s.failuresAfter call, row.testKey = testKey row.suite row.name := by
  intro row hrow
  rcases mem_failuresAfter hrow with ⟨hold, _⟩ | ⟨failure, _, rfl⟩
  · exact h.key row hold
  · rfl

theorem attributed_after (h : s.Kept) (hplain : call.isPlain = true) :
    ∀ row ∈ s.failuresAfter call, ∃ report ∈ latestReports row.buildId (call :: s.calls),
      report.step = row.step ∧ row.test ∈ testsOf report.failures := by
  intro row hrow
  rcases mem_failuresAfter hrow with ⟨hold, hother⟩ | ⟨failure, hfailure, rfl⟩
  · obtain ⟨report, hreport, hstep, htest⟩ := h.attributed row hold
    refine ⟨report, mem_latestReports_of_step_ne hreport fun hbuild => ?_, hstep, htest⟩
    rw [hstep, ← Call.step_eq hplain]
    exact hother hbuild
  · refine ⟨call.report, mem_latestReports_cons.mpr (Or.inl rfl), (Call.step_eq hplain).symm, ?_⟩
    rw [Call.test_failureRow hplain hfailure]
    exact mem_testsOf hfailure

/-- A row of another step stays. -/
theorem exists_row_of_keepsRow {test : Text × Text} (h : s.keepsRow call test = true) :
    ∃ row ∈ s.failuresAfter call, row.buildId = call.buildId ∧ row.test = test := by
  obtain ⟨row, hrow, heq⟩ := List.any_eq_true.mp h
  rw [Bool.and_eq_true, decide_eq_true_eq, decide_eq_true_eq] at heq
  exact ⟨row, Rows.mem_insertAll_of_mem hrow _, heq.1, heq.2⟩

/-- A failure that finds room has a row of its key, and the key tells the test. -/
theorem exists_row_of_mem_take (h : s.Kept) (hkeeps : s.Keeps call) {test : Text × Text}
    (htest : test ∈ testsOf (call.report.failures.take (s.room call))) :
    ∃ row ∈ s.failuresAfter call, row.buildId = call.buildId ∧ row.test = test := by
  obtain ⟨failure, hfailure, rfl⟩ := List.mem_map.mp htest
  have hmem := List.mem_of_mem_take hfailure
  obtain ⟨row, hrow, hkey⟩ : ∃ row ∈ s.failuresAfter call,
      row.key = (call.failureRow failure).key :=
    Rows.exists_key_insertAll (List.mem_map_of_mem hfailure)
  obtain ⟨hbuild, hsame⟩ := Prod.mk.inj hkey
  refine ⟨row, hrow, hbuild, ?_⟩
  have hnew := Call.test_failureRow hkeeps.plain hmem
  rw [← hnew]
  obtain ⟨report, hreport, _, hshown⟩ := attributed_after h hkeeps.plain row hrow
  have hown : (call.failureRow failure).test ∈
      failingTests (latestReports call.buildId (call :: s.calls)) := by
    rw [hnew]
    exact mem_failingTests.mpr
      ⟨call.report, mem_latestReports_cons.mpr (Or.inl rfl), mem_testsOf hmem⟩
  refine hkeeps.apart.eq (mem_failingTests.mpr ⟨report, hreport, hshown⟩) hown ?_
  show testKey row.suite row.name = _
  rw [← key_after h row hrow]
  exact hsame

theorem complete_after (h : s.Kept) (hkeeps : s.Keeps call) (buildId : Text)
    (hcard : (failingTests (latestReports buildId (call :: s.calls))).card ≤ maxFailuresPerBuild) :
    ∀ test ∈ failingTests (latestReports buildId (call :: s.calls)),
      ∃ row ∈ s.failuresAfter call, row.buildId = buildId ∧ row.test = test := by
  intro test htest
  by_cases hbuild : call.buildId = buildId
  · subst hbuild
    have hroom : ∀ test ∈ testsOf call.report.failures,
        ∃ row ∈ s.failuresAfter call, row.buildId = call.buildId ∧ row.test = test := by
      intro test htest
      rcases hkeeps.room hcard test htest with hrow | hrow
      · exact exists_row_of_keepsRow hrow
      · exact exists_row_of_mem_take h hkeeps hrow
    obtain ⟨report, hreport, hshown⟩ := mem_failingTests.mp htest
    rcases mem_latestReports_cons.mp hreport with rfl | ⟨hold, hstep⟩
    · exact hroom test hshown
    · rcases hkeeps.others hcard report hold hstep test hshown with hrow | hrow
      · exact exists_row_of_keepsRow hrow
      · exact hroom test hrow
  · rw [latestReports_cons_of_ne hbuild] at hcard htest
    obtain ⟨row, hrow, hid, hsame⟩ := h.complete buildId hcard test htest
    refine ⟨row, Rows.mem_insertAll_of_mem (mem_others.mpr ⟨hrow, fun heq => ?_⟩) _, hid, hsame⟩
    exact absurd (heq.symm.trans hid) hbuild

/-! ## A call -/

/-- The summaries after a report. -/
def Store.summariesAfter (s : Store) (call : Call) : List TestSummary :=
  Rows.upsert TestSummary.buildId ⟨call.buildId, call.pipelineId, s.countsAfter call⟩
    (fun old => { old with counts := s.countsAfter call }) s.summaries

theorem find_summariesAfter (s : Store) (call : Call) (buildId : Text) :
    ((s.summariesAfter call).find? (·.buildId = buildId)).map (·.counts) =
      if buildId = call.buildId then some (s.countsAfter call)
      else (s.summaries.find? (·.buildId = buildId)).map (·.counts) := by
  unfold Store.summariesAfter
  rw [Rows.find_upsert]
  rotate_left
  · exact fun _ _ => rfl
  split_ifs
  · cases s.summaries.find? fun row => decide (row.buildId = buildId) with
    | none => rfl
    | some row => rfl
  · rfl

theorem recordReport_eq_some : recordReport s call = some s' ↔
    (s.countsAfter call).fit = true ∧
      s' =
        { s with
          stepSummaries := s.stepsAfter call
          summaries := s.summariesAfter call
          failures := s.failuresAfter call
          calls := call :: s.calls } := by
  unfold recordReport
  split_ifs with hfit
  · exact ⟨fun h => ⟨hfit, (Option.some.inj h).symm⟩, fun h => congrArg some h.2.symm⟩
  · exact ⟨nofun, fun h => absurd h.1 hfit⟩

theorem kept_recordReport (h : s.Kept) (hkeeps : s.Keeps call)
    (hrecord : recordReport s call = some s') : s'.Kept := by
  obtain ⟨_, rfl⟩ := recordReport_eq_some.mp hrecord
  refine
    { stepsNodup := Rows.nodup_upsert (fun _ hkey => hkey.symm) h.stepsNodup
      steps := stepsAfter_perm h hkeeps.plain
      summary := fun buildId hreports => ?_
      keysNodup := keysNodup_after h
      key := key_after h
      attributed := attributed_after h hkeeps.plain
      complete := complete_after h hkeeps
      apart := hkeeps.apart }
  rw [find_summariesAfter]
  split_ifs with hbuild
  · subst hbuild
    rw [countsAfter_eq h hkeeps.plain]
    rfl
  · have hlatest : latestReports buildId (call :: s.calls) = s.latest buildId :=
      latestReports_cons_of_ne (Ne.symm hbuild) s.calls
    have hsome : s.latest buildId ≠ [] := hlatest ▸ hreports
    rw [h.summary buildId hsome]
    exact congrArg (fun reports => some (sumReports reports)) hlatest.symm

/-- A call that is recorded keeps the rows of the failing tests. -/
def Store.MayRecord (s : Store) (call : Call) : Prop :=
  (s.countsAfter call).fit = true → s.Keeps call

theorem kept_step (s : Store) (call : Call) (s' : Store) (h : s.Kept) (hcond : s.MayRecord call)
    (hstep : s.step call = some s') : s'.Kept := by
  obtain rfl := Option.some.inj hstep
  cases hrecord : recordReport s call with
  | none => exact h
  | some next =>
    exact kept_recordReport h (hcond (recordReport_eq_some.mp hrecord).1) hrecord

/-! ## What is shown -/

theorem mem_stored {row : FailureRow} {buildId : Text} :
    row ∈ s.stored buildId ↔ row ∈ s.failures ∧ row.buildId = buildId := by
  unfold Store.stored
  rw [List.mem_filter, decide_eq_true_eq]

/-- The test of a row fails in the latest reports of its build. -/
theorem Store.Kept.test_mem (h : s.Kept) {row : FailureRow} (hrow : row ∈ s.failures) :
    row.test ∈ failingTests (s.latest row.buildId) := by
  obtain ⟨report, hreport, _, htest⟩ := h.attributed row hrow
  exact mem_failingTests.mpr ⟨report, hreport, htest⟩

/-- The rows of a build are of different tests, since their keys tell the tests. -/
theorem Store.Kept.nodup_tests (h : s.Kept) (buildId : Text) :
    ((s.stored buildId).map FailureRow.test).Nodup := by
  have hkeys : ((s.stored buildId).map FailureRow.key).Nodup :=
    h.keysNodup.sublist (List.filter_sublist.map _)
  have hsame : (s.stored buildId).map FailureRow.key =
      ((s.stored buildId).map FailureRow.test).map
        fun test => (buildId, testKey test.1 test.2) := by
    rw [List.map_map]
    refine List.map_congr_left fun row hrow => ?_
    obtain ⟨hmem, hbuild⟩ := mem_stored.mp hrow
    exact Prod.ext hbuild (h.key row hmem)
  exact List.Nodup.of_map _ (hsame ▸ hkeys)

theorem Store.Kept.mem_tests_iff (h : s.Kept) {buildId : Text}
    (hcard : (failingTests (s.latest buildId)).card ≤ maxFailuresPerBuild) (test : Text × Text) :
    test ∈ (s.stored buildId).map FailureRow.test ↔ test ∈ failingTests (s.latest buildId) := by
  constructor
  · intro hmem
    obtain ⟨row, hrow, rfl⟩ := List.mem_map.mp hmem
    obtain ⟨hfailures, rfl⟩ := mem_stored.mp hrow
    exact h.test_mem hfailures
  · intro htest
    obtain ⟨row, hrow, hbuild, hsame⟩ := h.complete buildId hcard test htest
    exact List.mem_map.mpr ⟨row, mem_stored.mpr ⟨hrow, hbuild⟩, hsame⟩

theorem mem_failedRuns {history : List (Text × ℤ)} {rows : List FailureRow} {run : Text × Text} :
    run ∈ s.failedRuns history rows ↔
      ∃ row ∈ s.failures, row.key = run ∧ run.1 ∈ history.map (·.1) ∧
        run.2 ∈ rows.map (·.testKey) := by
  unfold Store.failedRuns
  rw [List.mem_map]
  constructor
  · rintro ⟨row, hrow, rfl⟩
    rw [List.mem_filter, Bool.and_eq_true, decide_eq_true_eq, decide_eq_true_eq] at hrow
    exact ⟨row, hrow.1, rfl, hrow.2⟩
  · rintro ⟨row, hrow, rfl, hbuild, hkey⟩
    refine ⟨row, List.mem_filter.mpr ⟨hrow, ?_⟩, rfl⟩
    rw [Bool.and_eq_true, decide_eq_true_eq, decide_eq_true_eq]
    exact ⟨hbuild, hkey⟩

/-- A run of a test's history is shown as failed where a row of its build has the test's key. -/
theorem status_eq_failed_iff {history : List (Text × ℤ)} {rows : List FailureRow} {key : Text}
    (hkey : key ∈ rows.map (·.testKey)) {run : TestRunOutcome}
    (hrun : run ∈ testHistory (s.failedRuns history rows) history key) :
    run.status = ("failed" : Text) ↔
      ∃ row ∈ s.failures, row.buildId = run.buildId ∧ row.testKey = key := by
  obtain ⟨entry, hentry, rfl⟩ := List.mem_map.mp hrun
  have hstatus : ((if (entry.1, key) ∈ s.failedRuns history rows then ("failed" : Text)
      else ("passed" : Text)) = ("failed" : Text)) ↔
      (entry.1, key) ∈ s.failedRuns history rows := by
    split_ifs with hfailed
    · exact iff_of_true rfl hfailed
    · exact iff_of_false (by decide) hfailed
  refine hstatus.trans (mem_failedRuns.trans ?_)
  constructor
  · rintro ⟨row, hrow, heq, _⟩
    exact ⟨row, hrow, congrArg Prod.fst heq, congrArg Prod.snd heq⟩
  · rintro ⟨row, hrow, hbuild, hsame⟩
    exact ⟨row, hrow, Prod.ext hbuild hsame, List.mem_map_of_mem hentry, hkey⟩

/-- A shown failure is a row of the build, with the history of its key. -/
theorem exists_row_of_shown {buildId : Text} {failure : BuildTestFailure}
    (h : failure ∈ (loadBuildTestResults s buildId).failures) :
    ∃ row ∈ s.failures, row.suite = failure.suite ∧ row.name = failure.name ∧
      ∃ history rows, row.testKey ∈ rows.map (·.testKey) ∧
        failure.history = testHistory (s.failedRuns history rows) history row.testKey := by
  unfold loadBuildTestResults at h
  split at h
  · obtain ⟨row, hrow, rfl⟩ := List.mem_map.mp h
    have hmem : row ∈ s.stored buildId := List.mem_mergeSort.mp hrow
    exact ⟨row, (mem_stored.mp hmem).1, rfl, rfl, _, _, List.mem_map_of_mem hrow, rfl⟩
  · cases h

theorem Store.Kept.right (h : s.Kept) : s.Right where
  summary := h.summary
  failures buildId hcard := ⟨h.nodup_tests buildId, h.mem_tests_iff hcard⟩
  attributed := h.attributed
  history buildId failure hfailure run hrun hcard := by
    obtain ⟨row, hrow, hsuite, hname, history, rows, hkey, hhistory⟩ :=
      exists_row_of_shown hfailure
    rw [hhistory] at hrun
    refine (status_eq_failed_iff hkey hrun).trans ?_
    rw [← hsuite, ← hname]
    constructor
    · rintro ⟨other, hother, hbuild, hsame⟩
      have htest : other.test = row.test := by
        refine h.apart.eq (h.test_mem hother) (h.test_mem hrow) ?_
        show testKey other.suite other.name = testKey row.suite row.name
        rw [← h.key other hother, ← h.key row hrow, hsame]
      have hmem := h.test_mem hother
      rw [htest, hbuild] at hmem
      exact hmem
    · intro htest
      obtain ⟨other, hother, hbuild, hsame⟩ := h.complete run.buildId hcard _ htest
      refine ⟨other, hother, hbuild, ?_⟩
      have hsuite : other.suite = row.suite := congrArg Prod.fst hsame
      have hname : other.name = row.name := congrArg Prod.snd hsame
      rw [h.key other hother, h.key row hrow, hsuite, hname]

/-! ## Runs -/

theorem kept_run {builds : List BuildRow} {calls : List Call}
    (hmeets : Steps.Meets Store.step Store.MayRecord (Store.new builds) calls)
    (hrun : Steps.run Store.step (Store.new builds) calls = some s) : s.Kept :=
  Steps.keeps_run kept_step (kept_new builds) hmeets hrun

/-- What is stored and shown follows the latest reports, in every run whose calls keep the rows of
the failing tests, and two such runs that end with the same latest reports of a build store the
same failing tests for it. -/
theorem results_follow_latest (builds : List BuildRow) (calls : List Call)
    (hmeets : Steps.Meets Store.step Store.MayRecord (Store.new builds) calls) (s : Store)
    (hrun : Steps.run Store.step (Store.new builds) calls = some s) :
    s.Right ∧
      ∀ (builds' : List BuildRow) (calls' : List Call) (s' : Store),
        Steps.Meets Store.step Store.MayRecord (Store.new builds') calls' →
        Steps.run Store.step (Store.new builds') calls' = some s' →
        ∀ buildId, (∀ report, report ∈ s.latest buildId ↔ report ∈ s'.latest buildId) →
          (failingTests (s.latest buildId)).card ≤ maxFailuresPerBuild →
            ∀ test, test ∈ (s.stored buildId).map FailureRow.test ↔
              test ∈ (s'.stored buildId).map FailureRow.test := by
  have hkept := kept_run hmeets hrun
  refine ⟨hkept.right, fun builds' calls' s' hmeets' hrun' buildId hsame hcard test => ?_⟩
  have hkept' := kept_run hmeets' hrun'
  have htests : failingTests (s.latest buildId) = failingTests (s'.latest buildId) := by
    ext test
    rw [mem_failingTests, mem_failingTests]
    exact exists_congr fun report => and_congr_left fun _ => hsame report
  rw [hkept.mem_tests_iff hcard, htests, hkept'.mem_tests_iff (htests ▸ hcard)]

/-- A report of the only build, of some tests without a suite. -/
def callOf (step : Text) (tests : List Text) : Call where
  buildId := "b"
  pipelineId := "p"
  report :=
    { step
      total := 1
      failed := tests.length
      failures := tests.map fun name => ⟨"", name, none, none, none⟩ }

/-- A step's second report replaces its first one and leaves the failure of the other step. -/
theorem results_follow_latest_repeated :
    ∃ s, Steps.run Store.step (Store.new [⟨"b", 1⟩])
        [callOf "unit" ["t"], callOf "ui" ["u"], callOf "unit" []] = some s ∧
      s.Right ∧ (s.stored "b").map FailureRow.test = [(("" : Text), ("u" : Text))] := by
  have hmeets : Steps.Meets Store.step Store.MayRecord (Store.new [⟨"b", 1⟩])
      [callOf "unit" ["t"], callOf "ui" ["u"], callOf "unit" []] := by
    refine ⟨fun _ => ⟨by decide, ?_, by decide, by decide⟩, ?_⟩
    · unfold KeysApart
      decide
    intro s hs
    obtain rfl := Option.some.inj hs
    refine ⟨fun _ => ⟨by decide, ?_, by decide, by decide⟩, ?_⟩
    · unfold KeysApart
      decide
    intro s hs
    obtain rfl := Option.some.inj hs
    refine ⟨fun _ => ⟨by decide, ?_, by decide, by decide⟩, fun _ _ => trivial⟩
    unfold KeysApart
    decide
  exact ⟨_, rfl, (results_follow_latest _ _ hmeets _ rfl).1, by decide⟩

/-- The row of a test that fails in two steps goes with the step that reported it first. -/
theorem not_followed_sharedTest :
    ¬ ∀ s, Steps.run Store.step (Store.new [⟨"b", 1⟩])
        [callOf "unit" ["t"], callOf "ui" ["t"], callOf "unit" []] = some s → s.Right := by
  intro h
  have hstored := ((h _ rfl).failures "b" (by decide)).2 ("", "t")
  revert hstored
  decide

end TestResults

end OoreBuild
