import OoreBuild.Cron

/-!
# The schedule monitor

A tick looks at every schedule of every enabled pipeline. A schedule that came due since its
checkpoint is claimed by moving the checkpoint to the tick's time, before its build is created;
where the creation fails for a moment the checkpoint is put back. The monitor's ticks follow each
other, and its own queries succeed. `schedules_settle` is what holds in every run.
-/

namespace OoreBuild

open Text

/-- A schedule missed while the daemon was down still fires if it was due within this window. -/
def catchUpSecs : ℕ := 5 * 60

/-- The key of a schedule's checkpoint. Two schedules with one key are one schedule. -/
def scheduleKey (schedule : ScheduleTrigger) : Text :=
  trim schedule.cron ++ '|' :: trim (schedule.branch.getD [])

/-- Whether the schedule fires in the given minute after 1970. -/
def ScheduleTrigger.firesIn (schedule : ScheduleTrigger) (minute : ℕ) : Bool :=
  match Cron.parse schedule.cron with
  | .ok cron => cron.firesIn minute
  | .error _ => false

/-- How the creation of a scheduled build goes. -/
structure ScheduledCreation where
  /-- The build's ID, or why there is none to report. -/
  result : Except ApiError Text
  /-- Whether the build's row exists afterwards. -/
  row : Bool
  row_of_isOk : result.isOk = true → row = true
  /-- Seconds until the row's time is taken, and from there to the answer. -/
  untilRow : ℕ
  untilAnswer : ℕ

def ApiError.isServerError (error : ApiError) : Bool := 500 ≤ error.status && error.status < 600

/-- The creation failed with a server error and left no build. -/
def ScheduledCreation.bare (creation : ScheduledCreation) : Bool :=
  match creation.result with
  | .error error => error.isServerError && !creation.row
  | .ok _ => false

/-- A row of `builds` with the trigger type `schedule`. -/
structure ScheduledBuild where
  pipelineId : Text
  createdAt : ℕ
  deriving DecidableEq, Repr

/-- A claimed run: the schedule came due in `(after, now]` and a build for it was attempted. -/
structure ClaimedRun where
  pipelineId : Text
  schedule : ScheduleTrigger
  after : ℕ
  now : ℕ
  creation : ScheduledCreation

/-- The schedule's key in `pipeline_schedule_runs`. -/
def ClaimedRun.key (run : ClaimedRun) : Text × Text := (run.pipelineId, scheduleKey run.schedule)

/-- The run is one of the schedule `key`, for a time that has the given minute in it. -/
def ClaimedRun.covers (run : ClaimedRun) (key : Text × Text) (minute : ℕ) : Bool :=
  run.key = key && run.after < minute * 60 && minute * 60 ≤ run.now

/-- The tables of the monitor and what it did so far. -/
structure ScheduleMonitor where
  clock : ℕ
  /-- `last_checked_at` of each schedule, the row's key being its pipeline and its key. -/
  lastChecked : Text × Text → Option ℕ
  builds : List ScheduledBuild
  /-- The claimed runs, the last one first. -/
  runs : List ClaimedRun
  /-- The builds that the last tick started, in order. -/
  started : List Text

/-- A row of `pipelines`; its trigger settings may not be readable. -/
structure PipelineSchedules where
  id : Text
  enabled : Bool
  triggerConfig : Option TriggerConfig
  deriving DecidableEq, Repr

/-- A tick: the seconds since the monitor last did something, and the pipelines as it finds
them. -/
structure ScheduleTick where
  wait : ℕ
  pipelines : List PipelineSchedules

/-- The schedules that the tick goes through, with their pipelines. -/
def ScheduleTick.schedules (tick : ScheduleTick) : List (Text × ScheduleTrigger) :=
  (tick.pipelines.filter (·.enabled)).flatMap fun row =>
    (row.triggerConfig.elim [] (·.schedules)).map (row.id, ·)

namespace ScheduleMonitor

def new : ScheduleMonitor where
  clock := 0
  lastChecked := fun _ => none
  builds := []
  runs := []
  started := []

def setLastChecked (m : ScheduleMonitor) (key : Text × Text) (time : ℕ) : ScheduleMonitor :=
  { m with lastChecked := Function.update m.lastChecked key (some time) }

/-- Advance the schedule's checkpoint to `now`. When a run came due in between, returns the
previous checkpoint. -/
def claimDueRun (m : ScheduleMonitor) (pipelineId : Text) (schedule : ScheduleTrigger) (cron : Cron)
    (now : ℕ) : ScheduleMonitor × Option ℕ :=
  let key := (pipelineId, scheduleKey schedule)
  match m.lastChecked key with
  -- a new schedule starts counting from now
  | none => (m.setLastChecked key now, none)
  | some last =>
    if now / 60 ≤ last / 60 then (m, none)
    -- a time before 1970 counts as 1970, which is before every checkpoint
    else (m.setLastChecked key now,
      if cron.dueBetween (max last (now - catchUpSecs)) now then some last else none)

/-- Put the checkpoint back to `previous` after a run claimed at `now` failed to start, unless
another tick moved it or a scheduled build of the pipeline exists since. -/
def releaseClaim (m : ScheduleMonitor) (pipelineId : Text) (schedule : ScheduleTrigger)
    (previous now : ℕ) : ScheduleMonitor × Bool :=
  let key := (pipelineId, scheduleKey schedule)
  if m.lastChecked key = some now &&
      !(m.builds.any fun build => build.pipelineId = pipelineId && now ≤ build.createdAt) then
    (m.setLastChecked key previous, true)
  else (m, false)

/-- Attempt the build of a claimed run. -/
def createScheduledBuild (m : ScheduleMonitor) (run : ClaimedRun) : ScheduleMonitor :=
  let createdAt := m.clock + run.creation.untilRow
  { m with
    clock := createdAt + run.creation.untilAnswer
    builds := if run.creation.row then ⟨run.pipelineId, createdAt⟩ :: m.builds else m.builds
    runs := run :: m.runs }

/-- Build the run claimed with the checkpoint `previous`, and hand it back where the creation
failed with a server error. -/
def startRun (m : ScheduleMonitor) (run : ClaimedRun) (previous : ℕ) : ScheduleMonitor :=
  let m := m.createScheduledBuild run
  match run.creation.result with
  | .ok buildId => { m with started := m.started ++ [buildId] }
  | .error error =>
    if error.isServerError then (m.releaseClaim run.pipelineId run.schedule previous run.now).1
    else m

/-- How the `n`-th creation of the run goes, for every `n`. -/
abbrev ScheduledCreations := ℕ → ScheduledCreation

variable (creations : ScheduledCreations)

/-- The run of a schedule that was claimed with the checkpoint `previous`. -/
def claimedRun (m : ScheduleMonitor) (now : ℕ) (entry : Text × ScheduleTrigger) (previous : ℕ) :
    ClaimedRun where
  pipelineId := entry.1
  schedule := entry.2
  after := max previous (now - catchUpSecs)
  now := now
  creation := creations m.runs.length

/-- What a tick does for one schedule. -/
def runSchedule (now : ℕ) (m : ScheduleMonitor) (entry : Text × ScheduleTrigger) :
    ScheduleMonitor :=
  match Cron.parse entry.2.cron with
  | .error _ => m
  | .ok cron =>
    match m.claimDueRun entry.1 entry.2 cron now with
    | (m, none) => m
    | (m, some previous) => m.startRun (claimedRun creations m now entry previous) previous

/-- Start a build for every schedule that came due since its last check. -/
def runScheduleTick (m : ScheduleMonitor) (tick : ScheduleTick) : ScheduleMonitor :=
  tick.schedules.foldl (runSchedule creations (m.clock + tick.wait))
    { m with clock := m.clock + tick.wait, started := [] }

/-- The monitor after the ticks, from an empty database. -/
def afterTicks (ticks : List ScheduleTick) : ScheduleMonitor :=
  ticks.foldl (runScheduleTick creations) new

/-! ## What holds -/

/-- No schedule has two builds for one due minute. -/
def StartsOnce (m : ScheduleMonitor) : Prop :=
  ∀ key minute, (m.runs.filter fun run => run.covers key minute && run.creation.row).length ≤ 1

/-- The last run of the schedule for the minute failed with a server error and left no build. -/
def failed (m : ScheduleMonitor) (key : Text × Text) (minute : ℕ) : Bool :=
  (m.runs.find? (·.covers key minute)).any (·.creation.bare)

/-- The tick retries the runs that failed so and are still within the catch-up window. -/
def Retries (m : ScheduleMonitor) (tick : ScheduleTick) : Prop :=
  ∀ entry ∈ tick.schedules, ∀ minute, entry.2.firesIn minute = true →
    m.failed (entry.1, scheduleKey entry.2) minute = true →
    m.clock + tick.wait < minute * 60 + catchUpSecs →
    ∃ runs, (m.runScheduleTick creations tick).runs = runs ++ m.runs ∧
      ∃ run ∈ runs, run.covers (entry.1, scheduleKey entry.2) minute = true

/-- The schedule is due when the tick at `now` comes to it. -/
def Due (m : ScheduleMonitor) (now : ℕ) (entry : Text × ScheduleTrigger) : Prop :=
  ∃ cron last, Cron.parse entry.2.cron = .ok cron ∧
    m.lastChecked (entry.1, scheduleKey entry.2) = some last ∧ last / 60 < now / 60 ∧
    cron.dueBetween (max last (now - catchUpSecs)) now = true

/-- Where the creation fails with a server error and leaves no build, the pipeline has no scheduled
build since the tick began. -/
def Clear (m : ScheduleMonitor) (now : ℕ) (entry : Text × ScheduleTrigger) : Prop :=
  m.Due now entry → (creations m.runs.length).bare = true →
    ∀ build ∈ m.builds, build.pipelineId = entry.1 → build.createdAt < now

/-- Every schedule is clear when the tick at `now` comes to it. -/
def ClearAlong (now : ℕ) : ScheduleMonitor → List (Text × ScheduleTrigger) → Prop
  | _, [] => True
  | m, entry :: rest =>
    m.Clear creations now entry ∧ ClearAlong now (runSchedule creations now m entry) rest

/-- Every schedule is clear in every tick. -/
def ClearTicks : ScheduleMonitor → List ScheduleTick → Prop
  | _, [] => True
  | m, tick :: rest =>
    ClearAlong creations (m.clock + tick.wait)
      { m with clock := m.clock + tick.wait, started := [] } tick.schedules ∧
    ClearTicks (m.runScheduleTick creations tick) rest

/-! ## One schedule -/

variable {creations : ScheduledCreations} {m : ScheduleMonitor} {now : ℕ}
  {entry : Text × ScheduleTrigger}

/-- Two schedules with one key have one expression. -/
theorem parse_of_scheduleKey {a b : ScheduleTrigger} (h : scheduleKey a = scheduleKey b)
    {cron cron' : Cron} (ha : Cron.parse a.cron = .ok cron) (hb : Cron.parse b.cron = .ok cron') :
    cron = cron' := by
  have hsplit : ∀ {schedule : ScheduleTrigger} {cron : Cron},
      Cron.parse schedule.cron = .ok cron → split (· = '|') (scheduleKey schedule) =
        trim schedule.cron :: split (· = '|') (trim (schedule.branch.getD [])) := by
    intro schedule cron hparse
    refine split_append_cons (fun c hc => decide_eq_false ?_) (by simp) _
    rintro rfl
    exact Cron.notMem_of_parse hparse hc
  have htrim : trim a.cron = trim b.cron := by
    have := hsplit ha
    rw [h, hsplit hb] at this
    exact (List.cons.inj this).1.symm
  rw [← Cron.parse_trim, htrim, Cron.parse_trim, hb] at ha
  exact (Except.ok.inj ha).symm

variable (creations) in
theorem runSchedule_of_due {cron : Cron} {last : ℕ} (hparse : Cron.parse entry.2.cron = .ok cron)
    (hlast : m.lastChecked (entry.1, scheduleKey entry.2) = some last)
    (hlt : last / 60 < now / 60)
    (hdue : cron.dueBetween (max last (now - catchUpSecs)) now = true) :
    runSchedule creations now m entry =
      (m.setLastChecked (entry.1, scheduleKey entry.2) now).startRun
        (m.claimedRun creations now entry last) last := by
  simp only [runSchedule, hparse, claimDueRun, hlast]
  rw [if_neg (Nat.not_le.mpr hlt), if_pos hdue]
  rfl

variable (creations) in
/-- A schedule that is not due has its checkpoint moved, at most. -/
theorem runSchedule_of_not_due (h : ¬ m.Due now entry) :
    runSchedule creations now m entry = m ∨
      runSchedule creations now m entry =
        m.setLastChecked (entry.1, scheduleKey entry.2) now := by
  cases hparse : Cron.parse entry.2.cron with
  | error error =>
    left
    simp only [runSchedule, hparse]
  | ok cron =>
    cases hlast : m.lastChecked (entry.1, scheduleKey entry.2) with
    | none =>
      right
      simp only [runSchedule, hparse, claimDueRun, hlast]
    | some last =>
      by_cases hle : now / 60 ≤ last / 60
      · left
        simp only [runSchedule, hparse, claimDueRun, hlast, if_pos hle]
      · by_cases hdue : cron.dueBetween (max last (now - catchUpSecs)) now = true
        · exact absurd ⟨cron, last, hparse, hlast, Nat.not_le.mp hle, hdue⟩ h
        · right
          simp only [runSchedule, hparse, claimDueRun, hlast]
          rw [if_neg hle, if_neg hdue]

/-- Whether the pipeline has no scheduled build since `now`. -/
def NoneSince (m : ScheduleMonitor) (pipelineId : Text) (now : ℕ) : Prop :=
  ∀ build ∈ m.builds, build.pipelineId = pipelineId → build.createdAt < now

theorem releaseClaim_of {pipelineId : Text} {schedule : ScheduleTrigger} {previous : ℕ}
    (hlast : m.lastChecked (pipelineId, scheduleKey schedule) = some now)
    (hnone : m.NoneSince pipelineId now) :
    m.releaseClaim pipelineId schedule previous now =
      (m.setLastChecked (pipelineId, scheduleKey schedule) previous, true) := by
  have hany : (m.builds.any fun build =>
      build.pipelineId = pipelineId && now ≤ build.createdAt) = false := by
    rw [List.any_eq_false]
    intro build hbuild
    simp only [Bool.and_eq_true, decide_eq_true_eq, not_and]
    intro hpipeline
    exact Nat.not_le.mpr (hnone build hbuild hpipeline)
  simp only [releaseClaim, hany, hlast]
  rfl

variable (now) in
theorem releaseClaim_cases (pipelineId : Text) (schedule : ScheduleTrigger) (previous : ℕ) :
    m.releaseClaim pipelineId schedule previous now = (m, false) ∨
      m.releaseClaim pipelineId schedule previous now =
          (m.setLastChecked (pipelineId, scheduleKey schedule) previous, true) ∧
        m.NoneSince pipelineId now := by
  by_cases hlast : m.lastChecked (pipelineId, scheduleKey schedule) = some now
  · by_cases hnone : m.NoneSince pipelineId now
    · exact .inr ⟨releaseClaim_of hlast hnone, hnone⟩
    · left
      unfold NoneSince at hnone
      push Not at hnone
      obtain ⟨build, hbuild, hpipeline, hle⟩ := hnone
      have hany : (m.builds.any fun build =>
          build.pipelineId = pipelineId && now ≤ build.createdAt) = true := by
        rw [List.any_eq_true]
        exact ⟨build, hbuild, by simp [hpipeline, hle]⟩
      simp only [releaseClaim, hany, hlast]
      rfl
  · left
    simp only [releaseClaim, hlast]
    rfl

/-- A run that was started is attempted, and its checkpoint stays or is put back; it is put back
only where the attempt left no build. -/
theorem startRun_cases (m : ScheduleMonitor) (run : ClaimedRun) (previous : ℕ) :
    (m.startRun run previous).runs = run :: m.runs ∧
      m.clock ≤ (m.startRun run previous).clock ∧
      ((m.startRun run previous).lastChecked = m.lastChecked ∨
        (m.startRun run previous).lastChecked =
            Function.update m.lastChecked run.key (some previous) ∧
          (run.now ≤ m.clock → run.creation.row = false)) := by
  have hclock : m.clock ≤ (m.createScheduledBuild run).clock := by
    show m.clock ≤ m.clock + _ + _
    omega
  unfold startRun
  cases run.creation.result with
  | ok buildId => exact ⟨rfl, hclock, .inl rfl⟩
  | error error =>
    by_cases hserver : error.isServerError = true
    · simp only [hserver, if_true]
      rcases (m.createScheduledBuild run).releaseClaim_cases run.now run.pipelineId run.schedule
        previous with heq | ⟨heq, hnone⟩
      · rw [heq]
        exact ⟨rfl, hclock, .inl rfl⟩
      · rw [heq]
        refine ⟨rfl, hclock, .inr ⟨rfl, fun h => ?_⟩⟩
        by_contra hrow
        rw [Bool.not_eq_false] at hrow
        -- the attempt's own build is in the way
        have := hnone ⟨run.pipelineId, m.clock + run.creation.untilRow⟩
          (by simp [createScheduledBuild, hrow]) rfl
        simp only at this
        omega
    · simp only [hserver]
      exact ⟨rfl, hclock, .inl rfl⟩

/-- A run that failed with a server error is handed back where no build is in the way. -/
theorem startRun_of_bare {run : ClaimedRun} (previous : ℕ) (hbare : run.creation.bare = true)
    (hlast : m.lastChecked run.key = some run.now) (hnone : m.NoneSince run.pipelineId run.now) :
    (m.startRun run previous).lastChecked =
      Function.update m.lastChecked run.key (some previous) := by
  unfold ScheduledCreation.bare at hbare
  unfold startRun
  cases hresult : run.creation.result with
  | ok buildId =>
    rw [hresult] at hbare
    cases hbare
  | error error =>
    rw [hresult] at hbare
    simp only [Bool.and_eq_true, Bool.not_eq_true'] at hbare
    have hbuilds : (m.createScheduledBuild run).NoneSince run.pipelineId run.now := by
      simp only [NoneSince, createScheduledBuild, hbare.2]
      exact hnone
    simp only [hbare.1, if_true]
    rw [releaseClaim_of (m := m.createScheduledBuild run) hlast hbuilds]
    rfl

/-! ## What every run keeps -/

/-- What holds while the tick at `now` runs. -/
structure Sound (now : ℕ) (m : ScheduleMonitor) : Prop where
  now_le : now ≤ m.clock
  runs_le : ∀ run ∈ m.runs, run.now ≤ now
  /-- The checkpoint is not before a run that left a build. -/
  checked : ∀ run ∈ m.runs, run.creation.row = true →
    ∃ last, m.lastChecked run.key = some last ∧ run.now ≤ last
  /-- Runs of one schedule that left a build are for times apart. -/
  apart : m.runs.Pairwise fun run earlier => run.key = earlier.key → run.creation.row = true →
    earlier.creation.row = true → earlier.now ≤ run.after

/-- Moving a checkpoint to `now` keeps it past the runs that left a build. -/
theorem Sound.setLastChecked (h : Sound now m) (key : Text × Text) :
    Sound now (m.setLastChecked key now) where
  now_le := h.now_le
  runs_le := h.runs_le
  checked := by
    intro run hrun hrow
    by_cases hkey : run.key = key
    · exact ⟨now, by simp [ScheduleMonitor.setLastChecked, hkey], h.runs_le run hrun⟩
    · obtain ⟨last, hlast, hle⟩ := h.checked run hrun hrow
      exact ⟨last, by simp [ScheduleMonitor.setLastChecked, hkey, hlast], hle⟩
  apart := h.apart

theorem Sound.runSchedule (h : Sound now m) (entry : Text × ScheduleTrigger) :
    Sound now (runSchedule creations now m entry) := by
  by_cases hdue : m.Due now entry
  · obtain ⟨cron, last, hparse, hlast, hlt, hbetween⟩ := hdue
    rw [runSchedule_of_due creations hparse hlast hlt hbetween]
    generalize hrun : m.claimedRun creations now entry last = run
    have hnow : run.now = now := by rw [← hrun]; rfl
    have hkey : run.key = (entry.1, scheduleKey entry.2) := by rw [← hrun]; rfl
    have hafter : last ≤ run.after := by
      rw [← hrun]
      exact Nat.le_max_left _ _
    have hm := h.setLastChecked (entry.1, scheduleKey entry.2)
    obtain ⟨hruns, hclock, hchecked⟩ := startRun_cases
      (m.setLastChecked (entry.1, scheduleKey entry.2) now) run last
    refine ⟨h.now_le.trans hclock, ?_, ?_, ?_⟩
    · rw [hruns]
      intro r hr
      rcases List.mem_cons.mp hr with rfl | hr
      · exact hnow.le
      · exact h.runs_le r hr
    · rw [hruns]
      intro r hr hrow
      rcases List.mem_cons.mp hr with rfl | hr
      · rcases hchecked with hsame | ⟨-, hnorow⟩
        · refine ⟨now, ?_, hnow.le⟩
          rw [hsame, hkey]
          exact Function.update_self ..
        · rw [hnorow (hnow ▸ h.now_le)] at hrow
          cases hrow
      · rcases hchecked with hsame | ⟨hback, -⟩
        · rw [hsame]
          exact hm.checked r hr hrow
        · rw [hback]
          by_cases hother : r.key = run.key
          · -- the checkpoint put back was not before the run either
            obtain ⟨last', hlast', hle⟩ := h.checked r hr hrow
            rw [hother, hkey, hlast] at hlast'
            cases hlast'
            exact ⟨last, by rw [hother, Function.update_self], hle⟩
          · rw [Function.update_of_ne hother]
            exact hm.checked r hr hrow
    · rw [hruns]
      refine List.pairwise_cons.mpr ⟨?_, h.apart⟩
      intro earlier hearlier hsame _ hrow
      obtain ⟨last', hlast', hle⟩ := h.checked earlier hearlier hrow
      rw [← hsame, hkey, hlast] at hlast'
      cases hlast'
      exact hle.trans hafter
  · rcases runSchedule_of_not_due creations hdue with heq | heq
    · rw [heq]
      exact h
    · rw [heq]
      exact h.setLastChecked _

/-- The checkpoint is before the minute. -/
def Before (m : ScheduleMonitor) (key : Text × Text) (minute : ℕ) : Prop :=
  ∃ last, m.lastChecked key = some last ∧ last < minute * 60

/-- The runs that failed are still to come: those within the window have their checkpoint before
them. -/
def Kept (now : ℕ) (m : ScheduleMonitor) : Prop :=
  ∀ pipelineId schedule minute, schedule.firesIn minute = true →
    m.failed (pipelineId, scheduleKey schedule) minute = true →
    now < minute * 60 + catchUpSecs → m.Before (pipelineId, scheduleKey schedule) minute

theorem exists_of_failed {key : Text × Text} {minute : ℕ} (h : m.failed key minute = true) :
    ∃ run ∈ m.runs, run.covers key minute = true ∧ run.creation.bare = true := by
  unfold failed at h
  obtain ⟨run, hfind, hbare⟩ := Option.any_eq_true _ _ |>.mp h
  exact ⟨run, List.mem_of_find?_eq_some hfind, by simpa using List.find?_some hfind, hbare⟩

theorem failed_of_runs {m' : ScheduleMonitor} {run : ClaimedRun} (h : m'.runs = run :: m.runs)
    (key : Text × Text) (minute : ℕ) :
    m'.failed key minute =
      if run.covers key minute then run.creation.bare else m.failed key minute := by
  unfold failed
  rw [h]
  by_cases hcovers : run.covers key minute = true
  · rw [if_pos hcovers, List.find?_cons_of_pos (by simpa using hcovers), Option.any_some]
  · rw [if_neg hcovers, List.find?_cons_of_neg (by simpa using hcovers)]

theorem exists_parse_of_firesIn {schedule : ScheduleTrigger} {minute : ℕ}
    (h : schedule.firesIn minute = true) :
    ∃ cron, Cron.parse schedule.cron = .ok cron ∧ cron.firesIn minute = true := by
  unfold ScheduleTrigger.firesIn at h
  split at h
  · rename_i cron hparse
    exact ⟨cron, hparse, h⟩
  · cases h

variable (creations) in
/-- A schedule whose checkpoint is before one of its minutes in the window is due. -/
theorem due_of_before {schedule : ScheduleTrigger} {minute : ℕ} {cron : Cron}
    (hparse : Cron.parse entry.2.cron = .ok cron)
    (hkey : scheduleKey schedule = scheduleKey entry.2) (hfires : schedule.firesIn minute = true)
    (hle : minute * 60 ≤ now) (hwindow : now < minute * 60 + catchUpSecs)
    (hbefore : m.Before (entry.1, scheduleKey entry.2) minute) :
    m.Due now entry ∧ ∃ run, run.covers (entry.1, scheduleKey entry.2) minute = true ∧
      (runSchedule creations now m entry).runs = run :: m.runs := by
  obtain ⟨last, hlast, hlt⟩ := hbefore
  obtain ⟨cron', hparse', hfires⟩ := exists_parse_of_firesIn hfires
  obtain rfl := parse_of_scheduleKey hkey hparse' hparse
  have hafter : max last (now - catchUpSecs) < minute * 60 := by
    rw [Nat.max_lt]
    exact ⟨hlt, by unfold catchUpSecs at *; omega⟩
  have hlater : last / 60 < now / 60 := by omega
  have hdue : cron'.dueBetween (max last (now - catchUpSecs)) now = true :=
    Cron.dueBetween_iff.mpr ⟨minute, hafter, hle, hfires⟩
  refine ⟨⟨cron', last, hparse, hlast, hlater, hdue⟩, ?_⟩
  rw [runSchedule_of_due creations hparse hlast hlater hdue]
  refine ⟨_, ?_, (startRun_cases _ _ _).1⟩
  simp [claimedRun, ClaimedRun.covers, ClaimedRun.key, hafter, hle]

variable (creations) in
/-- A step for another schedule leaves the checkpoint and the runs of this one. -/
theorem runSchedule_of_ne (now : ℕ) {key : Text × Text} (h : key ≠ (entry.1, scheduleKey entry.2)) :
    (runSchedule creations now m entry).lastChecked key = m.lastChecked key ∧
      ∀ minute, (runSchedule creations now m entry).failed key minute = m.failed key minute := by
  by_cases hdue : m.Due now entry
  · obtain ⟨cron, last, hparse, hlast, hlt, hbetween⟩ := hdue
    rw [runSchedule_of_due creations hparse hlast hlt hbetween]
    obtain ⟨hruns, -, hchecked⟩ := startRun_cases
      (m.setLastChecked (entry.1, scheduleKey entry.2) now) (m.claimedRun creations now entry last)
      last
    constructor
    · rcases hchecked with hsame | ⟨hback, -⟩
      · rw [hsame]
        exact Function.update_of_ne h ..
      · rw [hback]
        exact (Function.update_of_ne h ..).trans (Function.update_of_ne h ..)
    · intro minute
      have hother : (m.claimedRun creations now entry last).covers key minute = false := by
        simp [ClaimedRun.covers, ClaimedRun.key, claimedRun, h.symm]
      rw [failed_of_runs hruns, if_neg (by simp [hother])]
      rfl
  · rcases runSchedule_of_not_due creations hdue with heq | heq
    · rw [heq]
      exact ⟨rfl, fun _ => rfl⟩
    · rw [heq]
      exact ⟨Function.update_of_ne h .., fun _ => rfl⟩

theorem Sound.le_of_failed (h : Sound now m) {key : Text × Text} {minute : ℕ}
    (hfailed : m.failed key minute = true) : minute * 60 ≤ now := by
  obtain ⟨run, hrun, hcovers, -⟩ := exists_of_failed hfailed
  unfold ClaimedRun.covers at hcovers
  simp only [Bool.and_eq_true, decide_eq_true_eq] at hcovers
  exact hcovers.2.trans (h.runs_le run hrun)

variable (creations) in
/-- A schedule with a failed run in the window is due, and its new run is for that minute, too. -/
theorem Kept.due (h : Kept now m) (hsound : Sound now m) {schedule : ScheduleTrigger}
    {minute : ℕ} (hkey : scheduleKey schedule = scheduleKey entry.2)
    (hfires : schedule.firesIn minute = true)
    (hfailed : m.failed (entry.1, scheduleKey entry.2) minute = true)
    (hwindow : now < minute * 60 + catchUpSecs) {cron : Cron}
    (hparse : Cron.parse entry.2.cron = .ok cron) :
    m.Due now entry ∧ ∃ run, run.covers (entry.1, scheduleKey entry.2) minute = true ∧
      (ScheduleMonitor.runSchedule creations now m entry).runs = run :: m.runs := by
  have hbefore := h entry.1 schedule minute hfires (hkey ▸ hfailed) hwindow
  rw [hkey] at hbefore
  exact due_of_before creations hparse hkey hfires (hsound.le_of_failed hfailed) hwindow hbefore

/-- Where the schedule is clear, the runs that failed stay to come. -/
theorem Kept.runSchedule (h : Kept now m) (hsound : Sound now m)
    (hclear : m.Clear creations now entry) :
    Kept now (runSchedule creations now m entry) := by
  intro pipelineId schedule minute hfires hfailed hwindow
  by_cases hkey : (pipelineId, scheduleKey schedule) = (entry.1, scheduleKey entry.2)
  · obtain ⟨rfl, hkeys⟩ := Prod.mk.inj hkey
    rw [hkeys] at hfailed ⊢
    by_cases hdue : m.Due now entry
    · have hnone := hclear hdue
      obtain ⟨cron, last, hparse, hlast, hlt, hbetween⟩ := hdue
      have hstart := runSchedule_of_due creations hparse hlast hlt hbetween
      have hruns := (startRun_cases (m.setLastChecked (entry.1, scheduleKey entry.2) now)
        (m.claimedRun creations now entry last) last).1
      rw [← hstart] at hruns
      have hcovers : (m.claimedRun creations now entry last).covers
          (entry.1, scheduleKey entry.2) minute = true := by
        by_contra hcovers
        -- the minute's run failed before, so the new one is for it, too
        have hbefore : m.failed (entry.1, scheduleKey entry.2) minute = true := by
          rwa [failed_of_runs (m := m) hruns, if_neg hcovers] at hfailed
        obtain ⟨-, run, hrun, hruns'⟩ :=
          h.due creations hsound hkeys hfires hbefore hwindow hparse
        rw [hruns] at hruns'
        exact hcovers ((List.cons.inj hruns').1 ▸ hrun)
      have hbare : (m.claimedRun creations now entry last).creation.bare = true := by
        rwa [failed_of_runs (m := m) hruns, if_pos hcovers] at hfailed
      have hback := startRun_of_bare (m := m.setLastChecked (entry.1, scheduleKey entry.2) now)
        last hbare (Function.update_self ..) (hnone hbare)
      refine ⟨last, ?_, ?_⟩
      · rw [hstart, hback]
        exact Function.update_self ..
      · unfold ClaimedRun.covers at hcovers
        simp only [Bool.and_eq_true, decide_eq_true_eq] at hcovers
        exact (Nat.le_max_left _ _).trans_lt hcovers.1.2
    · have hbefore : m.failed (entry.1, scheduleKey entry.2) minute = true := by
        rcases runSchedule_of_not_due creations hdue with heq | heq
        · rwa [heq] at hfailed
        · rwa [heq] at hfailed
      cases hparse : Cron.parse entry.2.cron with
      | error error =>
        simp only [ScheduleMonitor.runSchedule, hparse]
        rw [← hkeys] at hbefore ⊢
        exact h entry.1 schedule minute hfires hbefore hwindow
      | ok cron =>
        exact absurd (h.due creations hsound hkeys hfires hbefore hwindow hparse).1
          hdue
  · have hframe := runSchedule_of_ne creations (m := m) now hkey
    rw [hframe.2] at hfailed
    obtain ⟨last, hlast, hlt⟩ := h pipelineId schedule minute hfires hfailed hwindow
    exact ⟨last, hframe.1.trans hlast, hlt⟩

variable (creations) in
theorem runSchedule_runs (now : ℕ) (m : ScheduleMonitor) (entry : Text × ScheduleTrigger) :
    ∃ runs, (runSchedule creations now m entry).runs = runs ++ m.runs := by
  by_cases hdue : m.Due now entry
  · obtain ⟨cron, last, hparse, hlast, hlt, hbetween⟩ := hdue
    rw [runSchedule_of_due creations hparse hlast hlt hbetween]
    exact ⟨[_], (startRun_cases _ _ _).1⟩
  · rcases runSchedule_of_not_due creations hdue with heq | heq
    · exact ⟨[], by rw [heq]; rfl⟩
    · exact ⟨[], by rw [heq]; rfl⟩

variable (creations) in
theorem foldl_runSchedule_runs (now : ℕ) (m : ScheduleMonitor)
    (entries : List (Text × ScheduleTrigger)) :
    ∃ runs, (entries.foldl (runSchedule creations now) m).runs = runs ++ m.runs := by
  induction entries generalizing m with
  | nil => exact ⟨[], rfl⟩
  | cons entry rest ih =>
    obtain ⟨first, hfirst⟩ := runSchedule_runs creations now m entry
    obtain ⟨runs, hruns⟩ := ih (runSchedule creations now m entry)
    refine ⟨runs ++ first, ?_⟩
    rw [List.foldl_cons, hruns, hfirst, List.append_assoc]

/-- The tick comes to the schedule, with its checkpoint still before the minute. -/
theorem exists_run_of_before {entries : List (Text × ScheduleTrigger)} (hentry : entry ∈ entries)
    {minute : ℕ} (hfires : entry.2.firesIn minute = true) (hle : minute * 60 ≤ now)
    (hwindow : now < minute * 60 + catchUpSecs)
    (hbefore : m.Before (entry.1, scheduleKey entry.2) minute) :
    ∃ runs, (entries.foldl (runSchedule creations now) m).runs = runs ++ m.runs ∧
      ∃ run ∈ runs, run.covers (entry.1, scheduleKey entry.2) minute = true := by
  induction entries generalizing m with
  | nil => cases hentry
  | cons first rest ih =>
    rw [List.foldl_cons]
    by_cases hkey : (entry.1, scheduleKey entry.2) = (first.1, scheduleKey first.2) ∧
        ∃ cron, Cron.parse first.2.cron = .ok cron
    · obtain ⟨hkey, cron, hparse⟩ := hkey
      rw [hkey] at hbefore
      obtain ⟨-, run, hcovers, hruns⟩ := due_of_before creations hparse
        (Prod.mk.inj hkey).2 hfires hle hwindow hbefore
      obtain ⟨runs, hrest⟩ := foldl_runSchedule_runs creations now
        (runSchedule creations now m first) rest
      refine ⟨runs ++ [run], ?_, run, List.mem_append_right _ List.mem_cons_self, hkey ▸ hcovers⟩
      rw [hrest, hruns, List.append_assoc]
      rfl
    · have hrest : entry ∈ rest := by
        refine (List.mem_cons.mp hentry).resolve_left ?_
        rintro rfl
        obtain ⟨cron, hparse, -⟩ := exists_parse_of_firesIn hfires
        exact hkey ⟨rfl, cron, hparse⟩
      -- the first schedule is another one, or it is skipped
      have hstill : (runSchedule creations now m first).Before (entry.1, scheduleKey entry.2)
          minute := by
        by_cases hsame : (entry.1, scheduleKey entry.2) = (first.1, scheduleKey first.2)
        · cases hparse : Cron.parse first.2.cron with
          | error error =>
            simp only [runSchedule, hparse]
            exact hbefore
          | ok cron => exact absurd ⟨hsame, cron, hparse⟩ hkey
        · obtain ⟨last, hlast, hlt⟩ := hbefore
          exact ⟨last, (runSchedule_of_ne creations now hsame).1.trans hlast, hlt⟩
      obtain ⟨before, hbefore⟩ := runSchedule_runs creations now m first
      obtain ⟨runs, hruns, run, hrun, hcovers⟩ := ih hrest hstill
      refine ⟨runs ++ before, ?_, run, List.mem_append_left _ hrun, hcovers⟩
      rw [hruns, hbefore, List.append_assoc]

/-! ## Ticks -/

/-- The times go on. -/
theorem Sound.mono (h : Sound now m) {now' : ℕ} (hle : now ≤ now') (hclock : now' ≤ m.clock) :
    Sound now' m where
  now_le := hclock
  runs_le := fun run hrun => (h.runs_le run hrun).trans hle
  checked := h.checked
  apart := h.apart

theorem Kept.mono (h : Kept now m) {now' : ℕ} (hle : now ≤ now') : Kept now' m :=
  fun pipelineId schedule minute hfires hfailed hwindow =>
    h pipelineId schedule minute hfires hfailed (hle.trans_lt hwindow)

variable (creations) in
theorem Sound.foldl_runSchedule (h : Sound now m) (entries : List (Text × ScheduleTrigger)) :
    Sound now (entries.foldl (ScheduleMonitor.runSchedule creations now) m) := by
  induction entries generalizing m with
  | nil => exact h
  | cons entry rest ih => exact ih (h.runSchedule entry)

theorem Kept.foldl_runSchedule (h : Kept now m) (hsound : Sound now m)
    {entries : List (Text × ScheduleTrigger)} (hclear : ClearAlong creations now m entries) :
    Kept now (entries.foldl (ScheduleMonitor.runSchedule creations now) m) := by
  induction entries generalizing m with
  | nil => exact h
  | cons entry rest ih =>
    exact ih (h.runSchedule hsound hclear.1) (hsound.runSchedule entry) hclear.2

/-- The monitor when a tick begins. -/
theorem Sound.begin (h : Sound m.clock m) (wait : ℕ) :
    Sound (m.clock + wait) { m with clock := m.clock + wait, started := [] } where
  now_le := le_rfl
  runs_le := fun run hrun => (h.runs_le run hrun).trans (Nat.le_add_right _ _)
  checked := h.checked
  apart := h.apart

theorem Kept.begin (h : Kept m.clock m) (wait : ℕ) :
    Kept (m.clock + wait) { m with clock := m.clock + wait, started := [] } :=
  h.mono (Nat.le_add_right _ _)

theorem Sound.runScheduleTick (h : Sound m.clock m) (tick : ScheduleTick) :
    Sound (m.runScheduleTick creations tick).clock (m.runScheduleTick creations tick) := by
  have hend := (h.begin tick.wait).foldl_runSchedule creations tick.schedules
  exact hend.mono hend.now_le le_rfl

theorem Kept.runScheduleTick (h : Kept m.clock m) (hsound : Sound m.clock m) {tick : ScheduleTick}
    (hclear : ClearAlong creations (m.clock + tick.wait)
      { m with clock := m.clock + tick.wait, started := [] } tick.schedules) :
    Kept (m.runScheduleTick creations tick).clock (m.runScheduleTick creations tick) := by
  have hsound := hsound.begin tick.wait
  have hend := (h.begin tick.wait).foldl_runSchedule hsound hclear
  exact hend.mono (hsound.foldl_runSchedule creations tick.schedules).now_le

theorem sound_new : Sound new.clock new where
  now_le := le_rfl
  runs_le := by simp [new]
  checked := by simp [new]
  apart := List.Pairwise.nil

theorem kept_new : Kept new.clock new := by
  intro pipelineId schedule minute _ hfailed
  cases hfailed

variable (creations) in
theorem sound_foldl (h : Sound m.clock m) (ticks : List ScheduleTick) :
    Sound (ticks.foldl (runScheduleTick creations) m).clock
      (ticks.foldl (runScheduleTick creations) m) := by
  induction ticks generalizing m with
  | nil => exact h
  | cons tick rest ih => exact ih (h.runScheduleTick tick)

theorem kept_foldl (hsound : Sound m.clock m) (h : Kept m.clock m) {ticks : List ScheduleTick}
    (hclear : ClearTicks creations m ticks) :
    Kept (ticks.foldl (runScheduleTick creations) m).clock
      (ticks.foldl (runScheduleTick creations) m) := by
  induction ticks generalizing m with
  | nil => exact h
  | cons tick rest ih =>
    exact ih (hsound.runScheduleTick tick) (h.runScheduleTick hsound hclear.1) hclear.2

/-- Runs for one minute that left a build are not apart, so there is one at most. -/
theorem Sound.startsOnce (h : Sound now m) : m.StartsOnce := by
  intro key minute
  have hapart := h.apart.filter fun run => run.covers key minute && run.creation.row
  have hmem : ∀ run ∈ m.runs.filter fun run => run.covers key minute && run.creation.row,
      run.key = key ∧ run.after < minute * 60 ∧ minute * 60 ≤ run.now ∧
        run.creation.row = true := by
    intro run hrun
    simpa [ClaimedRun.covers, and_assoc] using (List.mem_filter.mp hrun).2
  generalize m.runs.filter (fun run => run.covers key minute && run.creation.row) = runs
    at hapart hmem ⊢
  rcases runs with - | ⟨run, - | ⟨earlier, rest⟩⟩
  · exact Nat.zero_le _
  · exact le_rfl
  · obtain ⟨hkey, hafter, -, hrow⟩ := hmem run List.mem_cons_self
    obtain ⟨hkey', -, hnow, hrow'⟩ := hmem earlier (List.mem_cons_of_mem _ List.mem_cons_self)
    have := List.rel_of_pairwise_cons hapart List.mem_cons_self (hkey.trans hkey'.symm) hrow hrow'
    omega

/-- What was kept is retried. -/
theorem Kept.retries (h : Kept m.clock m) (hsound : Sound m.clock m) (tick : ScheduleTick) :
    m.Retries creations tick := by
  intro entry hentry minute hfires hfailed hwindow
  have hsound := hsound.begin tick.wait
  have hbefore := h.begin tick.wait entry.1 entry.2 minute hfires hfailed hwindow
  exact exists_run_of_before hentry hfires (hsound.le_of_failed hfailed) hwindow hbefore

/-- In every run no schedule starts two builds for one due minute; where no other build is in the
way of handing a run back, every tick retries the failed runs that are still in the window. -/
theorem schedules_settle (creations : ScheduledCreations) (ticks : List ScheduleTick) :
    (afterTicks creations ticks).StartsOnce ∧
      (ClearTicks creations new ticks →
        ∀ tick, (afterTicks creations ticks).Retries creations tick) := by
  have hsound := sound_foldl creations sound_new ticks
  refine ⟨hsound.startsOnce, fun hclear => ?_⟩
  exact (kept_foldl sound_new kept_new hclear).retries hsound

/-- A run whose creation leaves no row leaves the builds. -/
theorem builds_startRun (m : ScheduleMonitor) {run : ClaimedRun} (hrow : run.creation.row = false)
    (previous : ℕ) : (m.startRun run previous).builds = m.builds := by
  have hcreated : (m.createScheduledBuild run).builds = m.builds := by
    unfold createScheduledBuild
    rw [hrow]
    rfl
  unfold startRun
  dsimp only
  split
  · exact hcreated
  · split_ifs
    · rcases releaseClaim_cases (m := m.createScheduledBuild run) run.now run.pipelineId
        run.schedule previous with heq | ⟨heq, -⟩
      · rw [heq, hcreated]
      · rw [heq]
        exact hcreated
    · exact hcreated

theorem builds_runSchedule (hrow : ∀ n, (creations n).row = false) :
    (runSchedule creations now m entry).builds = m.builds := by
  by_cases hdue : m.Due now entry
  · obtain ⟨cron, last, hparse, hlast, hlt, hfires⟩ := hdue
    rw [runSchedule_of_due creations hparse hlast hlt hfires]
    exact builds_startRun _ (hrow _) last
  · rcases runSchedule_of_not_due creations hdue with heq | heq
    · rw [heq]
    · rw [heq]
      rfl

/-- Creations that leave no row are not in each other's way. -/
theorem clearTicks_of_noRow (hrow : ∀ n, (creations n).row = false) (hbuilds : m.builds = [])
    (ticks : List ScheduleTick) : ClearTicks creations m ticks := by
  have halong : ∀ (entries : List (Text × ScheduleTrigger)) (now : ℕ) (m : ScheduleMonitor),
      m.builds = [] → ClearAlong creations now m entries ∧
        (entries.foldl (runSchedule creations now) m).builds = [] := by
    intro entries now
    induction entries with
    | nil => exact fun m hbuilds => ⟨trivial, hbuilds⟩
    | cons entry rest ih =>
      intro m hbuilds
      obtain ⟨hclear, hend⟩ :=
        ih (runSchedule creations now m entry) ((builds_runSchedule hrow).trans hbuilds)
      refine ⟨⟨fun _ _ build hbuild => ?_, hclear⟩, hend⟩
      rw [hbuilds] at hbuild
      cases hbuild
  induction ticks generalizing m with
  | nil => trivial
  | cons tick rest ih =>
    obtain ⟨hclear, hend⟩ := halong tick.schedules (m.clock + tick.wait)
      { m with clock := m.clock + tick.wait, started := [] } hbuilds
    exact ⟨hclear, ih hend⟩

/-- The first creation starts a build and the others fail with a server error. -/
def startedThenFailing : ScheduledCreations
  | 0 => ⟨.ok "b1", true, fun _ => rfl, 1, 0⟩
  | _ + 1 => ⟨.error ⟨500, "store_error", "Failed to fetch pipeline"⟩, false, nofun, 1, 0⟩

/-- Two hourly schedules of one pipeline. -/
def hourly : TriggerConfig where
  events := []
  branches := []
  tags := []
  paths := []
  pathsIgnore := []
  schedules := [⟨"0 * * * *", none⟩, ⟨"0 * * * *", some "next"⟩]

def hourlyTick (wait : ℕ) : ScheduleTick := ⟨wait, [⟨"p1", true, some hourly⟩]⟩

-- 30 seconds before 2026-10-21 10:00 and 10 seconds after it
def hourlyTicks : List ScheduleTick := [hourlyTick 1792576770, hourlyTick 40]

/-- No creation comes to a row. -/
def failing : ScheduledCreations := fun n => startedThenFailing (n + 1)

/-- Both runs of the second tick fail, and the third tick retries the second schedule's. -/
theorem schedules_settle_failing :
    ((afterTicks failing hourlyTicks).failed ("p1", scheduleKey ⟨"0 * * * *", some "next"⟩)
        29876280 = true) ∧
      ∃ runs, ((afterTicks failing hourlyTicks).runScheduleTick failing (hourlyTick 20)).runs =
          runs ++ (afterTicks failing hourlyTicks).runs ∧
        ∃ run ∈ runs, run.covers ("p1", scheduleKey ⟨"0 * * * *", some "next"⟩) 29876280 = true :=
  have hfailed : (afterTicks failing hourlyTicks).failed
      ("p1", scheduleKey ⟨"0 * * * *", some "next"⟩) 29876280 = true := by decide +kernel
  ⟨hfailed, (schedules_settle failing hourlyTicks).2 (clearTicks_of_noRow (fun _ => rfl) rfl _)
    (hourlyTick 20) ("p1", ⟨"0 * * * *", some "next"⟩) (by decide +kernel) 29876280
    (by decide +kernel) hfailed (by decide +kernel)⟩

/-- Two schedules come due in one tick. The first one's build is in the way of handing back the
second one's run, so the next tick does not retry it. -/
theorem started_build_blocks_retry :
    ¬ ∀ (creations : ScheduledCreations) (ticks : List ScheduleTick),
      (afterTicks creations ticks).StartsOnce ∧
      ∀ tick, (afterTicks creations ticks).Retries creations tick := by
  intro h
  obtain ⟨runs, hruns, run, hrun, -⟩ := (h startedThenFailing hourlyTicks).2 (hourlyTick 20)
    ("p1", ⟨"0 * * * *", some "next"⟩) (by decide +kernel) 29876280 (by decide +kernel)
    (by decide +kernel) (by decide +kernel)
  have hlength : (((afterTicks startedThenFailing hourlyTicks).runScheduleTick startedThenFailing
      (hourlyTick 20)).runs).length = (afterTicks startedThenFailing hourlyTicks).runs.length := by
    decide +kernel
  rw [hruns, List.length_append, Nat.add_eq_right, List.length_eq_zero_iff] at hlength
  rw [hlength] at hrun
  cases hrun

end ScheduleMonitor

end OoreBuild
