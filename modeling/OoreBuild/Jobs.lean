import OoreBuild.Lib.Interleave
import OoreBuild.StepRetry

/-!
# Runners and the build table

Every statement that writes a build's status: the insert, `transition_build` with its callers, and
the direct updates of the claim, the credential preflight, the approval, a source change and the
maintenance drain. A caller of `transition_build` decides on what one query returned; the
transition then loads the row in a second statement and updates it in a third, which only checks
the status. `jobs` is the system of all of them, with any statements of other calls in between.

The rows of one query are taken in any order. What happened so far (`History`) is kept beside the
tables and never read by them.
-/

namespace OoreBuild

open Text

/-! ## The store -/

structure Runner where
  id : Text
  labels : List Text
  maxConcurrentBuilds : ℕ
  deriving DecidableEq, Repr

structure Claim where
  buildId : ℕ
  runnerId : Text
  required : List Text
  /-- The labels the runner had. -/
  labels : List Text
  approvalState : Option BuildApprovalState
  /-- The runner that held the build before. -/
  holder : Option Text
  deriving DecidableEq, Repr

inductive StatusWriter where
  | transition
  | claim
  | superseding
  | approval
  | preflight
  | sourceChange
  | drain
  deriving DecidableEq, Repr

structure StatusChange where
  writer : StatusWriter
  buildId : ℕ
  source : BuildStatus
  target : BuildStatus
  deriving DecidableEq, Repr

/-- A runner's hold on a build: the runner, and which claim of the build it is. -/
structure Holder where
  runnerId : Text
  claim : ℕ
  deriving DecidableEq, Repr

/-- A change that was decided on a runner's hold, with the hold when it was applied. -/
structure Applied where
  basis : Holder
  current : Option Holder
  deriving DecidableEq, Repr

/-- A retry as it was queued: the build whose stored artifact it uploads, its steps, and the
uploads of that artifact that a retry had succeeded at before. -/
structure QueuedRetry where
  origin : ℕ
  steps : List Text
  uploaded : List Text
  deriving DecidableEq, Repr

structure History where
  claims : List Claim := []
  changes : List StatusChange := []
  applied : List Applied := []
  /-- The build whose stored artifact each retry copies. -/
  origins : List (ℕ × ℕ) := []
  /-- The uploads of a stored artifact that a retry succeeded at. -/
  uploads : List (ℕ × Text) := []
  retries : List QueuedRetry := []

def History.claimCount (history : History) (buildId : ℕ) : ℕ :=
  history.claims.countP fun claim => claim.buildId = buildId

/-- The build that stored the artifact: a build's own, unless it is a retry. -/
def History.origin (history : History) (buildId : ℕ) : ℕ :=
  (history.origins.lookup buildId).getD buildId

structure JobStore where
  db : Database
  runners : Table Runner.id
  paused : Bool
  /-- The integrations with an open incident about their credentials. -/
  blocked : List Text
  history : History

def JobStore.holder (s : JobStore) (row : Build) : Option Holder :=
  row.runnerId.map fun runnerId => ⟨runnerId, s.history.claimCount row.id⟩

/-- The uploads that a retry has succeeded at, once it is finished. -/
def finishedUploads (history : History) (row : Build) : List (ℕ × Text) :=
  if row.status.isTerminal then
    (row.snapshot.retrySteps.filter row.stepSucceeded).map fun step =>
      (history.origin row.id, step)
  else []

/-- `UPDATE builds` of the rows that meet a condition, with the trigger on the status. -/
def JobStore.update (s : JobStore) (writer : StatusWriter) (p : Build → Bool) (f : Build → Build)
    (hf : ∀ row, (f row).id = row.id) : JobStore :=
  { s with
    db := { s.db with
      builds := s.db.builds.mapRows (fun row => if p row then withdrawPending (f row) else row)
        (by
          intro row
          split
          · exact hf row
          · rfl) }
    history := { s.history with
      changes := s.history.changes ++
        (s.db.builds.rows.filter p).map fun row =>
          ⟨writer, row.id, row.status, (f row).status⟩
      uploads := s.history.uploads ++
        (s.db.builds.rows.filter p).flatMap fun row => finishedUploads s.history (f row) } }

/-! ## Claims -/

/-- A runner has claimed the build and not finished it. -/
def BuildStatus.isActive : BuildStatus → Bool
  | scheduled | assigned | running => true
  | _ => false

/-- A runner holds a build in this status. -/
def BuildStatus.isHeld : BuildStatus → Bool
  | assigned | running => true
  | _ => false

/-- The builds of a pipeline that take a slot. -/
def activeCount (builds : Table Build.id) (pipelineId : Text) : ℕ :=
  builds.rows.countP fun row => row.pipelineId = pipelineId && row.status.isActive

def heldCount (builds : Table Build.id) (runnerId : Text) : ℕ :=
  builds.rows.countP fun row => row.runnerId = some runnerId && row.status.isHeld

def pipelineHasFreeSlot (db : Database) (pipelineId : Text) : Bool :=
  !(db.pipelines.find pipelineId).any fun pipeline =>
    pipeline.maxConcurrent.any fun limit => 0 < limit && limit ≤ activeCount db.builds pipelineId

def runnerEligible (s : JobStore) (runner : Runner) (row : Build) : Bool :=
  (row.snapshot.runsOn.all fun label => runner.labels.contains label) &&
    heldCount s.db.builds runner.id < max runner.maxConcurrentBuilds 1

/-- The instance runs, and the build's source is the project's and has working credentials. -/
def sourceEligible (s : JobStore) (row : Build) : Bool :=
  (s.db.projects.find row.projectId).any fun project =>
    project.repositoryId.any fun repositoryId =>
      (s.db.repositories.find repositoryId).any fun repository =>
        row.snapshot.repositoryId = some repositoryId && !s.paused &&
          !s.blocked.contains repository.integrationId

def scheduleRow (now : ℤ) (row : Build) : Build :=
  { row with status := .scheduled, updatedAt := now }

@[simp]
theorem scheduleRow_id (now : ℤ) (row : Build) : (scheduleRow now row).id = row.id := rfl

def claimRow (runnerId signingTokenHash : Text) (now : ℤ) (row : Build) : Build :=
  { row with status := .assigned, runnerId := some runnerId,
             signingTokenHash := some signingTokenHash, updatedAt := now }

@[simp]
theorem claimRow_id (runnerId hash : Text) (now : ℤ) (row : Build) :
    (claimRow runnerId hash now row).id = row.id := rfl

/-- Take a queued build to scheduled and on to assigned in one transaction. `none` where it is
rolled back. -/
def claimEligibleDirectRunnerBuild (s : JobStore) (buildId : ℕ) (runnerId signingTokenHash : Text)
    (now : ℤ) : Option JobStore :=
  match s.db.builds.find buildId, s.runners.find runnerId with
  | some row, some runner =>
    if row.status = .queued && row.approvalState ≠ some .pending &&
        pipelineHasFreeSlot s.db row.pipelineId && runnerEligible s runner row &&
        sourceEligible s row && row.runnerId.isNone then
      let scheduled := s.update .claim (·.id = buildId) (scheduleRow now) (scheduleRow_id now)
      let assigned := scheduled.update .claim (·.id = buildId)
        (claimRow runnerId signingTokenHash now) (claimRow_id runnerId signingTokenHash now)
      some { assigned with
        history := { assigned.history with
          claims := assigned.history.claims ++
            [⟨buildId, runnerId, row.snapshot.runsOn, runner.labels, row.approvalState, row.runnerId⟩] } }
    else none
  | _, _ => none

/-! ## Transitions -/

structure RunnerResults where
  stepResults : Option (List StepResult)
  exitCode : Option ℤ
  fileSizeBudgets : Option (List Text)
  deriving DecidableEq, Repr

/-- A call of `transition_build`; the hold it was decided on, if it was. -/
structure Transition where
  buildId : ℕ
  target : BuildStatus
  results : Option RunnerResults := none
  basis : Option Holder := none
  deriving DecidableEq, Repr

def transitionRow (target : BuildStatus) (results : Option RunnerResults) (now : ℤ)
    (row : Build) : Build :=
  let revoked := target.isTerminal || target = .queued
  { row with
    status := target
    startedAt := if target = .running then some now else row.startedAt
    finishedAt :=
      if target.isTerminal && !row.status.isTerminal then some now else row.finishedAt
    runnerId := if revoked then none else row.runnerId
    signingTokenHash := if revoked then none else row.signingTokenHash
    updatedAt := now
    stepResults := results.elim row.stepResults (·.stepResults)
    exitCode := results.elim row.exitCode (·.exitCode)
    snapshot := { row.snapshot with
      fileSizeBudgets := (results.bind (·.fileSizeBudgets)).getD row.snapshot.fileSizeBudgets } }

@[simp]
theorem transitionRow_id (target : BuildStatus) (results : Option RunnerResults) (now : ℤ)
    (row : Build) : (transitionRow target results now row).id = row.id := rfl

/-- The update of a transition, where the row still has the status that was loaded. -/
def JobStore.transition (s : JobStore) (op : Transition) (loaded : BuildStatus) (now : ℤ) :
    JobStore :=
  match s.db.builds.find op.buildId with
  | none => s
  | some row =>
    if row.status = loaded then
      let after := s.update .transition (·.id = op.buildId)
        (transitionRow op.target op.results now) (transitionRow_id op.target op.results now)
      { after with
        history := { after.history with
          applied := after.history.applied ++
            (op.basis.map fun basis => ⟨basis, s.holder row⟩).toList } }
    else s

/-! ## The callers -/

def leaseTimeoutSecs : ℤ := 300

def scheduledTimeoutSecs : ℤ := 60

def defaultBuildTimeoutSecs : ℤ := 60 * 60

def defaultExpiresAfterHours : ℕ := 7 * 24

def transitionsOf (s : JobStore) (p : Build → Bool) (op : Build → Transition) : List Transition :=
  (s.db.builds.rows.filter p).map op

/-- End the builds a runner still holds, except those it says it is running: an assigned build
goes back to the queue, a running one fails. -/
def releaseRunnerBuildsExcept (s : JobStore) (runnerId : Text) (active : List ℕ) :
    List Transition :=
  transitionsOf s (fun row => row.runnerId = some runnerId && row.status.isHeld &&
      !active.contains row.id)
    fun row => { buildId := row.id, basis := s.holder row
                 target := if row.status = .running then .failed else .queued }

/-- Builds a runner claimed but never started go back to the queue. -/
def requeueExpiredClaims (s : JobStore) (now : ℤ) : List Transition :=
  transitionsOf s (fun row =>
      (row.status = .assigned && row.updatedAt < now - leaseTimeoutSecs) ||
      (row.status = .scheduled && row.updatedAt < now - scheduledTimeoutSecs))
    fun row => { buildId := row.id, target := .queued, basis := s.holder row }

def timeOutOverdueBuilds (s : JobStore) (now : ℤ) : List Transition :=
  transitionsOf s (fun row => row.status = .running && row.startedAt.any fun startedAt =>
      startedAt + row.snapshot.timeoutSecs.getD defaultBuildTimeoutSecs ≤ now)
    fun row => { buildId := row.id, target := .timedOut }

def expirePendingApprovals (s : JobStore) (now : ℤ) : List Transition :=
  transitionsOf s (fun row =>
      let hours := ((s.db.pipelines.find row.pipelineId).bind
        (·.approvalPolicy.expiresAfterHours)).getD defaultExpiresAfterHours
      row.status = .queued && row.approvalState = some .pending &&
        row.approvalRequestedAt.any fun requestedAt => requestedAt + hours * 3600 ≤ now)
    fun row => { buildId := row.id, target := .canceled }

/-- Builds whose claim was under way when the daemon stopped. -/
def reloadPending (s : JobStore) : List Transition :=
  transitionsOf s (·.status = .scheduled) fun row => { buildId := row.id, target := .queued }

def updateJobStatus (s : JobStore) (runnerId : Text) (buildId : ℕ) (target : BuildStatus)
    (results : Option RunnerResults) : Option Transition :=
  match s.db.builds.find buildId with
  | none => none
  | some row =>
    if row.runnerId = some runnerId &&
        (target = .running || target = .succeeded || target = .failed) then
      some { buildId, target, results, basis := s.holder row }
    else none

def credentialBlockedBuilds (s : JobStore) : List ℕ :=
  (s.db.builds.rows.filter fun row => row.status = .queued &&
    (s.db.projects.find row.projectId).any fun project =>
      project.repositoryId.any fun repositoryId =>
        (s.db.repositories.find repositoryId).any fun repository =>
          row.snapshot.repositoryId = some repositoryId &&
            s.blocked.contains repository.integrationId).map Build.id

/-! ## The system -/

inductive JobInput where
  /-- Any path that creates a build, except a retry. -/
  | create (binds : BuildInsertBinds)
  | claim (buildId : ℕ) (runnerId signingTokenHash : Text) (now : ℤ)
  /-- A runner's claim starts with `fail_credential_blocked_builds`. -/
  | preflight
  | report (runnerId : Text) (buildId : ℕ) (target : BuildStatus) (results : Option RunnerResults)
  | release (runnerId : Text) (active : List ℕ)
  | requeue (now : ℤ)
  | timeOut (now : ℤ)
  | expireApprovals (now : ℤ)
  | cancel (buildId : ℕ)
  | reload
  | decide (buildId : ℕ) (approve : Bool) (now : ℤ)
  /-- Retention picked a finished build, to expire it or to delete its row. -/
  | retention (buildId : ℕ) (full : Bool)
  | changeSource (projectId : Text) (repositoryId : Option Text) (now : ℤ)
  | removeRepositories (repositoryIds : List Text) (now : ℤ)
  | drain (now : ℤ)
  | retry (buildId : ℕ) (step : Text) (out : RetryOutside)
  | setPaused (paused : Bool)
  | setBlocked (integrations : List Text)
  | register (runner : Runner)
  | updateRunner (runnerId : Text) (labels : List Text) (maxConcurrentBuilds : ℕ)
  | setMaxConcurrent (pipelineId : Text) (maxConcurrent : Option ℕ)

inductive Job where
  | transition (op : Transition)
  | loaded (op : Transition) (status : BuildStatus)
  | preflight (buildId : ℕ)
  | retire (buildId : ℕ) (full : Bool)
  | retry (buildId : ℕ) (steps : List Text)

/-- The clock at a statement, and whether the build has a release. -/
structure JobAnswer where
  now : ℤ
  hasRelease : Bool := false

def JobStore.create (s : JobStore) (binds : BuildInsertBinds) : Option JobStore :=
  if binds.snapshot.retrySteps ≠ [] then none
  else (executeBuildInsert s.db binds).map fun db =>
    { s with
      db
      history := { s.history with
        changes := s.history.changes ++
          (s.db.builds.rows.filter (supersedes binds (newBuild s.db binds))).map fun row =>
            ⟨.superseding, row.id, row.status, .canceled⟩
        uploads := s.history.uploads ++
          (s.db.builds.rows.filter (supersedes binds (newBuild s.db binds))).flatMap fun row =>
            finishedUploads s.history (cancelRow binds.now row) } }

def decideRow (approve : Bool) (now : ℤ) (row : Build) : Build :=
  { row with
    status := if approve then .queued else .canceled
    approvalState := some (if approve then .approved else .rejected)
    updatedAt := now
    finishedAt := if approve then row.finishedAt else some now }

@[simp]
theorem decideRow_id (approve : Bool) (now : ℤ) (row : Build) :
    (decideRow approve now row).id = row.id := rfl

/-- Record a maintainer's decision. Approval leaves the build queued; rejection cancels it. -/
def JobStore.recordBuildApproval (s : JobStore) (buildId : ℕ) (approve : Bool) (now : ℤ) :
    JobStore :=
  s.update .approval (fun row => row.id = buildId && row.status = .queued &&
      row.approvalState = some .pending) (decideRow approve now) (decideRow_id approve now)

/-- The row after the credential preflight. -/
def failRow (now : ℤ) (row : Build) : Build :=
  { row with status := .failed, finishedAt := some now, updatedAt := now }

@[simp]
theorem failRow_id (now : ℤ) (row : Build) : (failRow now row).id = row.id := rfl

/-- The row after the maintenance drain. -/
def drainRow (now : ℤ) (row : Build) : Build := { row with status := .queued, updatedAt := now }

@[simp]
theorem drainRow_id (now : ℤ) (row : Build) : (drainRow now row).id = row.id := rfl

/-- Cancel the builds that no runner has taken. -/
def JobStore.cancelUnassigned (s : JobStore) (p : Build → Bool) (now : ℤ) : JobStore :=
  s.update .sourceChange (fun row => p row && (row.status = .queued || row.status = .scheduled))
    (cancelRow now) (cancelRow_id now)

def JobStore.changeSource (s : JobStore) (projectId : Text) (repositoryId : Option Text)
    (now : ℤ) : JobStore :=
  let canceled := s.cancelUnassigned (·.projectId = projectId) now
  { canceled with db := { canceled.db with
      projects := canceled.db.projects.modify projectId
        (fun project => { project with repositoryId }) fun _ => rfl } }

def JobStore.delete (s : JobStore) (buildId : ℕ) : JobStore :=
  { s with db := { s.db with
      builds := s.db.builds.erase buildId
      lastId := max s.db.lastId buildId } }

def JobStore.queueRetry (s : JobStore) (buildId : ℕ) (steps : List Text) (now : ℤ) : JobStore :=
  match queueRerun s.db { permission := .ok (), now } buildId (some steps) with
  | .error _ => s
  | .ok (db, retry) =>
    let origin := s.history.origin buildId
    { s with
      db
      history := { s.history with
        origins := (retry.id, origin) :: s.history.origins
        retries := s.history.retries ++ [⟨origin, steps,
          (s.history.uploads.filter (·.1 = origin)).map (·.2)⟩] } }

/-- A request: what it writes at once, and the calls it starts. -/
def enterJob (s : JobStore) : JobInput → Option (JobStore × List Job)
  | .create binds => (s.create binds).map (·, [])
  | .claim buildId runnerId hash now =>
    (claimEligibleDirectRunnerBuild s buildId runnerId hash now).map (·, [])
  | .preflight => some (s, (credentialBlockedBuilds s).map .preflight)
  | .report runnerId buildId target results =>
    (updateJobStatus s runnerId buildId target results).map fun op => (s, [.transition op])
  | .release runnerId active =>
    some (s, (releaseRunnerBuildsExcept s runnerId active).map .transition)
  | .requeue now => some (s, (requeueExpiredClaims s now).map .transition)
  | .timeOut now => some (s, (timeOutOverdueBuilds s now).map .transition)
  | .expireApprovals now => some (s, (expirePendingApprovals s now).map .transition)
  | .cancel buildId => some (s, [.transition { buildId, target := .canceled }])
  | .reload => some (s, (reloadPending s).map .transition)
  | .decide buildId approve now => some (s.recordBuildApproval buildId approve now, [])
  | .retention buildId full =>
    if (s.db.builds.find buildId).any fun row =>
        row.status.isTerminal && (full || row.status ≠ .expired) then
      some (s, [.retire buildId full])
    else none
  | .changeSource projectId repositoryId now =>
    some (s.changeSource projectId repositoryId now, [])
  | .removeRepositories repositoryIds now =>
    some (s.cancelUnassigned (fun row => (s.db.projects.find row.projectId).any fun project =>
      project.repositoryId.any fun repositoryId => repositoryIds.contains repositoryId) now, [])
  | .drain now =>
    some (s.update .drain (fun row => row.status = .scheduled && row.runnerId.isNone)
      (drainRow now) (drainRow_id now), [])
  | .retry buildId step out =>
    match retryBuildStep s.db out buildId step with
    | .error _ => none
    | .ok steps => some (s, [.retry buildId steps])
  | .setPaused paused => some ({ s with paused }, [])
  | .setBlocked blocked => some ({ s with blocked }, [])
  | .register runner =>
    if h : runner.id ∉ s.runners.rows.map Runner.id then
      some ({ s with runners := s.runners.insert runner h }, [])
    else none
  | .updateRunner runnerId labels maxConcurrentBuilds =>
    some ({ s with
      runners := s.runners.modify runnerId
        (fun runner => { runner with labels, maxConcurrentBuilds }) fun _ => rfl }, [])
  | .setMaxConcurrent pipelineId maxConcurrent =>
    some ({ s with
      db := { s.db with
        pipelines := s.db.pipelines.modify pipelineId
          (fun pipeline => { pipeline with maxConcurrent }) fun _ => rfl } }, [])

def advanceJob (s : JobStore) (job : Job) (answer : JobAnswer) : JobStore × Option Job :=
  match job with
  | .transition op =>
    match s.db.builds.find op.buildId with
    | none => (s, none)
    | some row =>
      if row.status.canTransitionTo op.target then (s, some (.loaded op row.status)) else (s, none)
  | .loaded op status => (s.transition op status answer.now, none)
  | .preflight buildId =>
    (s.update .preflight (fun row => row.id = buildId && row.status = .queued)
      (failRow answer.now) (failRow_id answer.now), none)
  | .retire buildId full =>
    if full && !answer.hasRelease then (s.delete buildId, none)
    else (s, some (.transition { buildId, target := .expired }))
  | .retry buildId steps => (s.queueRetry buildId steps answer.now, none)

def jobs : Interleave JobStore Job JobInput JobAnswer where
  enter := enterJob
  advance s job answer := some (advanceJob s job answer)
  drop s _ := s
  restart s := s

def JobStore.Fresh (s : JobStore) : Prop := s.db.builds.rows = [] ∧ s.history = {}

end OoreBuild
