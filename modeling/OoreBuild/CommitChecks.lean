import OoreBuild.Notifications

/-!
# Commit checks

A loop reports the status of each build to the source, one check for each platform of a pipeline
and commit (`reportDueBuilds` and `reportBuild` in the source). It scans the builds whose status
differs from the one reported last, and takes one after another: the build is loaded again, and for
each platform it looks who owns the check, posts the status and writes itself down as the owner.
Last the build is marked with the status that the scan read.

The builds here have a commit and belong to a project with a connected source.
-/

namespace OoreBuild

namespace Checks

open Text

/-! ## Tables -/

structure BuildRow where
  id : ℕ
  pipelineId : Text
  commitSha : Text
  buildNumber : ℕ
  /-- Whole seconds. -/
  createdAt : ℤ
  /-- The platforms the build was asked to produce. -/
  platforms : List Text
  status : BuildStatus
  reportedStatus : Option BuildStatus
  reportAttempts : ℕ
  reportAfter : Option ℤ

/-- The key of a row of `scm_check_runs`. -/
structure CheckKey where
  pipelineId : Text
  commitSha : Text
  platform : Text
  deriving DecidableEq

/-- A state that the source got. -/
structure Posted where
  key : CheckKey
  buildId : ℕ
  buildNumber : ℕ
  status : BuildStatus
  deriving DecidableEq

/-! ## The report under way -/

/-- What the scan reads of a build. -/
structure ScanRow where
  id : ℕ
  status : BuildStatus
  reported : Option BuildStatus
  attempts : ℕ

/-- The build as it is loaded for the report. -/
structure BuildContext where
  buildId : ℕ
  buildNumber : ℕ
  status : BuildStatus
  pipelineId : Text
  commitSha : Text
  createdAt : ℤ
  platforms : List Text

inductive Failure where
  | fails
  /-- The source refused the report for good. -/
  | refused
  deriving DecidableEq

/-- What the report of a build does next; the platforms are those still to do. -/
inductive Stage where
  | load
  | check (ctx : BuildContext) (platforms : List Text)
  | post (ctx : BuildContext) (platform : Text) (rest : List Text)
  | own (ctx : BuildContext) (platform : Text) (rest : List Text)
  | mark (result : Except Failure Unit)

/-- A scan under way: the builds still to do, and what is done to the first of them. -/
structure Report where
  rows : List ScanRow
  now : ℤ
  stage : Stage

structure Store where
  builds : Table BuildRow.id
  /-- The build that owns each check. -/
  owner : CheckKey → Option ℕ
  report : Option Report
  /-- The states that were posted, oldest first. -/
  posted : List Posted
  /-- The posts that failed. -/
  failedPosts : List (ℕ × BuildStatus)
  /-- The statuses that were marked without a post that succeeded. -/
  givenUp : List (ℕ × BuildStatus)
  /-- The first terminal status that each build reached. -/
  outcome : ℕ → Option BuildStatus

/-! ## The report of a build -/

def maxReportAttempts : ℕ := 6

def reportBatchSize : ℕ := 20

def retryBaseSecs : ℤ := 5

/-- Where a check reports a build's state: queued, running or a final result. -/
inductive Phase where
  | queued
  | running
  | done (status : BuildStatus)
  deriving DecidableEq

def phase : BuildStatus → Phase
  | .queued | .scheduled | .assigned => .queued
  | .running => .running
  | terminal => .done terminal

def Phase.isDone : Phase → Bool
  | done _ => true
  | _ => false

def BuildRow.context (row : BuildRow) : BuildContext where
  buildId := row.id
  buildNumber := row.buildNumber
  status := row.status
  pipelineId := row.pipelineId
  commitSha := row.commitSha
  createdAt := row.createdAt
  platforms := row.platforms

def BuildContext.key (ctx : BuildContext) (platform : Text) : CheckKey :=
  ⟨ctx.pipelineId, ctx.commitSha, platform⟩

/-- Go on with the next platform. -/
def nextPlatform (ctx : BuildContext) : List Text → Stage
  | [] => .mark (.ok ())
  | platforms => .check ctx platforms

/-- Load the build. A build whose phase is reported already, and one that retention expired after
its result was reported, have nothing to report. -/
def Store.loadContext (s : Store) (row : ScanRow) : Stage :=
  match s.builds.find row.id with
  | none => .mark (.ok ())
  | some build =>
    let reportedPhase := row.reported.map phase
    if reportedPhase = some (phase build.status) then .mark (.ok ())
    else if build.status = .expired ∧ reportedPhase.any (·.isDone) = true then .mark (.ok ())
    else nextPlatform build.context build.platforms

/-- A newer build reported this check. -/
def Store.ownedByNewer (s : Store) (ctx : BuildContext) (platform : Text) : Bool :=
  (s.owner (ctx.key platform)).any fun owner => owner ≠ ctx.buildId &&
    (s.builds.find owner).any fun row => ctx.createdAt < row.createdAt

def BuildRow.marked (row : BuildRow) (status : BuildStatus) : BuildRow :=
  { row with reportedStatus := some status, reportAttempts := 0, reportAfter := none }

theorem BuildRow.marked_id (row : BuildRow) (status : BuildStatus) :
    (row.marked status).id = row.id := rfl

def BuildRow.retried (row : BuildRow) (attempts : ℕ) (now : ℤ) : BuildRow :=
  { row with
    reportAttempts := attempts + 1
    reportAfter := some (now + retryBaseSecs * 2 ^ min attempts 10) }

theorem BuildRow.retried_id (row : BuildRow) (attempts : ℕ) (now : ℤ) :
    (row.retried attempts now).id = row.id := rfl

/-- Whether the build is marked as reported. -/
def givesUp (row : ScanRow) : Except Failure Unit → Bool
  | .ok _ | .error .refused => true
  | .error .fails => maxReportAttempts ≤ row.attempts + 1

/-- Mark the build with the status that the scan read, or count the attempt. -/
def Store.mark (s : Store) (row : ScanRow) (now : ℤ) (result : Except Failure Unit) : Store :=
  if givesUp row result then
    { s with
      builds := s.builds.modify row.id (·.marked row.status) fun build => build.marked_id row.status
      givenUp := match result with
        | .ok _ => s.givenUp
        | .error _ => (row.id, row.status) :: s.givenUp }
  else
    { s with
      builds := s.builds.modify row.id (·.retried row.attempts now) fun build =>
        build.retried_id row.attempts now }

def Store.setOwner (s : Store) (ctx : BuildContext) (platform : Text) : Store :=
  { s with owner := Function.update s.owner (ctx.key platform) (some ctx.buildId) }

/-- A post that the source took. -/
def Store.addPosted (s : Store) (ctx : BuildContext) (platform : Text) : Store :=
  { s with posted := s.posted ++
      [⟨ctx.key platform, ctx.buildId, ctx.buildNumber, ctx.status⟩] }

def Store.addFailed (s : Store) (ctx : BuildContext) : Store :=
  { s with failedPosts := (ctx.buildId, ctx.status) :: s.failedPosts }

/-- The next step of the report; a post is answered. -/
def Store.advanceReport (s : Store) (answer : Except Failure Unit) : Option Store :=
  match s.report with
  | some ⟨row :: rows, now, stage⟩ =>
    match stage with
    | .load => some { s with report := some ⟨row :: rows, now, s.loadContext row⟩ }
    | .check ctx (platform :: rest) =>
      let stage := if s.ownedByNewer ctx platform then nextPlatform ctx rest
        else .post ctx platform rest
      some { s with report := some ⟨row :: rows, now, stage⟩ }
    | .check _ [] => some { s with report := some ⟨row :: rows, now, .mark (.ok ())⟩ }
    | .post ctx platform rest =>
      match answer with
      | .ok _ => some { s.addPosted ctx platform with
          report := some ⟨row :: rows, now, .own ctx platform rest⟩ }
      | .error e => some { s.addFailed ctx with
          report := some ⟨row :: rows, now, .mark (.error e)⟩ }
    | .own ctx platform rest => some { s.setOwner ctx platform with
        report := some ⟨row :: rows, now, nextPlatform ctx rest⟩ }
    | .mark result => some { s.mark row now result with
        report := if rows = [] then none else some ⟨rows, now, .load⟩ }
  | _ => none

/-! ## The loop and what happens beside it -/

/-- The build's status is not the one reported last. -/
def BuildRow.isDue (row : BuildRow) : Bool := row.reportedStatus ≠ some row.status

def BuildRow.scanned (row : BuildRow) : ScanRow where
  id := row.id
  status := row.status
  reported := row.reportedStatus
  attempts := row.reportAttempts

def Store.dueBuilds (s : Store) (now : ℤ) : List BuildRow :=
  (s.builds.rows.filter fun row => row.isDue && row.reportAfter.all (· ≤ now)).insertionSort
    fun a b => a.createdAt ≤ b.createdAt

def Store.startReport (s : Store) (now : ℤ) : Store :=
  let rows := ((s.dueBuilds now).take reportBatchSize).map (·.scanned)
  { s with report := if rows = [] then none else some ⟨rows, now, .load⟩ }

def BuildRow.written (row : BuildRow) (status : BuildStatus) : BuildRow := { row with status }

theorem BuildRow.written_id (row : BuildRow) (status : BuildStatus) :
    (row.written status).id = row.id := rfl

inductive Event where
  /-- A new build. Later builds have larger numbers and are not created before. -/
  | build (id : ℕ) (pipelineId commitSha : Text) (buildNumber : ℕ) (platforms : List Text)
      (now : ℤ)
  | write (id : ℕ) (status : BuildStatus)
  | scan (now : ℤ)
  | advance (answer : Except Failure Unit)

/-- The build comes after the others of its pipeline. -/
def Store.comesLater (s : Store) (pipelineId : Text) (buildNumber : ℕ) (now : ℤ) : Bool :=
  s.builds.rows.all fun row => row.pipelineId ≠ pipelineId ||
    row.buildNumber < buildNumber && row.createdAt ≤ now

def Store.step (s : Store) : Event → Option Store
  | .build id pipelineId commitSha buildNumber platforms now =>
    if hnew : id ∉ s.builds.rows.map (·.id) then
      if s.comesLater pipelineId buildNumber now then
        some { s with
          builds := s.builds.insert
            { id, pipelineId, commitSha, buildNumber, createdAt := now, platforms
              status := .queued, reportedStatus := none, reportAttempts := 0
              reportAfter := none } hnew }
      else none
    else none
  | .write id status => do
    let row ← s.builds.find id
    if Notifications.writable row.status status then
      some { s with
        builds := s.builds.modify id (·.written status) fun row => row.written_id status
        outcome := if status.isTerminal && !row.status.isTerminal then
          Function.update s.outcome id (some status) else s.outcome }
    else none
  | .scan now => if s.report.isNone then some (s.startReport now) else none
  | .advance answer => s.advanceReport answer

def Store.new : Store where
  builds := ⟨[], List.nodup_nil⟩
  owner _ := none
  report := none
  posted := []
  failedPosts := []
  givenUp := []
  outcome _ := none

end Checks

end OoreBuild
