import OoreBuild.Build
import OoreBuild.Lib.Steps

/-!
# Notifications about builds

A loop scans the builds table for finished builds whose result was not announced yet and records a
pending delivery for every channel that wants it (`notifyDueBuilds` in the source). The row is read
first, then the payload is built and last a transaction marks the row and records the deliveries;
other calls write the table in between.
-/

namespace OoreBuild

open Text

/-- The name of a status in the tables. -/
def BuildStatus.text : BuildStatus → Text
  | queued => "queued".toList
  | scheduled => "scheduled".toList
  | assigned => "assigned".toList
  | running => "running".toList
  | succeeded => "succeeded".toList
  | failed => "failed".toList
  | canceled => "canceled".toList
  | timedOut => "timed_out".toList
  | expired => "expired".toList

namespace Notifications

/-! ## Tables -/

/-- A row of `notification_channels`. -/
structure Channel where
  id : Text
  /-- `none` for a channel of the instance. -/
  projectId : Option Text
  enabled : Bool
  /-- The event filter, where it can be read. -/
  eventFilter : Option (List Text)

/-- The columns of a build that a notification shows. -/
structure BuildRow where
  id : ℕ
  projectId : Text
  pipelineId : Text
  buildNumber : ℕ
  status : BuildStatus
  branch : Option Text
  commitSha : Option Text
  triggerType : Text
  triggerActor : Option Text
  startedAt : Option ℤ
  finishedAt : Option ℤ
  updatedAt : ℤ
  notifiedStatus : Option BuildStatus

/-- The JSON that webhook channels get. -/
structure BuildPayload where
  event : Text
  buildId : ℕ
  projectId : Text
  pipelineId : Text
  buildNumber : ℕ
  status : Text
  branch : Option Text
  commitSha : Option Text
  triggerType : Text
  triggerActor : Option Text
  startedAt : Option ℤ
  finishedAt : Option ℤ
  projectName : Option Text
  pipelineName : Option Text
  timestamp : ℤ

/-- One event ready to fan out to every matching channel. -/
structure Notification where
  /-- Name matched against a channel's event filter. -/
  eventType : Text
  category : Text
  projectId : Option Text
  buildId : Option ℕ
  /-- Email of the user to mention. -/
  actorEmail : Option Text
  /-- Git username behind a webhook build. -/
  actorLogin : Option Text
  payload : BuildPayload

inductive DeliveryStatus where
  | pending
  | delivered
  | failed
  deriving DecidableEq, Repr

/-- A row of `notification_deliveries`. -/
structure Delivery where
  id : ℕ
  channelId : Text
  status : DeliveryStatus
  attemptCount : ℕ
  notification : Notification
  nextAttemptAt : Option ℤ
  createdAt : ℤ

/-- What the scan reads of a build. -/
structure ScanRow where
  id : ℕ
  status : BuildStatus
  notified : Option BuildStatus
  finishedAt : ℤ

/-- A scan under way: the builds still to do and, once it is built, the notification of the first
one. -/
structure Scan where
  rows : List ScanRow
  notification : Option (Option Notification)

/-- An announcement that was made: the build, and the channels there were then. -/
structure Announcement where
  buildId : ℕ
  projectId : Text
  channels : List Channel

structure Store where
  builds : Table BuildRow.id
  channels : Table Channel.id
  projectName : Text → Option Text
  pipelineName : Text → Option Text
  /-- The deliveries that were recorded, those that were deleted with their channel or build too. -/
  deliveries : List Delivery
  scan : Option Scan
  /-- The first terminal status that each build reached. -/
  outcome : ℕ → Option BuildStatus
  announcements : List Announcement
  nextBuild : ℕ

/-! ## Matching channels -/

/-- An empty or missing filter matches every event. -/
def eventFilterMatches (filter : Option (List Text)) (eventType : Text) : Bool :=
  let filters := filter.getD []
  filters.isEmpty || filters.any (· = eventType)

/-- An instance-wide event only reaches channels without a project. -/
def Channel.wants (channel : Channel) (notification : Notification) : Bool :=
  channel.enabled && (channel.projectId = none || channel.projectId = notification.projectId) &&
    eventFilterMatches channel.eventFilter notification.eventType

def Delivery.new (id : ℕ) (channel : Channel) (notification : Notification) (now : ℤ) :
    Delivery where
  id
  channelId := channel.id
  status := .pending
  attemptCount := 0
  notification
  nextAttemptAt := some now
  createdAt := now

/-- Record a pending delivery for every enabled channel whose project scope and event filter
match. -/
def Store.enqueueOn (s : Store) (notification : Notification) (now : ℤ) : Store :=
  let channels := s.channels.rows.filter (·.wants notification)
  { s with
    deliveries := s.deliveries ++
      channels.mapIdx fun i channel => .new (s.deliveries.length + i) channel notification now }

/-! ## The notification of a build -/

/-- Who a build mentions: the signed-in email, or the Git username for webhook builds. -/
def buildActor (triggerType : Text) : Option Text → Option Text × Option Text
  | some actor =>
    if '@' ∈ actor then (some actor, none)
    else if triggerType = "webhook" ∧ trim actor ≠ [] then (none, some actor)
    else (none, none)
  | none => (none, none)

def Store.buildPayload (s : Store) (build : BuildRow) (row : ScanRow) : BuildPayload where
  event := "build.".toList ++ row.status.text
  buildId := row.id
  projectId := build.projectId
  pipelineId := build.pipelineId
  buildNumber := build.buildNumber
  status := row.status.text
  branch := build.branch
  commitSha := build.commitSha
  triggerType := build.triggerType
  triggerActor := build.triggerActor
  startedAt := build.startedAt
  finishedAt := build.finishedAt
  projectName := s.projectName build.projectId
  pipelineName := s.pipelineName build.pipelineId
  timestamp := row.finishedAt

/-- A build notification, or `none` when the build is gone. -/
def Store.buildNotification (s : Store) (row : ScanRow) : Option Notification :=
  (s.builds.find row.id).map fun build =>
    { eventType := row.status.text
      category := "build".toList
      projectId := some build.projectId
      buildId := some row.id
      actorEmail := (buildActor build.triggerType build.triggerActor).1
      actorLogin := (buildActor build.triggerType build.triggerActor).2
      payload := s.buildPayload build row }

/-! ## The scan -/

def scanBatchSize : ℕ := 50

/-- The build has finished, and its status was not announced. -/
def BuildRow.isDue (row : BuildRow) : Bool :=
  row.notifiedStatus ≠ some row.status && row.status.isTerminal

/-- The result that retention replaces was already sent. -/
def isAnnounced (notified : Option BuildStatus) : Bool := notified.any (·.isTerminal)

def BuildRow.scanned (row : BuildRow) : ScanRow where
  id := row.id
  status := row.status
  notified := row.notifiedStatus
  finishedAt := row.finishedAt.getD row.updatedAt

def Store.dueBuilds (s : Store) : List BuildRow :=
  (s.builds.rows.filter (·.isDue)).insertionSort fun a b => a.updatedAt ≤ b.updatedAt

def Store.startScan (s : Store) : Store :=
  let rows := (s.dueBuilds.take scanBatchSize).map (·.scanned)
  { s with scan := if rows = [] then none else some ⟨rows, none⟩ }

def BuildRow.marked (row : BuildRow) : BuildRow :=
  { row with notifiedStatus := some row.status }

theorem BuildRow.marked_id (row : BuildRow) : row.marked.id = row.id := rfl

/-- The transaction that marks a build and records its deliveries; it does nothing where the
status has changed since the row was read. -/
def Store.mark (s : Store) (row : ScanRow) (notification : Option Notification) (now : ℤ) : Store :=
  match s.builds.find row.id with
  | none => s
  | some build =>
    if build.status = row.status then
      let s := { s with
        builds := s.builds.modify row.id BuildRow.marked fun row => row.marked_id }
      match notification with
      | none => s
      | some notification =>
        { s.enqueueOn notification now with
          announcements := s.announcements ++ [⟨row.id, build.projectId, s.channels.rows⟩] }
    else s

/-- The next step of the scan: build the notification of the first build, or mark it. -/
def Store.advanceScan (s : Store) (now : ℤ) : Option Store :=
  match s.scan with
  | some ⟨row :: rest, none⟩ =>
    let notification := if isAnnounced row.notified then none else s.buildNotification row
    some { s with scan := some ⟨row :: rest, some notification⟩ }
  | some ⟨row :: rest, some notification⟩ =>
    some { s.mark row notification now with scan := if rest = [] then none else some ⟨rest, none⟩ }
  | _ => none

/-! ## What happens to builds -/

/-- Every write that sets a status: the transitions, and the failure of a queued build whose source
credentials are missing. -/
def writable (status target : BuildStatus) : Bool :=
  status.canTransitionTo target || status = .queued && target = .failed

/-- Only retention changes the status of a finished build. -/
theorem expired_of_writable {status target : BuildStatus} (hterminal : status.isTerminal = true)
    (h : writable status target = true) : target = .expired := by
  cases status <;> cases target <;> first
    | rfl
    | exact absurd hterminal (by decide)
    | exact absurd h (by decide)

theorem terminal_of_writable {status target : BuildStatus} (hterminal : status.isTerminal = true)
    (h : writable status target = true) : target.isTerminal = true := by
  rw [expired_of_writable hterminal h]
  rfl

inductive Event where
  /-- A new build. -/
  | build (projectId pipelineId : Text) (buildNumber : ℕ) (branch commitSha : Option Text)
      (triggerType : Text) (triggerActor : Option Text) (now : ℤ)
  | write (id : ℕ) (status : BuildStatus) (now : ℤ)
  | delete (id : ℕ)
  | settings (channels : Table Channel.id) (projectName pipelineName : Text → Option Text)
  /-- The loop starts a scan. -/
  | scan
  | advance (now : ℤ)
  /-- A statement of the scan fails, or the daemon restarts. -/
  | stop

def BuildRow.written (row : BuildRow) (status : BuildStatus) (now : ℤ) : BuildRow :=
  { row with
    status
    startedAt := if status = .running then some now else row.startedAt
    finishedAt := if status.isTerminal && !row.status.isTerminal then some now else row.finishedAt
    updatedAt := now }

theorem BuildRow.written_id (row : BuildRow) (status : BuildStatus) (now : ℤ) :
    (row.written status now).id = row.id := rfl

@[simp] theorem BuildRow.written_status (row : BuildRow) (status : BuildStatus) (now : ℤ) :
    (row.written status now).status = status := rfl

@[simp] theorem BuildRow.written_notifiedStatus (row : BuildRow) (status : BuildStatus) (now : ℤ) :
    (row.written status now).notifiedStatus = row.notifiedStatus := rfl

def Store.step (s : Store) : Event → Option Store
  | .build projectId pipelineId buildNumber branch commitSha triggerType triggerActor now =>
    if hnew : s.nextBuild ∉ s.builds.rows.map (·.id) then
      some { s with
        builds := s.builds.insert
          { id := s.nextBuild, projectId, pipelineId, buildNumber, status := .queued, branch
            commitSha, triggerType, triggerActor, startedAt := none, finishedAt := none
            updatedAt := now, notifiedStatus := none } hnew
        nextBuild := s.nextBuild + 1 }
    else none
  | .write id status now => do
    let row ← s.builds.find id
    if writable row.status status then
      some { s with
        builds := s.builds.modify id (·.written status now) fun row => row.written_id status now
        outcome := if status.isTerminal && !row.status.isTerminal then
          Function.update s.outcome id (some status) else s.outcome }
    else none
  | .delete id => some { s with builds := s.builds.erase id }
  | .settings channels projectName pipelineName =>
    some { s with channels, projectName, pipelineName }
  | .scan => if s.scan.isNone then some s.startScan else none
  | .advance now => s.advanceScan now
  | .stop => some { s with scan := none }

def Store.new : Store where
  builds := ⟨[], List.nodup_nil⟩
  channels := ⟨[], List.nodup_nil⟩
  projectName _ := none
  pipelineName _ := none
  deliveries := []
  scan := none
  outcome _ := none
  announcements := []
  nextBuild := 0

end Notifications

end OoreBuild
