import OoreBuild.Jobs
import OoreBuild.Release

/-!
# Retention

A cleanup of a project picks builds that a policy lets it touch, in several queries, and then for
one build after the other deletes the files of its artifacts and its row, or only its artifacts.
The monitor of expired artifacts deletes a file and its row. Builds and releases are created
meanwhile.
-/

namespace OoreBuild

open Text Interleave

/-! ## Policies and tables -/

inductive RetentionCleanupTarget where
  | artifactsOnly
  | full
  deriving DecidableEq, Repr

/-- The policy of a project, with its overrides applied. -/
structure RetentionPolicy where
  enabled : Bool
  maxAgeDays : Option ℤ
  maxBuildsPerProject : Option ℕ
  maxArtifactSizeBytes : Option ℤ
  cleanupTarget : RetentionCleanupTarget
  keepStatuses : List BuildStatus
  dryRun : Bool
  deriving DecidableEq, Repr

def retentionBatchSize : ℕ := 100

def monitorBatchSize : ℕ := 100

inductive ArtifactState where
  | pending
  | available
  | failed
  deriving DecidableEq, Repr

/-- An artifact row, as cleanup reads it. -/
structure StoredArtifact where
  id : ℕ
  buildId : ℕ
  filePath : Text
  fileSize : Option ℤ
  state : ArtifactState
  expiresAt : Option ℤ
  deriving DecidableEq, Repr

/-- A release row, as cleanup reads it. -/
structure BuildRelease where
  id : ℕ
  buildId : ℕ
  state : ReleaseState
  deriving DecidableEq, Repr

inductive LossKind where
  | file
  | artifactRows
  | buildRow
  deriving DecidableEq, Repr

/-- What cleanup took from a build, and the states of the build's releases at that moment. -/
structure Loss where
  buildId : ℕ
  kind : LossKind
  releases : List ReleaseState
  deriving DecidableEq, Repr

/-- The tables, the stored files, and what happened: the build numbers handed out, the latest first,
and what was lost. -/
structure RetentionStore where
  db : Database
  artifacts : Table StoredArtifact.id
  releases : Table BuildRelease.id
  files : List Text
  handedOut : List (Text × ℕ)
  losses : List Loss

def RetentionStore.releaseStates (s : RetentionStore) (buildId : ℕ) : List ReleaseState :=
  (s.releases.rows.filter fun release => release.buildId = buildId).map BuildRelease.state

/-- A release of the build is neither complete nor failed. -/
def RetentionStore.releasing (s : RetentionStore) (buildId : ℕ) : Bool :=
  (s.releaseStates buildId).any fun state => !state.isTerminal

def RetentionStore.lose (s : RetentionStore) (buildId : ℕ) (kind : LossKind) : RetentionStore :=
  { s with losses := ⟨buildId, kind, s.releaseStates buildId⟩ :: s.losses }

/-! ## Which builds a cleanup may touch -/

def terminalBuildStatuses : List BuildStatus := [.succeeded, .failed, .canceled, .timedOut]

structure Eligible where
  statuses : List BuildStatus
  outcomes : List BuildStatus

def Eligible.new (policy : RetentionPolicy) : Eligible :=
  let outcomes := (terminalBuildStatuses ++ [BuildStatus.expired]).filter fun status =>
    !policy.keepStatuses.contains status
  let statuses := terminalBuildStatuses.filter fun status => outcomes.contains status
  { outcomes
    -- expired builds have no artifacts left; only a full cleanup has work to do on them
    statuses := if policy.cleanupTarget = .full then statuses ++ [.expired] else statuses }

def Eligible.isEmpty (eligible : Eligible) : Bool := eligible.statuses.isEmpty

/-- A release under way keeps its build and artifacts; any release keeps an expired build. -/
def Eligible.allows (eligible : Eligible) (s : RetentionStore) (row : Build) : Bool :=
  eligible.statuses.contains row.status &&
    eligible.outcomes.contains (row.expiredFrom.getD row.status) &&
    !(s.releases.rows.any fun release =>
      release.buildId = row.id && (!release.state.isTerminal || row.status = .expired))

def eligibleBuilds (s : RetentionStore) (projectId : Text) (policy : RetentionPolicy) : List Build :=
  s.db.builds.rows.filter fun row =>
    row.projectId = projectId && (Eligible.new policy).allows s row

/-- The order of a nullable column; null comes first. -/
def nullsFirst : Option ℤ → Option ℤ → Bool
  | none, _ => true
  | some _, none => false
  | some a, some b => a ≤ b

/-- The ids are those of the rows, in an order of their end; among rows of one end, any. -/
def orderedBy (le : Option ℤ → Option ℤ → Bool) (rows : List Build) (ids : List ℕ) : Bool :=
  ids.isPerm (rows.map Build.id) &&
    decide (ids.Pairwise fun a b =>
      rows.all fun x => rows.all fun y =>
        !(x.id == a && y.id == b) || le x.finishedAt y.finishedAt)

def availableSizeOf (s : RetentionStore) (p : ℕ → Bool) : ℤ :=
  ((s.artifacts.rows.filter fun artifact => artifact.state = .available && p artifact.buildId).map
    fun artifact => artifact.fileSize.getD 0).sum

/-- The available artifacts of the project's builds that meet a condition. -/
def projectSize (s : RetentionStore) (projectId : Text) (p : Build → Bool) : ℤ :=
  availableSizeOf s fun buildId =>
    (s.db.builds.find buildId).any fun row => row.projectId = projectId && p row

/-- Take builds, the oldest first, until the rest fits. -/
def takeUntilFits (s : RetentionStore) (maxSize : ℤ) :
    ℤ → List ℕ → List ℕ → List ℕ
  | _, candidates, [] => candidates
  | remaining, candidates, id :: rest =>
    if remaining ≤ maxSize then candidates
    else if candidates.contains id then takeUntilFits s maxSize remaining candidates rest
    else takeUntilFits s maxSize (remaining - availableSizeOf s (· = id)) (candidates ++ [id]) rest

/-! ## Calls -/

/-- A cleanup that is choosing its builds. -/
structure Collecting where
  projectId : Text
  policy : RetentionPolicy
  now : ℤ
  candidates : List ℕ
  deriving DecidableEq, Repr

/-- The next statement of a call. The builds of a cleanup come with the files still to delete. -/
inductive RetentionCall where
  | insertRelease (buildId : ℕ) (state : ReleaseState)
  | expiredIds (c : Collecting)
  | excessIds (c : Collecting)
  | totalSize (c : Collecting)
  | eligibleSize (c : Collecting) (totalSize : ℤ)
  | pickedSize (c : Collecting) (totalSize : ℤ)
  | oldestSizes (c : Collecting) (remaining : ℤ)
  | loadArtifacts (c : Collecting)
  | deleteFiles (target : RetentionCleanupTarget) (buildId : ℕ) (files : List Text)
      (rest : List (ℕ × List Text))
  | deleteBuild (buildId : ℕ) (rest : List (ℕ × List Text))
  | deleteArtifacts (target : RetentionCleanupTarget) (buildId : ℕ) (rest : List (ℕ × List Text))
  | rememberStatus (target : RetentionCleanupTarget) (buildId : ℕ) (rest : List (ℕ × List Text))
  | expireBuild (target : RetentionCleanupTarget) (buildId : ℕ) (rest : List (ℕ × List Text))
  | deleteExpiredFile (artifact : StoredArtifact) (rest : List StoredArtifact)
  | deleteExpiredRow (artifact : StoredArtifact) (rest : List StoredArtifact)

/-- How a statement goes: the clock, whether it fails, and the order the database returns rows
in. -/
structure RetentionAnswer where
  now : ℤ := 0
  fails : Bool := false
  ordered : List ℕ := []

/-- The next build of a cleanup. -/
def nextBuild (target : RetentionCleanupTarget) : List (ℕ × List Text) → Option RetentionCall
  | [] => none
  | (buildId, files) :: rest => some (.deleteFiles target buildId files rest)

def nextExpired : List StoredArtifact → Option RetentionCall
  | [] => none
  | artifact :: rest => some (.deleteExpiredFile artifact rest)

def Collecting.hasRoom (c : Collecting) : Bool := c.candidates.length < retentionBatchSize

def Collecting.afterExcess (c : Collecting) : RetentionCall :=
  if c.policy.maxArtifactSizeBytes.isSome && c.hasRoom then .totalSize c else .loadArtifacts c

def Collecting.afterExpired (c : Collecting) : RetentionCall :=
  if c.policy.maxBuildsPerProject.isSome && c.hasRoom then .excessIds c else c.afterExcess

def Collecting.start (c : Collecting) : RetentionCall :=
  if c.policy.maxAgeDays.isSome then .expiredIds c else c.afterExpired

def Collecting.add (c : Collecting) (ids : List ℕ) : Collecting :=
  { c with candidates := c.candidates ++ ids.filter fun id => !c.candidates.contains id }

/-- The builds of a cleanup whose files or rows it may still take; a dry run takes none. -/
def RetentionCall.selected : RetentionCall → List ℕ
  | .insertRelease _ _ => []
  | .expiredIds c | .excessIds c | .totalSize c | .eligibleSize c _ | .pickedSize c _
  | .oldestSizes c _ | .loadArtifacts c => if c.policy.dryRun then [] else c.candidates
  | .deleteFiles _ buildId _ rest => buildId :: rest.map Prod.fst
  | .deleteBuild buildId rest => buildId :: rest.map Prod.fst
  | .deleteArtifacts _ buildId rest => buildId :: rest.map Prod.fst
  | .rememberStatus _ _ rest => rest.map Prod.fst
  | .expireBuild _ _ rest => rest.map Prod.fst
  | .deleteExpiredFile artifact rest => artifact.buildId :: rest.map StoredArtifact.buildId
  | .deleteExpiredRow artifact rest => artifact.buildId :: rest.map StoredArtifact.buildId

/-! ## Statements -/

/-- Delete a stored object. -/
def RetentionStore.deleteObject (s : RetentionStore) (filePath : Text) : RetentionStore :=
  { s with files := s.files.filter fun file => file ≠ filePath }

/-- Delete a build's row, and its artifacts' with it. -/
def RetentionStore.deleteRow (s : RetentionStore) (buildId : ℕ) : RetentionStore :=
  { s.lose buildId .buildRow with
    db := { s.db with
      builds := s.db.builds.erase buildId
      lastId := max s.db.lastId buildId }
    artifacts := s.artifacts.filter fun artifact => artifact.buildId ≠ buildId }

def RetentionStore.deleteArtifactRows (s : RetentionStore) (buildId : ℕ) : RetentionStore :=
  { (if s.artifacts.rows.any fun artifact => artifact.buildId = buildId then
      s.lose buildId .artifactRows else s) with
    artifacts := s.artifacts.filter fun artifact => artifact.buildId ≠ buildId }

def rememberRow (row : Build) : Build :=
  if row.status = .expired then row else { row with expiredFrom := some row.status }

@[simp] theorem rememberRow_id (row : Build) : (rememberRow row).id = row.id := by
  unfold rememberRow
  split <;> rfl

/-- Move a build to a status, if it can. -/
def RetentionStore.moveBuild (s : RetentionStore) (buildId : ℕ) (target : BuildStatus) (now : ℤ) :
    RetentionStore :=
  if (s.db.builds.find buildId).any fun row => row.status.canTransitionTo target then
    { s with db := { s.db with
      builds := s.db.builds.modify buildId (transitionRow target none now)
        (transitionRow_id target none now) } }
  else s

def artifactFiles (s : RetentionStore) (buildId : ℕ) : List Text :=
  (s.artifacts.rows.filter fun artifact => artifact.buildId = buildId).map StoredArtifact.filePath

/-- The queries that choose the builds of a cleanup. A query that fails ends it. The cutoff of the
first one is an integer here; the source's is of 64 bits and may wrap. -/
def collect (s : RetentionStore) (answer : RetentionAnswer) :
    RetentionCall → Option (Option RetentionCall)
  | .expiredIds c =>
    let cutoff := c.now - c.policy.maxAgeDays.getD 0 * 86400
    let rows := (eligibleBuilds s c.projectId c.policy).filter fun row =>
      row.finishedAt.any (· < cutoff)
    if answer.fails then some none
    else if orderedBy nullsFirst rows answer.ordered then
      some (some (c.add (answer.ordered.take retentionBatchSize)).afterExpired)
    else none
  | .excessIds c =>
    let rows := eligibleBuilds s c.projectId c.policy
    if answer.fails then some none
    else if orderedBy (fun a b => nullsFirst b a) rows answer.ordered then
      some (some (c.add ((answer.ordered.drop (c.policy.maxBuildsPerProject.getD 0)).take
        (retentionBatchSize - c.candidates.length))).afterExcess)
    else none
  | .totalSize c =>
    let total := projectSize s c.projectId fun _ => true
    if answer.fails then some none
    else if total ≤ c.policy.maxArtifactSizeBytes.getD 0 then some (some (.loadArtifacts c))
    else some (some (.eligibleSize c total))
  | .eligibleSize c total =>
    let eligible := projectSize s c.projectId ((Eligible.new c.policy).allows s)
    if answer.fails then some none
    else if c.policy.maxArtifactSizeBytes.getD 0 < total - eligible then
      some (some (.loadArtifacts c))
    else some (some (.pickedSize c total))
  | .pickedSize c total =>
    let remaining := total - availableSizeOf s c.candidates.contains
    if answer.fails then some none
    else if remaining ≤ c.policy.maxArtifactSizeBytes.getD 0 then some (some (.loadArtifacts c))
    else some (some (.oldestSizes c remaining))
  | .oldestSizes c remaining =>
    let rows := (eligibleBuilds s c.projectId c.policy).filter fun row =>
      0 < availableSizeOf s (· = row.id)
    if answer.fails then some none
    else if orderedBy nullsFirst rows answer.ordered then
      some (some (.loadArtifacts { c with
        candidates := takeUntilFits s (c.policy.maxArtifactSizeBytes.getD 0) remaining c.candidates
          (answer.ordered.take (retentionBatchSize - c.candidates.length)) }))
    else none
  | .loadArtifacts c =>
    if answer.fails then some none
    -- the candidates are a hash set: they come in any order
    else if answer.ordered.isPerm c.candidates then
      some (if c.policy.dryRun then none
        else nextBuild c.policy.cleanupTarget
          (answer.ordered.map fun id => (id, artifactFiles s id)))
    else none
  | _ => none

def advanceRetention (s : RetentionStore) (call : RetentionCall) (answer : RetentionAnswer) :
    Option (RetentionStore × Option RetentionCall) :=
  match call with
  | .insertRelease buildId state =>
    -- a release refers to its build, and cannot start halted or failed
    if answer.fails || (s.db.builds.find buildId).isNone || state = .halted || state = .failed then
      some (s, none)
    else
      let id := (s.releases.rows.map BuildRelease.id).foldr max 0 + 1
      if h : id ∉ s.releases.rows.map BuildRelease.id then
        some ({ s with releases := s.releases.insert ⟨id, buildId, state⟩ h }, none)
      else none
  | .deleteFiles target buildId (file :: files) rest =>
    if answer.fails then some (s, nextBuild target rest)
    else some ((s.lose buildId .file).deleteObject file,
      some (.deleteFiles target buildId files rest))
  | .deleteFiles .artifactsOnly buildId [] rest =>
    some (s, some (.deleteArtifacts .artifactsOnly buildId rest))
  | .deleteFiles .full buildId [] rest =>
    -- the query for the screenshots of its feedback
    if answer.fails then some (s, nextBuild .full rest)
    else some (s, some (.deleteBuild buildId rest))
  | .deleteBuild buildId rest =>
    if answer.fails then some (s, nextBuild .full rest)
    else if (s.db.builds.find buildId).isSome && (s.releaseStates buildId).isEmpty then
      some (s.deleteRow buildId, nextBuild .full rest)
    else some (s, some (.deleteArtifacts .full buildId rest))
  | .deleteArtifacts target buildId rest =>
    if answer.fails then some (s, nextBuild target rest)
    else some (s.deleteArtifactRows buildId, some (.rememberStatus target buildId rest))
  | .rememberStatus target buildId rest =>
    if answer.fails then some (s, nextBuild target rest)
    else some ({ s with db := { s.db with
        builds := s.db.builds.modify buildId rememberRow rememberRow_id } },
      some (.expireBuild target buildId rest))
  | .expireBuild target buildId rest =>
    some (if answer.fails then s else s.moveBuild buildId .expired answer.now, nextBuild target rest)
  | .deleteExpiredFile artifact rest =>
    if answer.fails then some (s, nextExpired rest)
    else some ((s.lose artifact.buildId .file).deleteObject artifact.filePath,
      some (.deleteExpiredRow artifact rest))
  | .deleteExpiredRow artifact rest =>
    if answer.fails || (s.artifacts.find artifact.id).isNone then some (s, nextExpired rest)
    else some ({ s.lose artifact.buildId .artifactRows with
      artifacts := s.artifacts.erase artifact.id }, nextExpired rest)
  | query => (collect s answer query).map fun next => (s, next)

/-! ## The system -/

inductive RetentionInput where
  /-- A manual, webhook, scheduled or repeated build. -/
  | createBuild (binds : BuildInsertBinds)
  | transitionBuild (buildId : ℕ) (target : BuildStatus) (now : ℤ)
  | upload (artifact : StoredArtifact)
  /-- `create_release_handler` finds a succeeded build. -/
  | createRelease (buildId : ℕ) (state : ReleaseState)
  /-- A promotion of a build that has a release. -/
  | promote (buildId : ℕ) (state : ReleaseState)
  | moveRelease (releaseId : ℕ) (target : ReleaseState)
  | cleanupProject (projectId : Text) (policy : RetentionPolicy) (now : ℤ)
  /-- A run of the monitor, with the expired artifacts it loads. -/
  | expireArtifacts (now : ℤ) (artifacts : List StoredArtifact)

/-- The query of the monitor, in any order of artifacts that expired at the same time. -/
def loadExpiredArtifacts (s : RetentionStore) (now : ℤ) (artifacts : List StoredArtifact) : Bool :=
  artifacts.length ≤ monitorBatchSize && artifacts.all fun artifact =>
    s.artifacts.rows.contains artifact && artifact.expiresAt.any (· < now) &&
      !s.releasing artifact.buildId

def enterRetention (s : RetentionStore) : RetentionInput →
    Option (RetentionStore × List RetentionCall)
  | .createBuild binds => (executeBuildInsert s.db binds).map fun db =>
    ({ s with
      db
      handedOut := (binds.projectId, (newBuild s.db binds).buildNumber) :: s.handedOut }, [])
  | .transitionBuild buildId target now => some (s.moveBuild buildId target now, [])
  | .upload artifact =>
    if h : artifact.id ∉ s.artifacts.rows.map StoredArtifact.id then
      if (s.db.builds.find artifact.buildId).isSome then
        some ({ s with
          artifacts := s.artifacts.insert artifact h
          files := artifact.filePath :: s.files }, [])
      else none
    else none
  | .createRelease buildId state =>
    if (s.db.builds.find buildId).any fun row => row.status = .succeeded then
      some (s, [.insertRelease buildId state])
    else none
  | .promote buildId state =>
    if (s.releaseStates buildId).isEmpty then none else some (s, [.insertRelease buildId state])
  | .moveRelease releaseId target =>
    if (s.releases.find releaseId).any fun release => release.state.canTransitionTo target then
      some ({ s with releases :=
        s.releases.modify releaseId (fun release => { release with state := target }) fun _ => rfl },
        [])
    else none
  | .cleanupProject projectId policy now =>
    if policy.enabled && !(Eligible.new policy).isEmpty then
      some (s, [Collecting.start ⟨projectId, policy, now, []⟩])
    else some (s, [])
  | .expireArtifacts now artifacts =>
    if loadExpiredArtifacts s now artifacts then some (s, (nextExpired artifacts).toList) else none

/-- Cleanups, the monitor, builds and releases over the same tables. -/
def retention : Interleave RetentionStore RetentionCall RetentionInput RetentionAnswer where
  enter := enterRetention
  advance := advanceRetention
  drop s _ := s
  restart s := s

/-- No builds yet. -/
structure RetentionStore.Fresh (s : RetentionStore) : Prop where
  builds : s.db.builds.rows = []
  releases : s.releases.rows = []
  handedOut : s.handedOut = []
  losses : s.losses = []

end OoreBuild
