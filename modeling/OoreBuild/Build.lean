import OoreBuild.Lib.Table
import OoreBuild.Config

/-!
# The build store

The tables behind build creation, the settings of one workflow (`resolveWorkflowBinding`) and the
transaction every new build goes through (`executeBuildInsert`): it numbers the build within its
project, claims the webhook delivery for its pipeline and workflow, and cancels the builds it
supersedes.
-/

namespace OoreBuild

open Text

/-! ## Tables -/

inductive BuildStatus where
  | queued
  | scheduled
  | assigned
  | running
  | succeeded
  | failed
  | canceled
  | timedOut
  | expired
  deriving DecidableEq, Repr

def BuildStatus.isTerminal : BuildStatus → Bool
  | succeeded | failed | canceled | timedOut | expired => true
  | _ => false

def BuildStatus.validTransitions : BuildStatus → List BuildStatus
  | queued => [scheduled, canceled, expired]
  | scheduled => [assigned, queued, canceled, expired]
  | assigned => [running, queued, canceled, timedOut]
  | running => [succeeded, failed, canceled, timedOut]
  | succeeded | failed | canceled | timedOut => [expired]
  | expired => []

def BuildStatus.canTransitionTo (status target : BuildStatus) : Bool :=
  status.validTransitions.contains target

/-- What is recorded with a build when it is created. -/
structure Snapshot where
  repositoryId : Option Text
  repoUrl : Option Text
  workflow : Option Text
  retrySteps : List Text
  androidIdentity : Option Text
  iosIdentity : Option Text
  publishDisabled : Bool
  signingError : Option Text
  runsOn : List Text := []
  timeoutSecs : Option ℤ := none
  /-- The size budgets of the build's file, once the runner planned it. -/
  fileSizeBudgets : List Text := []
  deriving DecidableEq, Repr

inductive BuildApprovalState where
  | pending
  | approved
  | rejected
  deriving DecidableEq, Repr

structure StepResult where
  name : Text
  succeeded : Bool
  deriving DecidableEq, Repr

structure Build where
  id : ℕ
  projectId : Text
  pipelineId : Text
  buildNumber : ℕ
  status : BuildStatus
  branch : Option Text
  commitSha : Option Text
  snapshot : Snapshot
  webhookId : Option Text
  sourceBuildId : Option ℕ
  /-- Set while the build is held for approval, and kept afterwards. -/
  approvalRequestedAt : Option ℤ
  approvalState : Option BuildApprovalState := none
  runnerId : Option Text := none
  /-- The signing grant of the runner's claim. -/
  signingTokenHash : Option Text := none
  startedAt : Option ℤ := none
  finishedAt : Option ℤ := none
  updatedAt : ℤ := 0
  stepResults : Option (List StepResult) := none
  exitCode : Option ℤ := none
  /-- The status the build had before retention expired it. -/
  expiredFrom : Option BuildStatus := none
  deriving DecidableEq, Repr

/-- A delivery's claim on a pipeline and workflow, the workflow empty when there is none. -/
structure WebhookBuildClaim where
  webhookId : Text
  pipelineId : Text
  workflow : Text
  deriving DecidableEq, Repr

structure ApprovalPolicy where
  required : Bool
  /-- Trigger events that need approval; empty means every build. -/
  events : List Text
  expiresAfterHours : Option ℕ := none
  deriving DecidableEq, Repr

def ApprovalPolicy.appliesTo (policy : ApprovalPolicy) (event : Text) : Bool :=
  policy.required && (policy.events.isEmpty || policy.events.any fun e => e == event)

/-- Settings a pipeline keeps for one workflow of its file. -/
structure PipelineWorkflowSettings where
  pipelineId : Text
  workflow : Text
  androidIdentityId : Option Text
  iosIdentityId : Option Text
  publishEnabled : Option Bool
  /-- Replaces the pipeline's approval policy for the workflow's builds. -/
  approvalRequired : Option Bool
  deriving DecidableEq, Repr

def PipelineWorkflowSettings.key (settings : PipelineWorkflowSettings) : Text × Text :=
  (settings.pipelineId, settings.workflow)

inductive SigningIdentityKind where
  | androidKeystore
  | iosDistribution
  deriving DecidableEq, Repr

inductive IosExportMethod where
  | appStore
  | adHoc
  deriving DecidableEq, Repr

structure SigningIdentity where
  id : Text
  projectId : Text
  name : Text
  kind : SigningIdentityKind
  exportMethod : Option IosExportMethod
  deriving DecidableEq, Repr

/-- A project's repository, with the clone URL it resolves to. -/
structure Repository where
  id : Text
  integrationId : Text
  fullName : Text
  repoUrl : Option Text
  deriving DecidableEq, Repr

structure Project where
  id : Text
  repositoryId : Option Text
  defaultBranch : Option Text
  deriving DecidableEq, Repr

structure Pipeline where
  id : Text
  projectId : Text
  enabled : Bool
  configPath : Text
  platforms : List BuildPlatform
  triggerConfig : TriggerConfig
  /-- `concurrency.cancel_previous`. -/
  cancelPrevious : Bool
  approvalPolicy : ApprovalPolicy
  workflow : Option Text
  /-- `concurrency.max_concurrent`; none or zero is no limit. -/
  maxConcurrent : Option ℕ := none
  runsOn : List Text := []
  timeoutMinutes : ℕ := 60
  deriving DecidableEq, Repr

/-- The labels a build needs; without any, those of the default runner. -/
def schedulingLabels (runsOn : List Text) : List Text :=
  if runsOn.isEmpty then ["macos"] else runsOn

structure Database where
  projects : Table Project.id
  repositories : Table Repository.id
  pipelines : Table Pipeline.id
  settings : Table PipelineWorkflowSettings.key
  identities : Table SigningIdentity.id
  builds : Table Build.id
  claims : List WebhookBuildClaim
  /-- The highest id of a build that was deleted; ids are not used again. -/
  lastId : ℕ := 0

/-! ## What a workflow signs and publishes with -/

/-- What a build of one workflow signs and publishes with. -/
structure WorkflowBinding where
  androidIdentityId : Option Text
  iosIdentityId : Option Text
  publishDisabled : Bool
  approvalRequired : Option Bool
  deriving DecidableEq, Repr

def WorkflowBinding.default : WorkflowBinding :=
  { androidIdentityId := none, iosIdentityId := none, publishDisabled := false,
    approvalRequired := none }

def WorkflowBinding.writeTo (binding : WorkflowBinding) (snapshot : Snapshot) : Snapshot :=
  { snapshot with
    androidIdentity := binding.androidIdentityId.or snapshot.androidIdentity
    iosIdentity := binding.iosIdentityId.or snapshot.iosIdentity
    publishDisabled := binding.publishDisabled || snapshot.publishDisabled }

def loadWorkflowSettings (db : Database) (pipelineId workflow : Text) :
    Option PipelineWorkflowSettings :=
  db.settings.find (pipelineId, workflow)

def settingsOf (db : Database) (pipelineId : Text) (workflow : Option Text) :
    Option PipelineWorkflowSettings :=
  workflow.bind (loadWorkflowSettings db pipelineId)

def kindStr : SigningIdentityKind → Text
  | .androidKeystore => "android_keystore"
  | .iosDistribution => "ios_distribution"

/-- The identity a platform signs with, from the one picked in the settings or the one named in
the file. -/
def resolveIdentity (db : Database) (projectId scope platform : Text) (kind : SigningIdentityKind)
    (picked named : Option Text) (needsAppStoreExport : Bool) : Except Text (Option Text) :=
  let lookup := match picked, named with
    | some id, _ => some (db.identities.rows.find? fun (i : SigningIdentity) => i.projectId = projectId && i.id = id)
    | none, some name =>
      some (db.identities.rows.find? fun (i : SigningIdentity) => i.projectId = projectId && i.name = trim name)
    | none, none => none
  match lookup with
  | none => .ok none
  | some none => .error (match picked, named with
      | none, some name => scope ++ " signs " ++ platform ++ " with '" ++ name ++
          "', which is not in the project's signing identities; add it under Project settings > Signing, or fix signing." ++ platform
      | _, _ => scope ++ "'s " ++ platform ++
          " signing identity was deleted; pick another in the pipeline's workflow settings")
  | some (some identity) =>
    if identity.kind ≠ kind then
      .error (scope ++ " signs " ++ platform ++ " with '" ++ named.getD "the picked identity" ++
        "', which is an " ++ kindStr identity.kind ++ " identity")
    else if kind = .iosDistribution && needsAppStoreExport &&
        identity.exportMethod = some .adHoc then
      .error (scope ++ " uploads to App Store Connect, but its iOS signing identity holds ad hoc profiles; use an identity with App Store profiles")
    else .ok (some identity.id)

/-- The identities a build of `workflow` signs with: the pipeline's workflow settings first, then
the names the file gives. The error says what the library does not hold. -/
def resolveWorkflowBinding (db : Database) (projectId pipelineId : Text) (workflow : Option Text)
    (fileSigning : SigningSpec) (needsAppStoreExport : Bool) : Except Text WorkflowBinding := do
  let settings := settingsOf db pipelineId workflow
  let scope := workflow.elim ("this build" : Text) fun name => "workflow " ++ name
  let publishDisabled := settings.bind (·.publishEnabled) == some false
  let androidIdentityId ← resolveIdentity db projectId scope "android" .androidKeystore
    (settings.bind (·.androidIdentityId)) fileSigning.android false
  let iosIdentityId ← resolveIdentity db projectId scope "ios" .iosDistribution
    (settings.bind (·.iosIdentityId)) fileSigning.ios (needsAppStoreExport && !publishDisabled)
  return { androidIdentityId, iosIdentityId, publishDisabled,
           approvalRequired := settings.bind (·.approvalRequired) }

/-- A binding that resolves carries the settings' approval override. -/
theorem approvalRequired_of_resolve {db : Database} {projectId pipelineId : Text}
    {workflow : Option Text} {fileSigning : SigningSpec} {needs : Bool} {binding : WorkflowBinding}
    (h : resolveWorkflowBinding db projectId pipelineId workflow fileSigning needs = .ok binding) :
    binding.approvalRequired = (settingsOf db pipelineId workflow).bind (·.approvalRequired) := by
  unfold resolveWorkflowBinding at h
  simp only [bind, Except.bind] at h
  split at h
  · cases h
  · split at h
    · cases h
    · cases h
      rfl

/-! ## Inserting a build -/

structure BuildInsertBinds where
  projectId : Text
  pipelineId : Text
  commitSha : Option Text
  branch : Option Text
  snapshot : Snapshot
  webhookId : Option Text
  now : ℤ
  sourceBuildId : Option ℕ
  cancelPrevious : Bool
  /-- Hold the build for a maintainer's approval before runners see it. -/
  approvalRequired : Bool
  deriving DecidableEq, Repr

def freshId (db : Database) : ℕ := (db.builds.rows.map Build.id).foldr max db.lastId + 1

theorem le_foldr_max {l : List ℕ} {n m : ℕ} (h : n ∈ l) : n ≤ l.foldr max m := by
  induction l with
  | nil => cases h
  | cons k l ih =>
    rw [List.foldr_cons]
    rcases List.mem_cons.mp h with rfl | h
    · exact le_max_left _ _
    · exact (ih h).trans (le_max_right _ _)

theorem freshId_notMem (db : Database) : freshId db ∉ db.builds.rows.map Build.id := by
  intro h
  have := le_foldr_max (m := db.lastId) h
  unfold freshId at this
  omega

def nextBuildNumber (builds : Table Build.id) (projectId : Text) : ℕ :=
  ((builds.rows.filter fun b => b.projectId = projectId).map Build.buildNumber).foldr max 0 + 1

/-- The project is linked to the repository the snapshot was taken from. -/
def sourceUnchanged (db : Database) (b : BuildInsertBinds) : Bool :=
  match db.projects.find b.projectId with
  | none => false
  | some project => project.repositoryId.any fun repositoryId =>
      (db.repositories.find repositoryId).isSome && b.snapshot.repositoryId = some repositoryId

/-- Another retry of one of the same steps of the source build is under way. -/
def retryInProgress (db : Database) (b : BuildInsertBinds) : Bool :=
  db.builds.rows.any fun other => other.sourceBuildId.isSome &&
    other.sourceBuildId = b.sourceBuildId && !other.status.isTerminal &&
    other.snapshot.retrySteps.any fun step => b.snapshot.retrySteps.contains step

def BuildInsertBinds.claim (b : BuildInsertBinds) (webhookId : Text) : WebhookBuildClaim :=
  { webhookId, pipelineId := b.pipelineId, workflow := b.snapshot.workflow.getD "" }

/-- The delivery has already built this pipeline and workflow. -/
def alreadyClaimed (db : Database) (b : BuildInsertBinds) : Bool :=
  b.webhookId.any fun webhookId => db.claims.contains (b.claim webhookId)

def newBuild (db : Database) (b : BuildInsertBinds) : Build :=
  { id := freshId db
    projectId := b.projectId
    pipelineId := b.pipelineId
    buildNumber := nextBuildNumber db.builds b.projectId
    status := .queued
    branch := b.branch
    commitSha := b.commitSha
    snapshot := b.snapshot
    webhookId := b.webhookId
    sourceBuildId := b.sourceBuildId
    approvalRequestedAt := if b.approvalRequired then some b.now else none
    approvalState := if b.approvalRequired then some .pending else none
    updatedAt := b.now }

theorem newBuild_notMem (db : Database) (b : BuildInsertBinds) :
    (newBuild db b).id ∉ db.builds.rows.map Build.id := freshId_notMem db

/-- Whether the new build supersedes a build: an unfinished, older one of the same pipeline,
branch and repository. -/
def supersedes (b : BuildInsertBinds) (new other : Build) : Bool :=
  b.cancelPrevious && b.branch.any (fun branch => !branch.isEmpty) && other.branch == b.branch &&
    other.pipelineId == b.pipelineId && other.id ≠ new.id && other.buildNumber < new.buildNumber &&
    other.snapshot.repositoryId.isSome && other.snapshot.repositoryId == b.snapshot.repositoryId &&
    !other.status.isTerminal

/-- The trigger on the status column: a build that is no longer queued waits for no approval. -/
def withdrawPending (build : Build) : Build :=
  { build with
    approvalState :=
      if build.approvalState = some .pending && build.status ≠ .queued then none
      else build.approvalState }

/-- End a build that no runner reports on any more. -/
def cancelRow (now : ℤ) (build : Build) : Build :=
  { build with status := .canceled, runnerId := none, signingTokenHash := none,
               finishedAt := some now, updatedAt := now }

@[simp]
theorem cancelRow_id (now : ℤ) (build : Build) : (cancelRow now build).id = build.id := rfl

def cancelSuperseded (b : BuildInsertBinds) (new other : Build) : Build :=
  if supersedes b new other then withdrawPending (cancelRow b.now other) else other

theorem cancelSuperseded_id (b : BuildInsertBinds) (new other : Build) :
    (cancelSuperseded b new other).id = other.id := by
  unfold cancelSuperseded
  split <;> rfl

/-- Insert a build in one transaction. `none` when nothing was inserted: the source changed, a
retry of the same steps is under way, or the delivery has already built this workflow. -/
def executeBuildInsert (db : Database) (b : BuildInsertBinds) : Option Database :=
  if !sourceUnchanged db b || retryInProgress db b || alreadyClaimed db b then none
  else
    let new := newBuild db b
    some { db with
      builds := (db.builds.insert new (newBuild_notMem db b)).mapRows
        (cancelSuperseded b new) (cancelSuperseded_id b new)
      claims := (b.webhookId.map b.claim).toList ++ db.claims }

/-- An insert writes the builds and the claims only. -/
theorem executeBuildInsert_eq_some {db db' : Database} {b : BuildInsertBinds}
    (h : executeBuildInsert db b = some db') :
    sourceUnchanged db b = true ∧ alreadyClaimed db b = false ∧
      db' = { db with
        builds := (db.builds.insert (newBuild db b) (newBuild_notMem db b)).mapRows
          (cancelSuperseded b (newBuild db b)) (cancelSuperseded_id b (newBuild db b))
        claims := (b.webhookId.map b.claim).toList ++ db.claims } := by
  unfold executeBuildInsert at h
  split at h
  · cases h
  · rename_i hnot
    simp only [Bool.or_eq_true, Bool.not_eq_true', not_or] at hnot
    refine ⟨by simpa using hnot.1.1, by simpa using hnot.2, ?_⟩
    exact (Option.some.inj h).symm

theorem retryInProgress_of_insert {db db' : Database} {b : BuildInsertBinds}
    (h : executeBuildInsert db b = some db') : retryInProgress db b = false := by
  unfold executeBuildInsert at h
  split at h
  · cases h
  · rename_i hnot
    simp only [Bool.or_eq_true, not_or] at hnot
    simpa using hnot.1.2

theorem newBuild_id_ne {db : Database} {b : BuildInsertBinds} {id : ℕ} {row : Build}
    (h : db.builds.find id = some row) : id ≠ (newBuild db b).id := by
  intro heq
  have hmem : row.id ∈ db.builds.rows.map Build.id := List.mem_map_of_mem (Table.mem_of_find h)
  rw [Table.key_of_find h, heq] at hmem
  exact newBuild_notMem db b hmem

/-- A row that was there is kept or canceled. -/
theorem find_of_insert {db db' : Database} {b : BuildInsertBinds} {id : ℕ} {row : Build}
    (h : executeBuildInsert db b = some db') (hrow : db.builds.find id = some row) :
    db'.builds.find id = some (cancelSuperseded b (newBuild db b) row) := by
  obtain ⟨-, -, rfl⟩ := executeBuildInsert_eq_some h
  rw [Table.find_mapRows, Table.find_insert, if_neg (newBuild_id_ne hrow), hrow]
  rfl

theorem find_newBuild {db db' : Database} {b : BuildInsertBinds}
    (h : executeBuildInsert db b = some db') :
    db'.builds.find (newBuild db b).id = some (newBuild db b) := by
  obtain ⟨-, -, rfl⟩ := executeBuildInsert_eq_some h
  have hself : cancelSuperseded b (newBuild db b) (newBuild db b) = newBuild db b := by
    unfold cancelSuperseded supersedes
    simp
  rw [Table.find_mapRows, Table.find_insert, if_pos rfl, Option.map_some, hself]

end OoreBuild
