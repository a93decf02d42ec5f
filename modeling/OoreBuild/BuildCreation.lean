import OoreBuild.Webhook

/-!
# Builds that people and schedules start

The other ways a build is created: a manual build (`createBuild`), a rerun or step retry of a
finished one (`queueRerun`) and a due schedule (`createScheduledBuild`). What the outside says
(permissions, the branch's commit, the repository file) is an input of each.
-/

namespace OoreBuild

open Text

/-- An error of the API: its HTTP status, code and message. -/
structure ApiError where
  status : ℕ
  code : Text
  message : Text
  deriving DecidableEq, Repr

def badRequest (code message : Text) : ApiError := ⟨400, code, message⟩

def notFound (message : Text) : ApiError := ⟨404, "not_found", message⟩

def conflict (code message : Text) : ApiError := ⟨409, code, message⟩

/-- The trimmed value, unless it is blank. -/
def normalizeOptional (value : Option Text) : Option Text := (value.map trim).filter (· ≠ [])

/-- Clone URL of a linked repository. -/
def resolveRepositoryCloneUrl (db : Database) (repositoryId : Text) : Option Text :=
  normalizeOptional ((db.repositories.find repositoryId).bind (·.repoUrl))

/-- The snapshot of a new build. -/
def createConfigSnapshot (repositoryId repoUrl : Text) (workflow : Option Text)
    (runsOn : List Text := []) (timeoutMinutes : ℕ := 60) : Snapshot :=
  { repositoryId := some repositoryId, repoUrl := some repoUrl, workflow, retrySteps := []
    androidIdentity := none, iosIdentity := none, publishDisabled := false, signingError := none
    runsOn := schedulingLabels runsOn, timeoutSecs := some (timeoutMinutes * 60) }

def orError {α : Type} (value : Option α) (error : ApiError) : Except ApiError α :=
  match value with
  | some a => .ok a
  | none => .error error

theorem bind_eq_ok {ε α β : Type} {x : Except ε α} {f : α → Except ε β} {b : β} :
    (x >>= f) = .ok b ↔ ∃ a, x = .ok a ∧ f a = .ok b := by
  cases x with
  | error e => exact ⟨nofun, nofun⟩
  | ok a => exact ⟨fun h => ⟨a, rfl, h⟩, fun ⟨_, h, hf⟩ => Except.ok.inj h ▸ hf⟩

theorem orError_eq_ok {α : Type} {value : Option α} {error : ApiError} {a : α} :
    orError value error = .ok a ↔ value = some a := by
  cases value <;> simp [orError]

theorem mapError_eq_ok {ε δ α : Type} {x : Except ε α} {f : ε → δ} {a : α} :
    x.mapError f = .ok a ↔ x = .ok a := by
  cases x <;> simp [Except.mapError]

/-! ## Manual builds -/

structure CreateBuildRequest where
  projectId : Text
  pipelineId : Text
  branch : Option Text
  commitSha : Option Text
  changelog : Option Text
  platforms : Option (List BuildPlatform)
  workflow : Option Text
  deriving DecidableEq, Repr

/-- What the outside says to a manual build. -/
structure ManualOutside where
  /-- Whether the caller may start builds. -/
  permission : Except ApiError Unit
  /-- Whether the secret of a configured Google Play upload is there. -/
  googlePlaySecret : Except ApiError Unit
  /-- The commit of a branch. -/
  branchCommit : Text → Except ApiError Text
  /-- The repository file at the commit and its path; `none` where it is missing, invalid or could
  not be read. -/
  file : Option (Text × PipelineFile)
  now : ℤ

/-- The requested platforms, which must be unique and configured. -/
def validateSelectedPlatforms (requested : Option (List BuildPlatform))
    (configured : List BuildPlatform) : Except ApiError (Option (List BuildPlatform)) :=
  match requested with
  | none => .ok none
  | some requested =>
    if requested.isEmpty then
      .error (badRequest "invalid_input" "Select at least one platform for this build.")
    else
      let selected := configured.filter (requested.contains ·)
      if !requested.Nodup || selected.length ≠ requested.length then
        .error (badRequest "invalid_input"
          "Selected platforms must be unique and configured on this pipeline.")
      else .ok (some selected)

def normalizeWorkflowName (name : Text) : Except ApiError Text :=
  let name := trim name
  if isValidIdentifier name then .ok name
  else .error (badRequest "invalid_workflow"
    "workflow must start with a letter or digit and use only letters, digits, '-' and '_' (max 64 chars)")

/-- Why `workflow` cannot be planned from the file, if it cannot. -/
def workflowError (path : Text) (file : PipelineFile) (workflow : Text) : Option Text :=
  if workflow ∈ file.workflowNames then none
  else if file.version = 1 then
    some (path ++ " is a version 1 file; workflows need `version: 2`")
  else if file.workflowNames.isEmpty then
    some ("workflow '" ++ workflow ++ "' is not defined; " ++ path ++ " defines no workflows")
  else some ("workflow '" ++ workflow ++ "' is not defined; " ++ path ++ " defines [" ++
    join ", " file.workflowNames ++ "]")

def shortReference (reference : Text) : Text :=
  if byteLen reference = 40 && reference.all (fun c => isAsciiDigit c ||
      ('a' ≤ c && c ≤ 'f') || ('A' ≤ c && c ≤ 'F')) then reference.take 12
  else reference

/-- Check the build's workflow against the file at its commit. A file that cannot be read is not
checked. -/
def checkBuildWorkflow (file : Option (Text × PipelineFile)) (reference : Text)
    (workflow : Option Text) : Except ApiError (Option PipelineFile) :=
  match file with
  | none => .ok none
  | some (path, file) =>
    let message := match workflow with
      | some workflow => workflowError path file workflow
      | none =>
        if 1 < file.workflowNames.length then
          some (path ++ " defines workflows [" ++ join ", " file.workflowNames ++
            "]; name one when starting the build, or set a default workflow on the pipeline")
        else none
    match message with
    | some message => .error (badRequest "invalid_workflow"
        (message ++ " (read at " ++ shortReference reference ++ ")"))
    | none => .ok (some file)

/-- The branch and commit of a manual build: the requested ones, else the head of the branch or of
the default branch. -/
def resolveSource (out : ManualOutside) (req : CreateBuildRequest) (project : Project) :
    Except ApiError (Option Text × Except ApiError Text) :=
  let commitSha := normalizeOptional req.commitSha
  let branch := (normalizeOptional req.branch).or
    (if commitSha.isNone then normalizeOptional project.defaultBranch else none)
  match commitSha, branch with
  | some sha, branch => .ok (branch, .ok sha)
  | none, some branch => .ok (some branch, out.branchCommit branch)
  | none, none => .error (badRequest "invalid_input"
      "Provide branch or commit_sha, or set a project default_branch before triggering builds.")

def checkChangelog (req : CreateBuildRequest) : Except ApiError Unit :=
  if (normalizeOptional req.changelog).any fun changelog => 4000 < byteLen changelog then
    .error (badRequest "invalid_input" "Changelog must be 4,000 characters or fewer")
  else .ok ()

/-- The workflow of a manual build: the requested one, else the pipeline's default. -/
def requestedWorkflow (req : CreateBuildRequest) (pipeline : Pipeline) :
    Except ApiError (Option Text) :=
  match normalizeOptional req.workflow with
  | some name => (normalizeWorkflowName name).map some
  | none => .ok pipeline.workflow

/-- `POST /v1/projects/{project_id}/builds`: create a build by hand. -/
def createBuild (db : Database) (out : ManualOutside) (req : CreateBuildRequest) :
    Except ApiError (Database × Build) := do
  out.permission
  checkChangelog req
  let project ← orError (db.projects.find req.projectId) (notFound "Project not found")
  let repositoryId ← orError project.repositoryId (conflict "source_not_configured"
    "Project is not linked to a source repository. Link a repository before triggering builds.")
  let (branch, commit) ← resolveSource out req project
  let pipeline ← orError ((db.pipelines.find req.pipelineId).filter
    fun pipeline => pipeline.projectId = req.projectId)
    (notFound "Pipeline not found in this project")
  let selected ← validateSelectedPlatforms req.platforms pipeline.platforms
  (if (selected.getD pipeline.platforms).contains .android then out.googlePlaySecret else .ok ())
  let commitSha ← commit
  let workflow ← requestedWorkflow req pipeline
  let file ← checkBuildWorkflow out.file commitSha workflow
  let binding ← (workflowBinding db req.projectId req.pipelineId file workflow).mapError
    (badRequest "invalid_signing")
  let repoUrl ← orError (resolveRepositoryCloneUrl db repositoryId) (conflict "source_unresolvable"
    "Project source repository could not be resolved. Reconnect the source integration and repository mapping.")
  let binds : BuildInsertBinds :=
    { projectId := req.projectId
      pipelineId := req.pipelineId
      commitSha := some commitSha
      branch
      snapshot := binding.writeTo (createConfigSnapshot repositoryId repoUrl workflow
        pipeline.runsOn pipeline.timeoutMinutes)
      webhookId := none
      now := out.now
      sourceBuildId := none
      cancelPrevious := pipeline.cancelPrevious
      approvalRequired := binding.approvalRequired.getD
        (pipeline.approvalPolicy.appliesTo "manual") }
  let after ← orError (executeBuildInsert db binds) (conflict "source_changed"
    "The project source changed while this build was being created. Review the source and trigger the build again.")
  return (after, newBuild db binds)

/-! ## Reruns -/

/-- What the outside says to a rerun. -/
structure RerunOutside where
  permission : Except ApiError Unit
  now : ℤ

/-- The source of a rerun must be the one the project is linked to now; a snapshot that only has
a clone URL is upgraded when that still matches. -/
def rerunSnapshot (snapshot : Snapshot) (repositoryId repoUrl : Text) : Except ApiError Snapshot :=
  let changed := conflict "source_changed"
    "The project source changed after this build was created. Trigger a new build from the current source."
  match snapshot.repositoryId with
  | some id => if id = repositoryId then .ok snapshot else .error changed
  | none =>
    if snapshot.repoUrl.map trim = some repoUrl then
      .ok { snapshot with repositoryId := some repositoryId }
    else .error changed

/-- The oldest unfinished retry of one of the steps. -/
def activeRetry (db : Database) (sourceBuildId : ℕ) (steps : List Text) : Option Build :=
  let active := db.builds.rows.filter fun other => other.sourceBuildId = some sourceBuildId &&
    !other.status.isTerminal && other.snapshot.retrySteps.any (steps.contains ·)
  (active.mergeSort fun a b => a.buildNumber ≤ b.buildNumber).head?

def checkTerminal (source : Build) : Except ApiError Unit :=
  if source.status.isTerminal then .ok ()
  else .error (conflict "build_not_terminal" "Cannot re-run a build that is still in progress")

/-- Queue a new build from a finished one. With `retrySteps`, the new build only runs those
steps. -/
def queueRerun (db : Database) (out : RerunOutside) (buildId : ℕ)
    (retrySteps : Option (List Text)) : Except ApiError (Database × Build) := do
  let source ← orError (db.builds.find buildId) (notFound "Build not found")
  checkTerminal source
  out.permission
  let project ← orError (db.projects.find source.projectId) (notFound "Project no longer exists")
  let repositoryId ← orError project.repositoryId (conflict "source_changed"
    "This build's source is no longer linked to the project. Choose the intended source, then trigger a new build.")
  let repoUrl ← orError (resolveRepositoryCloneUrl db repositoryId) (conflict "source_changed"
    "This build's source can no longer be resolved. Repair the project source, then trigger a new build.")
  let snapshot ← rerunSnapshot source.snapshot repositoryId repoUrl
  let pipeline ← orError (db.pipelines.find source.pipelineId)
    (notFound "Pipeline no longer exists")
  let binds : BuildInsertBinds :=
    { projectId := source.projectId
      pipelineId := source.pipelineId
      commitSha := source.commitSha
      branch := source.branch
      snapshot := { snapshot with
        retrySteps := retrySteps.getD [], timeoutSecs := some (pipeline.timeoutMinutes * 60) }
      webhookId := none
      now := out.now
      sourceBuildId := some buildId
      cancelPrevious := false
      -- a build that was gated stays gated, whatever event started it
      approvalRequired := pipeline.approvalPolicy.appliesTo "manual" ||
        (pipeline.approvalPolicy.required && source.approvalRequestedAt.isSome) }
  match executeBuildInsert db binds, retrySteps.bind (activeRetry db buildId) with
  | some after, _ => return (after, newBuild db binds)
  | none, some retry => throw (conflict "retry_in_progress"
      (join ", " (retrySteps.getD []) ++ " is already being retried in build #" ++
        ofNat retry.buildNumber))
  | none, none => throw (conflict "source_changed"
      "The project source changed while this rerun was being created. Trigger a new build from the current source.")

/-! ## Schedules -/

/-- What the outside says to a scheduled build. -/
structure ScheduleOutside where
  branchCommit : Text → Except ApiError Text
  now : ℤ

/-- Start a build for a due cron schedule. -/
def createScheduledBuild (db : Database) (out : ScheduleOutside) (pipelineId : Text)
    (schedule : ScheduleTrigger) : Except ApiError (Database × Build) := do
  let pipeline ← orError ((db.pipelines.find pipelineId).filter (·.enabled))
    (notFound "Pipeline not found or disabled")
  let project ← orError (db.projects.find pipeline.projectId)
    (notFound "Pipeline not found or disabled")
  let repositoryId ← orError project.repositoryId (conflict "source_not_configured"
    "Project is not linked to a source repository")
  let branch ← orError ((normalizeOptional schedule.branch).or
    (normalizeOptional project.defaultBranch)) (conflict "invalid_input"
    "The schedule has no branch and the project has no default branch")
  let repoUrl ← orError (resolveRepositoryCloneUrl db repositoryId) (conflict "source_unresolvable"
    "Project source repository could not be resolved")
  let commitSha ← out.branchCommit branch
  let binds : BuildInsertBinds :=
    { projectId := pipeline.projectId
      pipelineId
      commitSha := some commitSha
      branch := some branch
      snapshot := createConfigSnapshot repositoryId repoUrl pipeline.workflow
        pipeline.runsOn pipeline.timeoutMinutes
      webhookId := none
      now := out.now
      sourceBuildId := none
      cancelPrevious := pipeline.cancelPrevious
      approvalRequired := pipeline.approvalPolicy.appliesTo "schedule" }
  let after ← orError (executeBuildInsert db binds) (conflict "source_changed"
    "The project source changed while the scheduled build was being created")
  return (after, newBuild db binds)

end OoreBuild
