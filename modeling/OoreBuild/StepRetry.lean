import OoreBuild.BuildCreation

/-!
# Retrying a single step of a finished build

Only the store uploads can run on their own: they read artifacts the build already stored. A retry
is a new build linked to its source build; its runner stores the source's artifacts again as the
retry's own and runs only the retried uploads.
-/

namespace OoreBuild

open Text

/-- The step that stores the build's artifacts. -/
def artifactsStep : Text := "artifacts"

def publishPlayStep : Text := "publish-play"

def publishAppStoreStep : Text := "publish-app-store"

def retryableBuildSteps : List Text := [publishPlayStep, publishAppStoreStep]

/-- What the outside says to a retry request: the caller's permission, where the pipeline
publishes, and what the build has stored. -/
structure RetryOutside where
  permission : Except ApiError Unit
  playEnabled : Bool
  /-- The names of the stored artifacts that have not expired. -/
  artifacts : List Text
  appStoreEnabled : Bool
  ipaStored : Bool

/-- The App Bundle that Play publishing uploads: the only one, or the only release one. -/
def pickBundle (artifacts : List Text) : Option Text :=
  match artifacts.filter fun name => endsWith (toAsciiLowercase name) ".aab" with
  | [bundle] => some bundle
  | bundles =>
    match bundles.filter fun name => contains (toAsciiLowercase name) "release" with
    | [bundle] => some bundle
    | _ => none

def Build.stepSucceeded (build : Build) (name : Text) : Bool :=
  (build.stepResults.getD []).any fun step => step.name = name && step.succeeded

/-- Uploads of a build that a retry of it has running, queued or already done. -/
def stepsTakenByRetries (db : Database) (sourceBuildId : ℕ) : List Text :=
  (db.builds.rows.filter fun other => other.sourceBuildId = some sourceBuildId).flatMap fun other =>
    if !other.status.isTerminal then other.snapshot.retrySteps
    else ((other.stepResults.getD []).filter (·.succeeded)).map (·.name)

/-- Publishing to the step's store is on and the artifact it uploads is stored. -/
def RetryOutside.ready (out : RetryOutside) (step : Text) : Bool :=
  if step = publishPlayStep then out.playEnabled && (pickBundle out.artifacts).isSome
  else if step = publishAppStoreStep then out.appStoreEnabled && out.ipaStored
  else false

/-- Store uploads of the build that can run again, in run order. -/
def retryableSteps (db : Database) (out : RetryOutside) (build : Build) : List Text :=
  if !build.status.isTerminal || !build.stepSucceeded artifactsStep then []
  else retryableBuildSteps.filter fun step => !build.stepSucceeded step &&
    !(stepsTakenByRetries db build.id).contains step && out.ready step

def checkRetryTerminal (build : Build) : Except ApiError Unit :=
  if build.status.isTerminal then .ok ()
  else .error (conflict "build_not_terminal"
    "Cannot retry a step of a build that is still in progress")

def checkRetryableStep (step : Text) : Except ApiError Unit :=
  if retryableBuildSteps.contains step then .ok ()
  else .error (badRequest "step_not_retryable" ("Only store uploads (" ++
    join ", " retryableBuildSteps ++
    ") can be retried on their own. Re-run the build to run other steps again."))

def checkNoActiveRetry (db : Database) (buildId : ℕ) (step : Text) : Except ApiError Unit :=
  match activeRetry db buildId [step] with
  | none => .ok ()
  | some retry => .error (conflict "retry_in_progress"
      (step ++ " is already being retried in build #" ++ ofNat retry.buildNumber))

/-- The checks of a retry request, before it queues the retry: the steps that the retry is to
run, the requested upload and any later one that has not succeeded. -/
def retryBuildStep (db : Database) (out : RetryOutside) (buildId : ℕ) (step : Text) :
    Except ApiError (List Text) := do
  let build ← orError (db.builds.find buildId) (notFound "Build not found")
  out.permission
  checkRetryTerminal build
  let step := trim step
  checkRetryableStep step
  checkNoActiveRetry db build.id step
  let retryable := retryableSteps db out build
  let position ← orError (retryable.findIdx? (· = step)) (conflict "step_not_retryable" (step ++
    " cannot be retried for this build. It needs the build's stored artifacts, publishing turned on for that store, and an upload that has not already succeeded, here or in an earlier retry."))
  return retryable.drop position

end OoreBuild
