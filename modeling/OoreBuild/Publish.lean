import OoreBuild.Lower
import OoreBuild.Release
import OoreBuild.StepRetry

/-!
# Where a build publishes

The pipeline's Publish settings and the `publish` of its file together decide a build's store
uploads (`PlanPublish.apply`): a store that the file names replaces where the settings upload to,
and a Google Play upload that names its own service account needs no settings. The runner fetches
the settings, reads the file and runs the uploads, Google Play first, up to the first that fails.
-/

namespace OoreBuild

open Text

/-! ## Settings -/

inductive GooglePlayReleaseNotesSource where
  | none
  | changelog
  | repoFiles
  deriving DecidableEq, Repr

structure GooglePlayPublishConfig where
  enabled : Bool
  serviceAccountSecret : Text
  packageName : Option Text
  track : Text
  /-- Initial staged rollout; without one all users get the release. -/
  rolloutPercent : Option F64
  draft : Bool
  releaseNotes : GooglePlayReleaseNotesSource
  releaseNotesLocale : Text
  releaseNotesDir : Option Text
  uploadMapping : Bool
  inAppUpdatePriority : Option ℕ
  rolloutPolicy : Option ReleasePolicy
  deriving DecidableEq, Repr

/-- The settings of an upload that only a file turns on. -/
def GooglePlayPublishConfig.fromFileDefaults : GooglePlayPublishConfig :=
  { enabled := true, serviceAccountSecret := "", packageName := none, track := "internal"
    rolloutPercent := none, draft := false, releaseNotes := .changelog
    releaseNotesLocale := "en-US", releaseNotesDir := none, uploadMapping := true
    inAppUpdatePriority := none, rolloutPolicy := none }

structure AppStoreReleaseNote where
  locale : Text
  whatsNew : Text
  deriving DecidableEq, Repr

structure AppStorePublishConfig where
  enabled : Bool
  destination : AppStoreDestination
  testflightGroups : List Text
  releaseNotes : List AppStoreReleaseNote
  usesNonExemptEncryption : Bool
  submitForReview : Bool
  phasedRelease : Bool
  deriving DecidableEq, Repr

structure RunnerAppStoreUploadCredentials where
  keyId : Text
  issuerId : Text
  privateKeyPem : Text
  deriving DecidableEq, Repr

/-- What the runner needs to upload to App Store Connect. -/
structure RunnerAppStorePublishPlan where
  config : AppStorePublishConfig
  credentials : RunnerAppStoreUploadCredentials
  deriving DecidableEq, Repr

/-- The settings as the runner gets them: of a store only when it is turned on. -/
structure RunnerPublishPlan where
  changelog : Option Text
  googlePlay : Option GooglePlayPublishConfig
  appStore : Option RunnerAppStorePublishPlan
  /-- Publishing is off for the build's workflow, whatever the file says. -/
  disabled : Bool
  deriving DecidableEq, Repr

/-- A pipeline's signing settings, with the key that they decrypt to. -/
structure SigningKeyRow where
  enabled : Bool
  exportMethod : Text
  credentials : Except Text (Option RunnerAppStoreUploadCredentials)

/-- What the daemon has stored about a pipeline's uploads. -/
structure PublishSettings where
  googlePlay : Option GooglePlayPublishConfig
  appStore : Option AppStorePublishConfig
  signing : Option SigningKeyRow

def SigningKeyRow.exportsAppStore (row : SigningKeyRow) : Bool :=
  row.enabled && row.exportMethod = "app_store"

/-- The App Store part of the runner's plan. Credentials are released for App Store exports. -/
def PublishSettings.runnerPlan (settings : PublishSettings) :
    Except Text (Option RunnerAppStorePublishPlan) :=
  match settings.appStore, settings.signing with
  | some config, some signing =>
    if !config.enabled || !signing.exportsAppStore then .ok none
    else match signing.credentials with
      | .error error => .error error
      | .ok (some credentials) => .ok (some { config, credentials })
      | .ok none => .error
        "App Store publishing is on but the pipeline has no App Store Connect API key"
  | _, _ => .ok none

/-- The publish plan of a job. `disabled` and `changelog` are kept with its build. -/
def getJobPublishPlan (settings : PublishSettings) (disabled : Bool) (changelog : Option Text) :
    Except Text RunnerPublishPlan := do
  let googlePlay := settings.googlePlay.filter (·.enabled)
  let appStore ← settings.runnerPlan
  return { changelog, googlePlay := googlePlay.filter fun _ => !disabled
           appStore := appStore.filter fun _ => !disabled, disabled }

/-! ## The file's uploads -/

/-- Adjustments for the publish log. -/
inductive PublishNote where
  | disabled
  /-- A draft has no staged rollout, so the rollout is ignored. -/
  | draftRollout (percent : F64)
  /-- The internal track has no staged rollouts, so the rollout is ignored. -/
  | internalRollout (percent : F64)
  deriving DecidableEq, Repr

/-- The uploads of a build. An error says why the upload cannot run. -/
structure EffectivePublish where
  changelog : Option Text
  googlePlay : Except Text (Option GooglePlayPublishConfig)
  appStore : Except Text (Option RunnerAppStorePublishPlan)
  notes : List PublishNote

/-- A rollout fraction as a percentage, rounded to a millionth. -/
def playRolloutPercent (rollout : F64) : F64 :=
  ((rollout.mulPos 100).mulPos 1000000).round.divPos 1000000

/-- Not yet all users. -/
def isStaged (percent : F64) : Bool := percent.lt (.finite 100)

/-- The settings with what the file says in their place. -/
def PlayPublishSpec.onto (spec : PlayPublishSpec) (config : GooglePlayPublishConfig) :
    GooglePlayPublishConfig :=
  { config with
    enabled := true
    track := spec.track
    rolloutPercent := match spec.rollout with
      | some rollout => (some (playRolloutPercent rollout)).filter isStaged
      | none => config.rolloutPercent
    draft := spec.draft.getD config.draft
    serviceAccountSecret := spec.serviceAccount.getD config.serviceAccountSecret }

/-- The rules of the settings form, applied to a combination instead of failing the upload. -/
def GooglePlayPublishConfig.fit (config : GooglePlayPublishConfig) :
    GooglePlayPublishConfig × List PublishNote :=
  match config.rolloutPercent.filter isStaged with
  | none => (config, [])
  | some percent =>
    if config.draft then ({ config with rolloutPercent := none }, [.draftRollout percent])
    else if config.track = "internal" then
      ({ config with rolloutPercent := none }, [.internalRollout percent])
    else (config, [])

/-- The settings of an upload with a service account of its own. -/
def PlayPublishSpec.alone (spec : PlayPublishSpec) (secret : Text) : GooglePlayPublishConfig :=
  { GooglePlayPublishConfig.fromFileDefaults with
    enabled := true
    serviceAccountSecret := secret
    track := spec.track
    rolloutPercent := (spec.rollout.map playRolloutPercent).filter fun percent =>
      isStaged percent && spec.track ≠ "internal"
    draft := spec.draft.getD false }

def playSettingsOff (source : Text) : Text :=
  source ++ " publishes with the pipeline's Google Play settings, which are off. Name the service account secret with `service_account`, or in the pipeline's Publish settings turn on Google Play's \"Upload after each build\" and set its service account secret; the file's track, rollout and draft replace the settings' own"

def applyPlay (play : Option (PlannedPublish PlayPublishSpec))
    (settings : Option GooglePlayPublishConfig) :
    Except Text (Option GooglePlayPublishConfig) × List PublishNote :=
  match play with
  | none => (.ok settings, [])
  | some { error := some error, .. } => (.error error, [])
  | some { spec, source, error := none } =>
    match settings, spec.serviceAccount with
    | some config, _ =>
      let (config, notes) := (spec.onto config).fit
      (.ok (some config), notes)
    -- A file that names its service account needs no settings.
    | none, some secret => (.ok (some (spec.alone secret)), [])
    | none, none => (.error (playSettingsOff source), [])

/-- The App Store upload of a file: the older `testflight` is one to TestFlight. -/
def PlanPublish.appStoreUpload (publish : PlanPublish) :
    Option (PlannedPublish AppStorePublishSpec) :=
  match publish.testflight with
  | some testflight => some
      { spec := { destination := .testflight, groups := [testflight.spec.group]
                  submitForReview := .none, phasedRelease := .none }
        source := testflight.source, error := testflight.error }
  | .none => publish.appStore

/-- The settings with what the file says in their place. -/
def AppStorePublishSpec.onto (spec : AppStorePublishSpec) (config : AppStorePublishConfig) :
    AppStorePublishConfig :=
  match spec.destination with
  | .testflight => { config with
      enabled := true
      destination := .testflight
      testflightGroups := if spec.groups.isEmpty then config.testflightGroups else spec.groups
      submitForReview := false
      phasedRelease := false }
  | .appStore => { config with
      enabled := true
      destination := .appStore
      submitForReview := spec.submitForReview.getD config.submitForReview
      phasedRelease := spec.phasedRelease.getD config.phasedRelease }

/-- An upload to TestFlight without a group to add the build to. -/
def AppStorePublishConfig.lacksGroup (config : AppStorePublishConfig) : Bool :=
  config.destination = .testflight && config.testflightGroups.isEmpty

def noTestflightGroup (source : Text) : Text :=
  source ++ " publishes to TestFlight, but neither the file nor the pipeline's App Store settings name a group; set `groups`"

def appStoreSettingsOff (source : Text) : Text :=
  source ++ " publishes with the pipeline's App Store Connect settings, which are not set up. In the pipeline's Publish settings, turn on App Store Connect, and in its iOS signing settings export App Store IPAs with an App Store Connect API key; the file's settings replace the settings' destination, groups and review options"

def applyAppStore (appStore : Option (PlannedPublish AppStorePublishSpec))
    (settings : Option RunnerAppStorePublishPlan) :
    Except Text (Option RunnerAppStorePublishPlan) :=
  match appStore with
  | none => .ok settings
  | some { error := some error, .. } => .error error
  | some { spec, source, error := none } =>
    match settings with
    | some plan =>
      let config := spec.onto plan.config
      if config.lacksGroup then .error (noTestflightGroup source)
      else .ok (some { plan with config })
    | none => .error (appStoreSettingsOff source)

/-- The file's uploads applied to the pipeline's settings. -/
def PlanPublish.apply (publish : PlanPublish) (settings : RunnerPublishPlan) : EffectivePublish :=
  if settings.disabled then
    { changelog := settings.changelog, googlePlay := .ok .none, appStore := .ok .none
      notes := [.disabled] }
  else
    let (googlePlay, notes) := applyPlay publish.play settings.googlePlay
    { changelog := settings.changelog, googlePlay
      appStore := applyAppStore publish.appStoreUpload settings.appStore, notes }

def PlanPublish.isEmpty (publish : PlanPublish) : Bool :=
  publish.play.isNone && publish.testflight.isNone && publish.appStore.isNone

theorem PlanPublish.eq_none_of_isEmpty {publish : PlanPublish} (h : publish.isEmpty = true) :
    publish = .none := by
  obtain ⟨play, testflight, appStore⟩ := publish
  simp only [PlanPublish.isEmpty, Bool.and_eq_true, Option.isNone_iff_eq_none] at h
  obtain ⟨⟨rfl, rfl⟩, rfl⟩ := h
  rfl

/-! ## Reading the file -/

/-- What of a version 1 file decides where its builds publish: nothing but its platforms. -/
structure PipelineExecutionConfig where
  platforms : List BuildPlatform
  buildCommands : List Text

inductive RepositoryConfig where
  | v1 (config : PipelineExecutionConfig)
  | v2 (config : ConfigV2)

/-- The part of a plan that publishing reads. -/
structure PublishingPlan where
  platforms : List BuildPlatform
  publish : PlanPublish

/-- Narrow a version 1 configuration to a run's platforms. -/
def selectV1Platforms (config : PipelineExecutionConfig) (selected : List BuildPlatform) :
    Except Text PipelineExecutionConfig :=
  if selected.isEmpty then .error "selected_platforms must include at least one target"
  else if !selected.Nodup || selected.any fun platform => !config.platforms.contains platform then
    .error "selected_platforms must be unique and configured by the workflow"
  else if selected.length < config.platforms.length && !config.buildCommands.isEmpty then .error
    "Per-run platform selection requires platform_commands or default platform commands; shared commands.build cannot be filtered safely"
  else .ok { config with platforms := selected }

/-- The plan of a version 1 configuration, which never says where to publish. -/
def planV1 (config : PipelineExecutionConfig) (selected : Option (List BuildPlatform)) :
    Except Text PublishingPlan := do
  let config ← match selected with
    | some selected => selectV1Platforms config selected
    | none => .ok config
  return { platforms := config.platforms, publish := .none }

def RepositoryConfig.plan (file : RepositoryConfig) (workflow : Option Text)
    (selected : Option (List BuildPlatform)) : Except Text PublishingPlan :=
  match file, workflow with
  | .v1 _, some workflow => .error
      ("workflow '" ++ workflow ++ "' was requested, but workflows need `version: 2`")
  | .v1 config, none => planV1 config selected
  | .v2 config, workflow => (config.plan workflow selected).map fun plan =>
      { platforms := plan.platforms, publish := plan.publish }

/-- What the runner reads a plan from: the repository's file at the build's commit, if it has one,
and the snapshot of the build. -/
structure PlanSource where
  file : Except Text (Option RepositoryConfig)
  /-- The check of the file's runner labels. -/
  requireRunnerLabels : RepositoryConfig → Except Text Unit
  /-- The pipeline's own configuration, for a repository without a file. -/
  uiConfig : Except Text PipelineExecutionConfig
  selectedPlatforms : Except Text (Option (List BuildPlatform))
  workflow : Option Text

def resolveExecutionPlan (source : PlanSource) : Except Text PublishingPlan := do
  match ← source.file with
  | some file =>
    source.requireRunnerLabels file
    file.plan source.workflow (← source.selectedPlatforms)
  | none => planV1 (← source.uiConfig) (← source.selectedPlatforms)

/-! ## Running the uploads -/

/-- A step result with whether the file chose the upload. -/
structure PublishStepResult extends StepResult where
  publishFromFile : Bool
  deriving DecidableEq, Repr

/-- The result of the artifacts step. A retry of any upload goes by its flag. -/
def artifactsStepResult (succeeded : Bool) (filePublish : PlanPublish) : PublishStepResult :=
  { name := artifactsStep, succeeded, publishFromFile := !filePublish.isEmpty }

/-- An upload that was started, with the configuration it was started with. -/
inductive StoreUpload where
  | googlePlay (config : GooglePlayPublishConfig)
  | appStore (plan : RunnerAppStorePublishPlan)
  deriving DecidableEq, Repr

def StoreUpload.step : StoreUpload → Text
  | .googlePlay _ => publishPlayStep
  | .appStore _ => publishAppStoreStep

/-- The configuration that decides a publish step, for the step's store. -/
def EffectivePublish.storeConfig (publish : EffectivePublish) (step : Text) :
    Except Text (Option StoreUpload) :=
  if step = publishPlayStep then publish.googlePlay.map (·.map .googlePlay)
  else if step = publishAppStoreStep then publish.appStore.map (·.map .appStore)
  else .ok none

/-- What the stores answer to an upload. -/
structure StoreCalls where
  googlePlay : GooglePlayPublishConfig → Except Text Unit
  appStore : RunnerAppStorePublishPlan → Except Text Unit
  /-- The build has a signed IPA and its metadata. -/
  ipaSigned : Bool

def StoreCalls.uploadIpa (calls : StoreCalls) (plan : RunnerAppStorePublishPlan) :
    Except Text Unit :=
  if calls.ipaSigned then calls.appStore plan
  else .error "App Store publishing is on, but this build produced no signed App Store IPA"

/-- What the store uploads read. -/
structure PublishInputs where
  /-- Runs only these steps, for a step retry. -/
  only : Option (List Text)
  filePublish : PlanPublish
  /-- The platforms that the build ran; a step retry skips none. -/
  builtPlatforms : Option (List BuildPlatform)

def PublishInputs.runs (inputs : PublishInputs) (step : Text) : Bool :=
  inputs.only.all fun only => only.contains step

def PublishInputs.built (inputs : PublishInputs) (platform : BuildPlatform) : Bool :=
  inputs.builtPlatforms.all fun built => built.contains platform

structure PublishRun where
  steps : List PublishStepResult
  uploads : List StoreUpload
  result : Except Text Unit

def PublishRun.skipped : PublishRun := ⟨[], [], .ok ()⟩

/-- Go on unless the run has failed. -/
def PublishRun.andThen (run next : PublishRun) : PublishRun :=
  match run.result with
  | .ok () => ⟨run.steps ++ next.steps, run.uploads ++ next.uploads, next.result⟩
  | .error _ => run

def PublishRun.failed (step error : Text) (fromFile : Bool) (uploads : List StoreUpload) :
    PublishRun :=
  ⟨[{ name := step, succeeded := false, publishFromFile := fromFile }], uploads,
    .error (step ++ " failed: " ++ error)⟩

/-- One upload: skipped when it is not wanted, failed when it cannot run. -/
def uploadStore {α : Type} (step : Text) (wanted fromFile : Bool)
    (config : Except Text (Option α)) (call : α → Except Text Unit) (upload : α → StoreUpload) :
    PublishRun :=
  match config with
  | .error error => if wanted then .failed step error fromFile [] else .skipped
  | .ok config =>
    match config.filter fun _ => wanted with
    | none => .skipped
    | some config =>
      match call config with
      | .ok () => ⟨[{ name := step, succeeded := true, publishFromFile := fromFile }],
          [upload config], .ok ()⟩
      | .error error => .failed step error fromFile [upload config]

/-- Run the uploads, stopping at the first failure. -/
def runUploads (calls : StoreCalls) (inputs : PublishInputs) (publish : EffectivePublish) :
    PublishRun :=
  (uploadStore publishPlayStep (inputs.runs publishPlayStep && inputs.built .android)
    inputs.filePublish.play.isSome publish.googlePlay calls.googlePlay .googlePlay).andThen
  (uploadStore publishAppStoreStep (inputs.runs publishAppStoreStep && inputs.built .ios)
    inputs.filePublish.testflight.isSome publish.appStore calls.uploadIpa .appStore)

/-- Load the settings, apply the file's uploads and run them. -/
def runPublishSteps (fetched : Except Text RunnerPublishPlan) (calls : StoreCalls)
    (inputs : PublishInputs) : PublishRun :=
  match fetched with
  | .error error => ⟨[], [], .error ("Failed to load publish settings for this build: " ++ error)⟩
  | .ok settings => runUploads calls inputs (inputs.filePublish.apply settings)

end OoreBuild
