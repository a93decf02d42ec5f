import OoreBuild.Publish

/-!
# Retrying a store upload

A retry of an upload takes its destination from where the original run took it: the pipeline's
settings and, when the artifacts step says that the file chose, the file at the same commit. Before
that it refuses every step whose store the settings do not turn on. So a retry reaches the
configuration of the original run, unless that run got along without the settings because the file
names its own service account (`retry_reaches_iff`).
-/

namespace OoreBuild

open Text

/-! ## The retry -/

/-- Whether a retry of `steps` must read the repository file again. -/
def publishedFromFile (results : List PublishStepResult) (steps : List Text) : Bool :=
  results.any fun step =>
    step.publishFromFile && (step.name = artifactsStep || steps.contains step.name)

/-- What the snapshot of a retry says. -/
structure StepRetryJob where
  retrySteps : List Text
  publishFromFile : Bool

/-- What a retry gets from outside. -/
structure RetryCalls where
  checkout : Except Text Unit
  /-- Downloading the stored artifacts and storing them again as the retry's own. -/
  restore : Except Text Unit
  stores : StoreCalls

/-- Why a retry ended before its uploads. -/
inductive RetryFailure where
  | settings (error : Text)
  | refused (step : Text)
  | checkout (error : Text)
  | file (error : Text)
  | restore (error : Text)
  deriving DecidableEq, Repr

def RetryFailure.message : RetryFailure → Text
  | .settings error => "Failed to load publish settings for this build: " ++ error
  | .refused step =>
      step ++ " cannot run: publishing to that store is no longer turned on for this pipeline"
  | .file error => "Failed to read the pipeline file at the build's commit: " ++ error
  | .checkout error | .restore error => error

structure RetryRun where
  steps : List PublishStepResult
  /-- The uploads that the retry came to, with what decided them. -/
  result : Except RetryFailure (EffectivePublish × PublishRun)

/-- The settings turn the step's store on. -/
def RunnerPublishPlan.turnsOn (plan : RunnerPublishPlan) (step : Text) : Bool :=
  if step = publishPlayStep then plan.googlePlay.isSome
  else if step = publishAppStoreStep then plan.appStore.isSome
  else false

/-- Release notes kept in the repository need the source, as does the file. -/
def StepRetryJob.needsSource (job : StepRetryJob) (plan : RunnerPublishPlan) : Bool :=
  job.publishFromFile || (job.retrySteps.contains publishPlayStep &&
    plan.googlePlay.any fun play => play.releaseNotes = .repoFiles)

/-- The uploads of the file, when it decides them. -/
def StepRetryJob.filePublish (job : StepRetryJob) (source : PlanSource) : Except Text PlanPublish :=
  if job.publishFromFile then (resolveExecutionPlan source).map (·.publish) else .ok .none

/-- The steps of a retry from its restored artifacts on. -/
def restoreAndPublish (plan : RunnerPublishPlan) (calls : RetryCalls) (job : StepRetryJob)
    (before : List PublishStepResult) (filePublish : PlanPublish) : RetryRun :=
  match calls.restore with
  | .error error => ⟨before ++ [artifactsStepResult false filePublish], .error (.restore error)⟩
  | .ok () =>
    let run := runPublishSteps (.ok plan) calls.stores
      { only := some job.retrySteps, filePublish, builtPlatforms := none }
    ⟨before ++ artifactsStepResult true filePublish :: run.steps,
      .ok (filePublish.apply plan, run)⟩

def checkoutResult (succeeded : Bool) : PublishStepResult :=
  { name := "checkout", succeeded, publishFromFile := false }

/-- Clone the build's commit, when the retry needs it. -/
def checkoutForRetry (plan : RunnerPublishPlan) (calls : RetryCalls) (job : StepRetryJob) :
    List PublishStepResult × Except RetryFailure Unit :=
  if job.needsSource plan then
    match calls.checkout with
    | .ok () => ([checkoutResult true], .ok ())
    | .error error => ([checkoutResult false], .error (.checkout error))
  else ([], .ok ())

def executeStepRetry (source : PlanSource) (fetched : Except Text RunnerPublishPlan)
    (calls : RetryCalls) (job : StepRetryJob) : RetryRun :=
  match fetched with
  | .error error => ⟨[], .error (.settings error)⟩
  | .ok plan =>
    match job.retrySteps.find? fun step => !plan.turnsOn step with
    | some step => ⟨[], .error (.refused step)⟩
    | none =>
      match checkoutForRetry plan calls job with
      | (before, .error failure) => ⟨before, .error failure⟩
      | (before, .ok ()) =>
        match job.filePublish source with
        | .error error => ⟨before, .error (.file error)⟩
        | .ok filePublish => restoreAndPublish plan calls job before filePublish

/-! ## Builds that can be retried -/

/-- The step results of a build whose artifacts are stored, and what decided its uploads: of a
build that ran as a whole, or of a retry. The file is the one at the build's commit. -/
inductive RanWith (source : PlanSource) (settings : PublishSettings) (disabled : Bool) :
    List PublishStepResult → Except Text EffectivePublish → Prop
  | build {before : List PublishStepResult}
      (unflagged : ∀ step ∈ before, step.publishFromFile = false) {plan : PublishingPlan}
      (planned : resolveExecutionPlan source = .ok plan) (changelog : Option Text)
      (calls : StoreCalls) :
      RanWith source settings disabled
        (before ++ artifactsStepResult true plan.publish ::
          (runPublishSteps (getJobPublishPlan settings disabled changelog) calls
            { only := none, filePublish := plan.publish
              builtPlatforms := some plan.platforms }).steps)
        ((getJobPublishPlan settings disabled changelog).map plan.publish.apply)
  | retry {results : List PublishStepResult} {original : Except Text EffectivePublish}
      (ran : RanWith source settings disabled results original) (changelog : Option Text)
      (calls : RetryCalls) (retrySteps : List Text) {steps : List PublishStepResult}
      {publish : EffectivePublish} {run : PublishRun}
      (retried : executeStepRetry source (getJobPublishPlan settings disabled changelog) calls
        ⟨retrySteps, publishedFromFile results retrySteps⟩ = ⟨steps, .ok (publish, run)⟩) :
      RanWith source settings disabled steps (.ok publish)

/-- The original run had a configuration to upload with. -/
def UploadsWith (original : Except Text EffectivePublish) (step : Text) (upload : StoreUpload) :
    Prop :=
  ∃ publish, original = .ok publish ∧ publish.storeConfig step = .ok (some upload)

/-- A retry reaches the configuration that the original run had for the step's store: it is
refused only where there was none, and otherwise decides by the same and uploads with it. -/
def RetryReaches (original : Except Text EffectivePublish) (retry : RetryRun) (step : Text) :
    Prop :=
  match retry.result with
  | .ok (publish, run) =>
    (∃ before, original = .ok before ∧ publish.storeConfig step = before.storeConfig step) ∧
      ∀ upload ∈ run.uploads, upload.step = step → UploadsWith original step upload
  | .error (.settings _) | .error (.refused _) => ∀ upload, ¬ UploadsWith original step upload
  | .error (.file _) => False
  -- The repository or the stored artifacts cannot be loaded.
  | .error (.checkout _) | .error (.restore _) => True

/-- The file and the settings give the step's store an upload. -/
def PlanPublish.hasUpload (publish : PlanPublish) (settings : RunnerPublishPlan) (step : Text) :
    Bool :=
  !settings.disabled &&
    if step = publishPlayStep then
      match publish.play with
      | .none => settings.googlePlay.isSome
      | some play => play.error.isNone &&
          (settings.googlePlay.isSome || play.spec.serviceAccount.isSome)
    else if step = publishAppStoreStep then
      match publish.appStoreUpload, settings.appStore with
      | .none, plan => plan.isSome
      | some upload, some plan =>
          upload.error.isNone && !(upload.spec.onto plan.config).lacksGroup
      | some _, .none => false
    else false

/-! ## What decides an upload -/

theorem EffectivePublish.storeConfig_play (publish : EffectivePublish) :
    publish.storeConfig publishPlayStep = publish.googlePlay.map (·.map .googlePlay) :=
  if_pos rfl

theorem publishAppStoreStep_ne : publishAppStoreStep ≠ publishPlayStep := by decide

theorem EffectivePublish.storeConfig_appStore (publish : EffectivePublish) :
    publish.storeConfig publishAppStoreStep = publish.appStore.map (·.map .appStore) := by
  unfold EffectivePublish.storeConfig
  rw [if_neg publishAppStoreStep_ne, if_pos rfl]

theorem map_upload_eq {α : Type} {config : Except Text (Option α)} {f : α → StoreUpload}
    (upload : StoreUpload) : config.map (·.map f) = .ok (some upload) ↔
      ∃ a, config = .ok (some a) ∧ f a = upload := by
  cases config with
  | error error => simp [Except.map]
  | ok config => simp [Except.map]

/-- The Google Play upload runs when it carries no error and has an account to run with. -/
theorem applyPlay_uploads (play : Option (PlannedPublish PlayPublishSpec))
    (settings : Option GooglePlayPublishConfig) :
    (∃ config, (applyPlay play settings).1 = .ok (some config)) ↔
      match play with
      | none => settings.isSome = true
      | some play => play.error.isNone = true ∧
          (settings.isSome = true ∨ play.spec.serviceAccount.isSome = true) := by
  cases play with
  | none => simp [applyPlay, Option.isSome_iff_exists]
  | some play =>
    obtain ⟨spec, source, error⟩ := play
    cases error with
    | some error => simp [applyPlay]
    | none =>
      cases settings with
      | some config => simp [applyPlay]
      | none => cases haccount : spec.serviceAccount <;> simp [applyPlay, haccount]

/-- The App Store upload runs when it carries no error, has settings and a group if it needs one. -/
theorem applyAppStore_uploads (appStore : Option (PlannedPublish AppStorePublishSpec))
    (settings : Option RunnerAppStorePublishPlan) :
    (∃ plan, applyAppStore appStore settings = .ok (some plan)) ↔
      match appStore, settings with
      | none, plan => plan.isSome = true
      | some upload, some plan =>
          upload.error.isNone = true ∧ (upload.spec.onto plan.config).lacksGroup = false
      | some _, none => False := by
  cases appStore with
  | none => simp [applyAppStore, Option.isSome_iff_exists]
  | some upload =>
    obtain ⟨spec, source, error⟩ := upload
    cases error with
    | some error => cases settings <;> simp [applyAppStore]
    | none =>
      cases settings with
      | none => simp [applyAppStore]
      | some plan => cases hgroup : (spec.onto plan.config).lacksGroup <;>
          simp [applyAppStore, hgroup]

theorem exists_map_upload {α : Type} {config : Except Text (Option α)} {f : α → StoreUpload} :
    (∃ upload, config.map (·.map f) = .ok (some upload)) ↔ ∃ a, config = .ok (some a) := by
  simp only [map_upload_eq]
  constructor
  · rintro ⟨upload, a, h, -⟩
    exact ⟨a, h⟩
  · rintro ⟨a, h⟩
    exact ⟨f a, a, h, rfl⟩

theorem PlanPublish.hasUpload_iff (publish : PlanPublish) (settings : RunnerPublishPlan)
    (step : Text) : publish.hasUpload settings step = true ↔
      ∃ upload, (publish.apply settings).storeConfig step = .ok (some upload) := by
  unfold PlanPublish.hasUpload PlanPublish.apply
  cases hdisabled : settings.disabled with
  | true =>
    simp only [EffectivePublish.storeConfig, Except.map, ↓reduceIte, Bool.not_true,
      Bool.false_and, Bool.false_eq_true, false_iff, not_exists]
    intro upload
    split
    · simp
    · split <;> simp
  | false =>
    rw [if_neg Bool.false_ne_true, Bool.not_false, Bool.true_and]
    by_cases hplay : step = publishPlayStep
    · subst hplay
      rw [if_pos rfl, EffectivePublish.storeConfig_play, exists_map_upload, applyPlay_uploads]
      cases publish.play with
      | none => rfl
      | some play => simp
    · rw [if_neg hplay]
      by_cases happ : step = publishAppStoreStep
      · subst happ
        rw [if_pos rfl, EffectivePublish.storeConfig_appStore, exists_map_upload,
          applyAppStore_uploads]
        cases publish.appStoreUpload with
        | none => rfl
        | some upload => cases settings.appStore <;> simp
      · rw [if_neg happ]
        simp [EffectivePublish.storeConfig, hplay, happ]

/-! ## What a run of the uploads records -/

theorem PublishRun.mem_andThen_steps {run next : PublishRun} {step : PublishStepResult}
    (h : step ∈ (run.andThen next).steps) : step ∈ run.steps ∨ step ∈ next.steps := by
  unfold PublishRun.andThen at h
  split at h
  · exact List.mem_append.mp h
  · exact .inl h

theorem PublishRun.mem_andThen_uploads {run next : PublishRun} {upload : StoreUpload}
    (h : upload ∈ (run.andThen next).uploads) : upload ∈ run.uploads ∨ upload ∈ next.uploads := by
  unfold PublishRun.andThen at h
  split at h
  · exact List.mem_append.mp h
  · exact .inl h

section

variable {α : Type} {step : Text} {wanted fromFile : Bool} {config : Except Text (Option α)}
  {call : α → Except Text Unit} {upload : α → StoreUpload}

theorem uploadStore_flag {result : PublishStepResult}
    (h : result ∈ (uploadStore step wanted fromFile config call upload).steps) :
    result.publishFromFile = fromFile := by
  unfold uploadStore at h
  split at h
  · split at h
    · rw [List.mem_singleton.mp h]
    · cases h
  · split at h
    · cases h
    · split at h <;> rw [List.mem_singleton.mp h]

theorem uploadStore_upload {started : StoreUpload}
    (h : started ∈ (uploadStore step wanted fromFile config call upload).uploads) :
    config.map (·.map upload) = .ok (some started) := by
  unfold uploadStore at h
  split at h
  · split at h <;> cases h
  · split at h
    · cases h
    · rename_i config chosen hfilter
      rw [Option.filter_eq_some_iff] at hfilter
      obtain ⟨rfl, -⟩ := hfilter
      have : started = upload chosen := by split at h <;> exact List.mem_singleton.mp h
      rw [this]
      rfl

end

/-- A step is flagged only when the file has uploads. -/
theorem runUploads_flag {calls : StoreCalls} {inputs : PublishInputs} {publish : EffectivePublish}
    {step : PublishStepResult} (h : step ∈ (runUploads calls inputs publish).steps)
    (hflag : step.publishFromFile = true) : inputs.filePublish.isEmpty = false := by
  unfold PlanPublish.isEmpty
  rcases PublishRun.mem_andThen_steps h with h | h
  · rw [uploadStore_flag h, Option.isSome_iff_ne_none] at hflag
    simp [hflag]
  · rw [uploadStore_flag h, Option.isSome_iff_ne_none] at hflag
    simp [hflag]

/-- Uploads go by the configuration of their store. -/
theorem runUploads_upload {calls : StoreCalls} {inputs : PublishInputs}
    {publish : EffectivePublish} {upload : StoreUpload}
    (h : upload ∈ (runUploads calls inputs publish).uploads) :
    publish.storeConfig upload.step = .ok (some upload) := by
  rcases PublishRun.mem_andThen_uploads h with h | h
  · have hconfig := uploadStore_upload h
    obtain ⟨config, -, rfl⟩ := (map_upload_eq upload).mp hconfig
    exact (publish.storeConfig_play).trans hconfig
  · have hconfig := uploadStore_upload h
    obtain ⟨plan, -, rfl⟩ := (map_upload_eq upload).mp hconfig
    exact (publish.storeConfig_appStore).trans hconfig

/-- Whether the file chose is written on the artifacts step, whatever is retried. -/
theorem publishedFromFile_eq {before after : List PublishStepResult} {filePublish : PlanPublish}
    (hbefore : ∀ step ∈ before, step.publishFromFile = false)
    (hafter : ∀ step ∈ after, step.publishFromFile = true → filePublish.isEmpty = false)
    (steps : List Text) :
    publishedFromFile (before ++ artifactsStepResult true filePublish :: after) steps =
      !filePublish.isEmpty := by
  unfold publishedFromFile
  rw [List.any_append, List.any_cons]
  have hnone : (before.any fun step =>
      step.publishFromFile && (step.name = artifactsStep || steps.contains step.name)) = false := by
    rw [List.any_eq_false]
    intro step hstep
    simp [hbefore step hstep]
  rw [hnone, Bool.false_or]
  cases hempty : filePublish.isEmpty with
  | false => simp [artifactsStepResult, hempty]
  | true =>
    have hrest : (after.any fun step =>
        step.publishFromFile && (step.name = artifactsStep || steps.contains step.name)) =
          false := by
      rw [List.any_eq_false]
      intro step hstep hflag
      rw [Bool.and_eq_true] at hflag
      rw [hafter step hstep hflag.1] at hempty
      cases hempty
    rw [hrest]
    simp [artifactsStepResult, hempty]

/-! ## How a retry ends -/

/-- The ways in which a retry ends. -/
inductive RetryEnds (source : PlanSource) (fetched : Except Text RunnerPublishPlan)
    (calls : RetryCalls) (job : StepRetryJob) : RetryRun → Prop
  | settings {error : Text} (fetch : fetched = .error error) :
      RetryEnds source fetched calls job ⟨[], .error (.settings error)⟩
  | refused {plan : RunnerPublishPlan} (fetch : fetched = .ok plan) {step : Text}
      (retried : step ∈ job.retrySteps) (off : plan.turnsOn step = false) :
      RetryEnds source fetched calls job ⟨[], .error (.refused step)⟩
  | checkout {plan : RunnerPublishPlan} (fetch : fetched = .ok plan)
      (on : ∀ step ∈ job.retrySteps, plan.turnsOn step = true) (steps : List PublishStepResult)
      (error : Text) : RetryEnds source fetched calls job ⟨steps, .error (.checkout error)⟩
  | file {error : Text} (read : job.filePublish source = .error error)
      (steps : List PublishStepResult) :
      RetryEnds source fetched calls job ⟨steps, .error (.file error)⟩
  | restore {plan : RunnerPublishPlan} (fetch : fetched = .ok plan)
      (on : ∀ step ∈ job.retrySteps, plan.turnsOn step = true) (steps : List PublishStepResult)
      (error : Text) : RetryEnds source fetched calls job ⟨steps, .error (.restore error)⟩
  | published {plan : RunnerPublishPlan} (fetch : fetched = .ok plan)
      (on : ∀ step ∈ job.retrySteps, plan.turnsOn step = true) {before : List PublishStepResult}
      (unflagged : ∀ step ∈ before, step.publishFromFile = false) {filePublish : PlanPublish}
      (read : job.filePublish source = .ok filePublish) {run : PublishRun}
      (ran : run = runUploads calls.stores
        { only := some job.retrySteps, filePublish, builtPlatforms := none }
        (filePublish.apply plan)) :
      RetryEnds source fetched calls job
        ⟨before ++ artifactsStepResult true filePublish :: run.steps,
          .ok (filePublish.apply plan, run)⟩

theorem checkoutForRetry_cases (plan : RunnerPublishPlan) (calls : RetryCalls)
    (job : StepRetryJob) :
    (∃ steps error, checkoutForRetry plan calls job = (steps, .error (.checkout error))) ∨
    ∃ before, checkoutForRetry plan calls job = (before, .ok ()) ∧
      ∀ step ∈ before, step.publishFromFile = false := by
  unfold checkoutForRetry
  split
  · split
    · refine .inr ⟨[checkoutResult true], rfl, fun step hstep => ?_⟩
      rw [List.mem_singleton.mp hstep]
      rfl
    · exact .inl ⟨_, _, rfl⟩
  · exact .inr ⟨[], rfl, by simp⟩

theorem executeStepRetry_ends (source : PlanSource) (fetched : Except Text RunnerPublishPlan)
    (calls : RetryCalls) (job : StepRetryJob) :
    RetryEnds source fetched calls job (executeStepRetry source fetched calls job) := by
  unfold executeStepRetry
  cases fetched with
  | error error => exact .settings rfl
  | ok plan =>
    dsimp only
    split
    · rename_i step hfind
      refine .refused rfl (List.mem_of_find?_eq_some hfind) ?_
      simpa using List.find?_some hfind
    · rename_i hfind
      have hon : ∀ step ∈ job.retrySteps, plan.turnsOn step = true := by
        simpa using List.find?_eq_none.mp hfind
      rcases checkoutForRetry_cases plan calls job with
        ⟨steps, error, hcheckout⟩ | ⟨before, hcheckout, hunflagged⟩
      · rw [hcheckout]
        exact .checkout rfl hon steps error
      · rw [hcheckout]
        dsimp only
        cases hread : job.filePublish source with
        | error error => exact .file hread before
        | ok filePublish =>
          dsimp only [restoreAndPublish, runPublishSteps]
          cases calls.restore with
          | error error => exact .restore rfl hon _ error
          | ok _ =>
            exact .published rfl hon hunflagged hread rfl

/-! ## The configuration of the original run -/

theorem getJobPublishPlan_changelog (settings : PublishSettings) (disabled : Bool)
    (changelog changelog' : Option Text) :
    getJobPublishPlan settings disabled changelog' =
      (getJobPublishPlan settings disabled changelog).map fun plan =>
        { plan with changelog := changelog' } := by
  unfold getJobPublishPlan
  cases settings.runnerPlan <;> rfl

theorem PlanPublish.storeConfig_changelog (publish : PlanPublish) (settings : RunnerPublishPlan)
    (changelog : Option Text) (step : Text) :
    (publish.apply { settings with changelog }).storeConfig step =
      (publish.apply settings).storeConfig step := by
  unfold PlanPublish.apply
  dsimp only
  split <;> rfl

theorem StepRetryJob.filePublish_eq {source : PlanSource} {plan : PublishingPlan}
    (hplan : resolveExecutionPlan source = .ok plan) (retrySteps : List Text) :
    StepRetryJob.filePublish ⟨retrySteps, !plan.publish.isEmpty⟩ source = .ok plan.publish := by
  unfold StepRetryJob.filePublish
  cases hempty : plan.publish.isEmpty with
  | true => rw [PlanPublish.eq_none_of_isEmpty hempty]; rfl
  | false => simp [hplan, Except.map]

/-- Every run of a build, the whole one and its retries, goes by the settings and the file, and its
artifacts step says whether the file has uploads. -/
theorem RanWith.decided {source : PlanSource} {settings : PublishSettings} {disabled : Bool}
    {results : List PublishStepResult} {original : Except Text EffectivePublish}
    (h : RanWith source settings disabled results original) :
    ∃ plan, resolveExecutionPlan source = .ok plan ∧
      (∃ changelog, original =
        (getJobPublishPlan settings disabled changelog).map plan.publish.apply) ∧
      ∀ steps, publishedFromFile results steps = !plan.publish.isEmpty := by
  induction h with
  | build unflagged planned changelog calls =>
    rename_i plan
    refine ⟨plan, planned, ⟨changelog, rfl⟩, publishedFromFile_eq unflagged fun step hstep hflag => ?_⟩
    unfold runPublishSteps at hstep
    split at hstep
    · cases hstep
    · exact runUploads_flag hstep hflag
  | retry ran changelog calls retrySteps retried ih =>
    obtain ⟨plan, hplan, -, hflag⟩ := ih
    rw [hflag] at retried
    have hends := executeStepRetry_ends source (getJobPublishPlan settings disabled changelog) calls
      ⟨retrySteps, !plan.publish.isEmpty⟩
    rw [retried] at hends
    cases hends with
    | published fetch on unflagged read ran =>
      rw [StepRetryJob.filePublish_eq hplan] at read
      cases read
      refine ⟨plan, hplan, ⟨changelog, ?_⟩, publishedFromFile_eq unflagged fun step hstep hflag => ?_⟩
      · rw [fetch]
        rfl
      · subst ran
        exact runUploads_flag hstep hflag

/-! ## What a retry reaches -/

/-- A retry of a step of a build, by the settings and the file of the build, reaches what the build
ran with exactly when the settings turn on every store that it retries, or the build had no upload
for the step's store. Only a Google Play upload with its own service account can be refused and
yet have run. -/
theorem retry_reaches_iff {source : PlanSource} {settings : PublishSettings} {disabled : Bool}
    {results : List PublishStepResult} {original : Except Text EffectivePublish}
    (h : RanWith source settings disabled results original) (changelog : Option Text)
    (calls : RetryCalls) (retrySteps : List Text) (step : Text) :
    RetryReaches original (executeStepRetry source (getJobPublishPlan settings disabled changelog)
        calls ⟨retrySteps, publishedFromFile results retrySteps⟩) step ↔
      ∀ fetched plan, getJobPublishPlan settings disabled changelog = .ok fetched →
        resolveExecutionPlan source = .ok plan →
        (∀ retried ∈ retrySteps, fetched.turnsOn retried = true) ∨
          plan.publish.hasUpload fetched step = false := by
  obtain ⟨plan, hplan, ⟨before, horiginal⟩, hflag⟩ := h.decided
  rw [getJobPublishPlan_changelog settings disabled changelog before] at horiginal
  have hends := executeStepRetry_ends source (getJobPublishPlan settings disabled changelog) calls
    ⟨retrySteps, publishedFromFile results retrySteps⟩
  rw [hflag] at hends ⊢
  -- What the original run decided by, in terms of the settings that the retry gets.
  have hupload : ∀ fetched, getJobPublishPlan settings disabled changelog = .ok fetched →
      ∀ upload, UploadsWith original step upload ↔
        (plan.publish.apply fetched).storeConfig step = .ok (some upload) := by
    intro fetched hfetched upload
    rw [hfetched] at horiginal
    rw [horiginal, ← PlanPublish.storeConfig_changelog plan.publish fetched before]
    simp [UploadsWith, Except.map]
  generalize executeStepRetry source (getJobPublishPlan settings disabled changelog) calls
    ⟨retrySteps, !plan.publish.isEmpty⟩ = retry at hends
  cases hends with
  | settings fetch =>
    rw [fetch] at horiginal
    simp only [RetryReaches, fetch, horiginal]
    simp [UploadsWith, Except.map]
  | refused fetch retried off =>
    rename_i fetched refused
    simp only [RetryReaches, hupload _ fetch, fetch, hplan]
    constructor
    · rintro hnone fetched' plan' ⟨⟩ ⟨⟩
      right
      rw [← Bool.not_eq_true, PlanPublish.hasUpload_iff]
      exact fun ⟨upload, hsome⟩ => hnone upload hsome
    · intro hcondition upload hsome
      rcases hcondition fetched plan rfl rfl with hon | hno
      · rw [hon _ retried] at off
        cases off
      · rw [← Bool.not_eq_true, PlanPublish.hasUpload_iff] at hno
        exact hno ⟨upload, hsome⟩
  | checkout fetch on steps error =>
    refine iff_of_true trivial fun fetched' plan' hfetched hplan' => .inl ?_
    rw [fetch] at hfetched
    cases hfetched
    exact on
  | file read steps =>
    rw [StepRetryJob.filePublish_eq hplan] at read
    cases read
  | restore fetch on steps error =>
    refine iff_of_true trivial fun fetched' plan' hfetched hplan' => .inl ?_
    rw [fetch] at hfetched
    cases hfetched
    exact on
  | published fetch on unflagged read ran =>
    rename_i fetched _ _ run
    rw [StepRetryJob.filePublish_eq hplan] at read
    cases read
    refine iff_of_true ⟨⟨plan.publish.apply { fetched with changelog := before }, ?_, ?_⟩, ?_⟩
      fun fetched' plan' hfetched hplan' => .inl ?_
    · rw [horiginal, fetch]
      rfl
    · exact (PlanPublish.storeConfig_changelog plan.publish fetched before step).symm
    · rintro upload hmem rfl
      rw [hupload fetched fetch]
      subst ran
      exact runUploads_upload hmem
    · rw [fetch] at hfetched
      cases hfetched
      exact on

/-- A file that uploads to Google Play with a service account of its own. -/
def playFile : ConfigV2 where
  name := none
  app := ⟨none, []⟩
  targets := ⟨[(.android, ⟨some "make android", none, some (.on ⟨some ⟨"internal", none, none,
    some "PLAY_KEY"⟩, none, none⟩), none⟩)], by decide⟩
  steps := none
  env := .empty
  vars := .empty
  on := none
  workflows := .empty
  signing := .none
  runsOn := []
  isolation := .host
  buildNumberOffset := 0

/-- A checkout with that file. -/
def playSource : PlanSource :=
  { file := .ok (some (.v2 playFile)), requireRunnerLabels := fun _ => .ok ()
    uiConfig := .ok ⟨[.android], []⟩, selectedPlatforms := .ok none, workflow := none }

/-- Publish settings with no store turned on. -/
def noPublishSettings : PublishSettings := ⟨none, none, none⟩

theorem playSource_plan : ∃ plan, resolveExecutionPlan playSource = .ok plan ∧
    plan.publish.play = some ⟨⟨"internal", none, none, some "PLAY_KEY"⟩,
      "targets.android.publish.play", none⟩ := by
  have h : (resolveExecutionPlan playSource).toOption.any (fun plan => plan.publish.play = some
      ⟨⟨"internal", none, none, some "PLAY_KEY"⟩, "targets.android.publish.play", none⟩) = true := by
    decide +kernel
  obtain ⟨plan, hplan, hplay⟩ := Option.any_eq_true _ _ |>.mp h
  refine ⟨plan, ?_, of_decide_eq_true hplay⟩
  cases hresolve : resolveExecutionPlan playSource with
  | error error => rw [hresolve] at hplan; cases hplan
  | ok _ => rw [hresolve] at hplan; cases hplan; rfl

/-- The plan of that checkout. -/
def playPlan : PublishingPlan := (resolveExecutionPlan playSource).toOption.getD ⟨[], .none⟩

theorem resolveExecutionPlan_playSource : resolveExecutionPlan playSource = .ok playPlan := by
  obtain ⟨plan, hplan, -⟩ := playSource_plan
  simp [playPlan, hplan, Except.toOption]

/-- A retry whose artifacts are restored. -/
def restoredCalls : RetryCalls := ⟨.ok (), .ok (), ⟨fun _ => .ok (), fun _ => .ok (), false⟩⟩

theorem retry_reaches_with_settings :
    RetryReaches
      ((getJobPublishPlan ⟨some .fromFileDefaults, none, none⟩ false none).map
        playPlan.publish.apply)
      (executeStepRetry playSource
        (getJobPublishPlan ⟨some .fromFileDefaults, none, none⟩ false none) restoredCalls
        ⟨[publishPlayStep], publishedFromFile ([] ++ artifactsStepResult true playPlan.publish ::
          (runPublishSteps (getJobPublishPlan ⟨some .fromFileDefaults, none, none⟩ false none)
            ⟨fun _ => .error "quota exceeded", fun _ => .ok (), false⟩
            ⟨none, playPlan.publish, some playPlan.platforms⟩).steps) [publishPlayStep]⟩)
      publishPlayStep := by
  refine (retry_reaches_iff (.build (by simp) resolveExecutionPlan_playSource none
    ⟨fun _ => .error "quota exceeded", fun _ => .ok (), false⟩) none restoredCalls
    [publishPlayStep] publishPlayStep).mpr fun fetched plan hfetched _ => .inl fun step hstep => ?_
  cases hfetched
  rw [List.mem_singleton.mp hstep]
  rfl

/-- A retry of an upload that ran with the file's service account, without settings, is refused. -/
theorem retry_refused_with_own_account :
    ¬ ∀ (source : PlanSource) (settings : PublishSettings) (disabled : Bool)
      (results : List PublishStepResult) (original : Except Text EffectivePublish),
      RanWith source settings disabled results original →
      ∀ (changelog : Option Text) (calls : RetryCalls) (retrySteps : List Text),
      ∀ step ∈ retrySteps, RetryReaches original
        (executeStepRetry source (getJobPublishPlan settings disabled changelog) calls
          ⟨retrySteps, publishedFromFile results retrySteps⟩) step := by
  intro hall
  obtain ⟨plan, hplan, hplay⟩ := playSource_plan
  have hran : RanWith playSource noPublishSettings false _ _ := .build
    (show ∀ step ∈ ([] : List PublishStepResult), step.publishFromFile = false by simp) hplan none
    ⟨fun _ => .error "quota exceeded", fun _ => .ok (), false⟩
  have hrefused : ∀ upload, ¬ UploadsWith _ publishPlayStep upload :=
    hall _ _ _ _ _ hran none restoredCalls [publishPlayStep] publishPlayStep (by simp)
  refine hrefused (.googlePlay (PlayPublishSpec.alone ⟨"internal", none, none, some "PLAY_KEY"⟩
    "PLAY_KEY")) ⟨_, rfl, ?_⟩
  rw [EffectivePublish.storeConfig_play]
  show Except.map _ (applyPlay plan.publish.play none).1 = _
  rw [hplay]
  rfl

end OoreBuild
