import OoreBuild.Config
import OoreBuild.Expression

/-!
# Checks of a version 2 file

The checks that need no reference resolution: counts and lengths over the limits that keep the
rest cheap (`sizeErrors`), and the shape of each part (`shapeErrors`). Each check gives the
errors it finds, with the path of the field.
-/

namespace OoreBuild

open Text

/-! ## Limits -/

def maxStepNameLength : ℕ := 100

def maxTestflightGroupLength : ℕ := 128

def maxSecretNameLength : ℕ := 128

def maxWorkflows : ℕ := 32

def maxFlavors : ℕ := 32

def maxSteps : ℕ := 100

def maxArtifactPatterns : ℕ := 64

def maxEnvEntries : ℕ := 128

def maxVars : ℕ := 128

def maxTriggerPatterns : ℕ := 64

/-- Longest `run` or `build` command as written. -/
def maxCommandBytes : ℕ := 32 * 1024

/-- Longest artifact pattern as written, before vars are expanded. -/
def maxRawPatternBytes : ℕ := 2048

/-- Most errors reported for one file. -/
def maxErrors : ℕ := 50

def pushUnique (errors : List Text) (error : Text) : List Text :=
  if errors.length < maxErrors ∧ error ∉ errors then errors ++ [error] else errors

def errorIf (wrong : Bool) (error : Text) : List Text := if wrong then [error] else []

theorem errorIf_eq_nil {wrong : Bool} {error : Text} : errorIf wrong error = [] ↔ wrong = false := by
  cases wrong <;> simp [errorIf]

/-- The path of an element. -/
def atIndex (path : Text) (index : ℕ) : Text := path ++ "[" ++ ofNat index ++ "]"

def targetPath (platform : BuildPlatform) : Text := "targets." ++ platformKey platform

/-! ## Sizes -/

def countError (path : Text) (length max : ℕ) (what : Text) : List Text :=
  errorIf (max < length)
    (path ++ " has " ++ ofNat length ++ " " ++ what ++ "; the limit is " ++ ofNat max)

def workflowCounts (path : Text) (workflow : WorkflowSpec) : List Text :=
  (workflow.flavors.elim [] fun flavors =>
    countError (path ++ ".flavors") flavors.length maxFlavors "flavors") ++
  countError (path ++ ".env") workflow.env.entries.length maxEnvEntries "entries" ++
  countError (path ++ ".vars") workflow.vars.entries.length maxVars "vars" ++
  (workflow.steps.elim [] fun steps =>
    countError (path ++ ".steps") steps.length maxSteps "steps")

def targetSizeErrors (path : Text) (target : TargetSpec) : List Text :=
  (target.build.elim [] fun build => errorIf (maxCommandBytes < byteLen build)
    (path ++ ".build is longer than " ++ ofNat (maxCommandBytes / 1024) ++ " KiB")) ++
  target.artifacts.elim [] fun patterns =>
    if maxArtifactPatterns < patterns.length then
      [path ++ ".artifacts has " ++ ofNat patterns.length ++ " patterns; the limit is " ++
        ofNat maxArtifactPatterns]
    else match patterns.findIdx? fun pattern => maxRawPatternBytes < byteLen pattern with
      | some index => [atIndex (path ++ ".artifacts") index ++ " is longer than " ++
          ofNat maxRawPatternBytes ++ " characters"]
      | none => []

def stepSizeErrors (path : Text) (entries : List StepEntry) : List Text :=
  (entries.zipIdx.take maxSteps).flatMap fun (entry, index) =>
    match entry with
    | .inline step => errorIf (maxCommandBytes < byteLen step.run)
        (atIndex path index ++ ".run is longer than " ++ ofNat (maxCommandBytes / 1024) ++ " KiB")
    | _ => []

def branchCount : Option BranchTrigger → ℕ
  | some (.branches branches) => branches.length
  | _ => 0

def triggerSizeErrors (path : Text) (on : TriggerSpec) : List Text :=
  [(("push.branches" : Text), branchCount on.push),
    (("pull_request.branches" : Text), branchCount on.pullRequest), (("tag" : Text), on.tag.length),
    (("paths" : Text), on.paths.length)].flatMap fun (field, length) =>
      errorIf (maxTriggerPatterns < length) (path ++ "." ++ field ++ " has " ++ ofNat length ++
        " patterns; the limit is " ++ ofNat maxTriggerPatterns)

namespace ConfigV2

/-- The workflows whose sizes are looked at, with their paths. -/
def sizedWorkflows (config : ConfigV2) : List (Text × WorkflowSpec) :=
  (config.workflows.entries.take maxWorkflows).map fun (name, workflow) =>
    ("workflows." ++ name, workflow)

/-- Counts and lengths over the limits that keep validation cheap. -/
def sizeErrors (config : ConfigV2) : List Text :=
  let targets := (config.targets.entries.map fun (platform, target) =>
      (targetPath platform, target)) ++
    config.sizedWorkflows.flatMap fun (path, workflow) =>
      workflow.targets.elim [] fun overrides => overrides.entries.map fun (platform, target) =>
        (path ++ "." ++ targetPath platform, target)
  let steps := (config.steps.toList.map fun entries => (("steps" : Text), entries)) ++
    config.sizedWorkflows.flatMap fun (path, workflow) =>
      workflow.steps.toList.map fun entries => (path ++ ".steps", entries)
  let triggers := (config.on.toList.map fun on => (("on" : Text), on)) ++
    config.sizedWorkflows.flatMap fun (path, workflow) =>
      workflow.on.toList.map fun on => (path ++ ".on", on)
  (countError "workflows" config.workflows.entries.length maxWorkflows "workflows" ++
    countError "app.flavors" config.app.flavors.length maxFlavors "flavors" ++
    countError "env" config.env.entries.length maxEnvEntries "entries" ++
    countError "vars" config.vars.entries.length maxVars "vars" ++
    (config.steps.elim [] fun steps => countError "steps" steps.length maxSteps "steps") ++
    (config.sizedWorkflows.flatMap fun (path, workflow) => workflowCounts path workflow) ++
    (targets.flatMap fun (path, target) => targetSizeErrors path target) ++
    (steps.flatMap fun (path, entries) => stepSizeErrors path entries) ++
    triggers.flatMap fun (path, on) => triggerSizeErrors path on).take maxErrors

end ConfigV2

/-! ## Shape -/

def invalidIdentifier : Text :=
  "must start with a letter or digit and use only letters, digits, '-' and '_' (max 64 chars)"

/-- The flavors from an index on, after those of `seen`. -/
def checkFlavorsFrom (path : Text) (allowed : Option (List Text)) :
    ℕ → List Text → List Text → List Text
  | _, _, [] => []
  | index, seen, flavor :: rest =>
    if !isValidIdentifier flavor then
      (atIndex path index ++ " " ++ invalidIdentifier) ::
        checkFlavorsFrom path allowed (index + 1) seen rest
    else if flavor ∈ seen then
      (path ++ " contains duplicate flavor '" ++ flavor ++ "'") ::
        checkFlavorsFrom path allowed (index + 1) seen rest
    else
      errorIf (allowed.any fun allowed => !allowed.contains flavor)
          (atIndex path index ++ " '" ++ flavor ++ "' is not one of app.flavors") ++
        checkFlavorsFrom path allowed (index + 1) (flavor :: seen) rest

def checkFlavorList (path : Text) (flavors : List Text) (allowed : Option (List Text)) :
    List Text :=
  checkFlavorsFrom path allowed 0 [] flavors ++
    errorIf (allowed.isSome && flavors.isEmpty)
      (path ++ " must not be empty; omit it to build every flavor")

def SizeBudgetRule.hasLimit (rule : SizeBudgetRule) : Bool :=
  rule.maxBytes.isSome || rule.maxIncreaseBytes.isSome || rule.maxIncreasePercent.isSome

/-- The rules of a budget, after those for the kinds of `seen`. -/
def checkRules (field : Text) : List Text → List SizeBudgetRule → List Text
  | _, [] => []
  | seen, rule :: rest =>
    if rule.kind.isEmpty || 16 < rule.kind.length ||
        !(rule.kind.all fun c => isAsciiLowercase c || isAsciiDigit c) then
      (field ++ " kind '" ++ rule.kind ++
        "' must be a lowercase file extension such as aab, apk or ipa") ::
        checkRules field seen rest
    else
      errorIf (rule.kind ∈ seen) (field ++ " lists kind '" ++ rule.kind ++ "' more than once") ++
      errorIf (!rule.hasLimit) (field ++ " rule for '" ++ rule.kind ++ "' needs a limit") ++
      errorIf (rule.maxBytes.any (· ≤ 0))
        (field ++ " max_bytes for '" ++ rule.kind ++ "' must be greater than 0") ++
      errorIf (rule.maxIncreaseBytes.any (· < 0))
        (field ++ " max_increase_bytes for '" ++ rule.kind ++ "' must be 0 or more") ++
      errorIf (rule.maxIncreasePercent.any fun percent =>
          !percent.isFinite || F64.lt percent (.finite 0))
        (field ++ " max_increase_percent for '" ++ rule.kind ++ "' must be 0 or more") ++
      checkRules field (rule.kind :: seen) rest

def SizeBudget.validateAt (budget : SizeBudget) (field : Text) : List Text :=
  errorIf (20 < budget.rules.length) (field ++ " allows at most " ++ ofNat 20 ++ " rules") ++
    checkRules field [] budget.rules

/-- The platform that builds artifacts of a kind, where only one does. -/
def kindPlatform (kind : Text) : Option BuildPlatform :=
  if kind = "aab" ∨ kind = "apk" then some .android
  else if kind = "ipa" then some .ios
  else none

def validateSecretName (name : Text) : Except Text Unit :=
  if name.isEmpty then .error "must not be empty"
  else if maxSecretNameLength < byteLen name then
    .error ("is too long (max " ++ ofNat maxSecretNameLength ++ " chars)")
  else if !isValidPipelineEnvKey name then .error "must match [A-Za-z_][A-Za-z0-9_]*"
  else .ok ()

def checkPlay (path : Text) (platform : BuildPlatform) (play : PlayPublishSpec) : List Text :=
  errorIf (platform ≠ .android) (path ++ ".publish.play is only available for android") ++
  errorIf (trim play.track).isEmpty (path ++ ".publish.play.track must not be empty") ++
  errorIf (play.rollout.any fun rollout =>
      !(F64.lt (.finite 0) rollout && F64.le rollout (.finite 1)))
    (path ++ ".publish.play.rollout must be greater than 0 and at most 1 (0.05 is 5%)")

def checkTestflight (path : Text) (platform : BuildPlatform)
    (testflight : TestflightPublishSpec) : List Text :=
  errorIf (platform ≠ .ios) (path ++ ".publish.testflight is only available for ios") ++
  errorIf (trim testflight.group).isEmpty (path ++ ".publish.testflight.group must not be empty")

def checkServiceAccount (path : Text) (play : PlayPublishSpec) : List Text :=
  errorIf (play.serviceAccount.any fun name => !(validateSecretName (trim name)).isOk)
    (path ++ ".publish.play.service_account must be a secret name such as PLAY_SERVICE_ACCOUNT")

def checkAppStore (path : Text) (platform : BuildPlatform) (publish : PublishSpec)
    (appStore : AppStorePublishSpec) : List Text :=
  errorIf (platform ≠ .ios) (path ++ ".publish.app_store is only available for ios") ++
  errorIf publish.testflight.isSome (path ++
    ".publish sets both testflight and app_store; use app_store with destination testflight") ++
  (match appStore.destination with
    | .testflight => errorIf (appStore.submitForReview.isSome || appStore.phasedRelease.isSome)
        (path ++ ".publish.app_store.submit_for_review and phased_release apply to destination app_store only")
    | .appStore => errorIf (!appStore.groups.isEmpty)
        (path ++ ".publish.app_store.groups applies to destination testflight only")) ++
  errorIf (appStore.groups.any fun group => (trim group).isEmpty)
    (path ++ ".publish.app_store.groups must not hold empty names")

def checkPublish (path : Text) (platform : BuildPlatform) (publish : PublishSpec) : List Text :=
  (publish.play.elim [] (checkPlay path platform)) ++
  (publish.testflight.elim [] (checkTestflight path platform)) ++
  (publish.play.elim [] (checkServiceAccount path)) ++
  (publish.appStore.elim [] (checkAppStore path platform publish)) ++
  errorIf (publish.play.isNone && publish.testflight.isNone && publish.appStore.isNone)
    (path ++ ".publish must set play, testflight or app_store")

def checkBudgets (path : Text) (platform : BuildPlatform) (budgets : SizeBudget) : List Text :=
  let field := path ++ ".budgets"
  budgets.validateAt field ++ budgets.rules.flatMap fun rule =>
    (kindPlatform rule.kind).elim [] fun kindPlatform => errorIf (kindPlatform ≠ platform)
      (field ++ " kind '" ++ rule.kind ++ "' is only built by the " ++ platformKey kindPlatform ++
        " target")

def checkTarget (path : Text) (platform : BuildPlatform) (target : TargetSpec) : List Text :=
  errorIf (target.build.any fun build => (trim build).isEmpty)
    (path ++ ".build must not be empty") ++
  errorIf (target.artifacts.any List.isEmpty)
    (path ++ ".artifacts must not be empty; omit it to use the platform defaults") ++
  (target.budgets.elim [] (checkBudgets path platform)) ++
  ((target.publish.bind TargetPublish.spec).elim [] (checkPublish path platform))

/-- Why a step's name cannot be used, before it is compared with the others. -/
def stepNameError (path name : Text) : Option Text :=
  if name.isEmpty then some (path ++ ".name must not be empty")
  else if maxStepNameLength < byteLen name then
    some (path ++ ".name is too long (max " ++ ofNat maxStepNameLength ++ " chars)")
  else if name.any isControl then some (path ++ ".name must be a single line")
  else none

def checkStepBody (path : Text) (step : InlineStep) : List Text :=
  errorIf (trim step.run).isEmpty (path ++ ".run must not be empty") ++
  step.reports.elim [] fun reports =>
    let tests := trim reports.tests
    match validateRepositoryConfigPath tests with
    | .error error => [path ++ ".reports.tests " ++ error]
    | .ok () => errorIf (!(endsWith tests ".json" || endsWith tests ".xml"))
        (path ++ ".reports.tests must be a .json (dart test) or .xml (JUnit) file")

/-- Whether the entry is the step a reference means. -/
def StepEntry.isNamed (name : Text) : StepEntry → Bool
  | .inline step => trim step.name = trim name
  | _ => false

/-- The entries from an index on, after `builds` build entries and the steps of `names`. -/
def checkStepsFrom (path : Text) (shared : Option (List StepEntry)) :
    ℕ → ℕ → List Text → List StepEntry → List Text
  | _, _, _, [] => []
  | index, builds, names, .build :: rest =>
    errorIf (builds + 1 = 2) (atIndex path index ++ ": build may appear only once") ++
      checkStepsFrom path shared (index + 1) (builds + 1) names rest
  | index, builds, names, .ref name :: rest =>
    match shared with
    | none =>
      (atIndex path index ++ ": '" ++ name ++
        "' is not a step; give a step as `name` and `run`, or use `build` to place the targets") ::
        checkStepsFrom path shared (index + 1) builds names rest
    | some entries =>
      if !(entries.any (StepEntry.isNamed name)) then
        (atIndex path index ++ " refers to step '" ++ name ++
          "', which is not defined in the top-level steps") ::
          checkStepsFrom path shared (index + 1) builds names rest
      else if trim name ∈ names then
        (atIndex path index ++ ": step '" ++ name ++ "' appears more than once") ::
          checkStepsFrom path shared (index + 1) builds names rest
      else checkStepsFrom path shared (index + 1) builds (trim name :: names) rest
  | index, builds, names, .inline step :: rest =>
    let name := trim step.name
    match stepNameError (atIndex path index) name with
    | some error => error :: checkStepBody (atIndex path index) step ++
        checkStepsFrom path shared (index + 1) builds names rest
    | none =>
      if name ∈ names then
        (atIndex path index ++ " name '" ++ name ++ "' is used by another step") ::
          checkStepBody (atIndex path index) step ++
          checkStepsFrom path shared (index + 1) builds names rest
      else checkStepBody (atIndex path index) step ++
        checkStepsFrom path shared (index + 1) builds (name :: names) rest

/-- `shared` is the top-level step list when a workflow's steps are checked. -/
def checkSteps (path : Text) (steps : List StepEntry) (shared : Option (List StepEntry)) :
    List Text :=
  checkStepsFrom path shared 0 0 [] steps

def checkKeys (path : Text) (map : OrderedMap Text Text) : List Text :=
  map.keys.flatMap fun key => errorIf (!isValidPipelineEnvKey key)
    (path ++ "." ++ key ++ " must match [A-Za-z_][A-Za-z0-9_]*")

def checkBlank (path : Text) (values : List Text) : List Text :=
  values.zipIdx.flatMap fun (value, index) =>
    errorIf (trim value).isEmpty (atIndex path index ++ " must not be empty")

def checkBranches (path field : Text) (trigger : Option BranchTrigger) : List Text :=
  match trigger with
  | some (.branches branches) =>
    errorIf branches.isEmpty (path ++ "." ++ field ++ ".branches must not be empty; use `" ++
      field ++ ": true` for every branch") ++
    checkBlank (path ++ "." ++ field ++ ".branches") branches
  | _ => []

def checkTriggers (path : Text) (on : TriggerSpec) : List Text :=
  checkBranches path "push" on.push ++ checkBranches path "pull_request" on.pullRequest ++
    checkBlank (path ++ ".tag") on.tag ++ checkBlank (path ++ ".paths") on.paths

namespace ConfigV2

def checkWorkflowTarget (config : ConfigV2) (path : Text) (platform : BuildPlatform)
    (target : TargetSpec) : List Text :=
  let targetPath := path ++ "." ++ targetPath platform
  errorIf (target.build.isNone && (config.targets.get platform).isNone)
    (targetPath ++ " needs a build command, because there is no top-level targets." ++
      platformKey platform) ++
  checkTarget targetPath platform target

def checkWorkflow (config : ConfigV2) (name : Text) (workflow : WorkflowSpec) : List Text :=
  let path := "workflows." ++ name
  errorIf (!isValidIdentifier name) (path ++ ": workflow names " ++ invalidIdentifier) ++
  (workflow.on.elim [] (checkTriggers (path ++ ".on"))) ++
  (workflow.targets.elim [] fun targets =>
    errorIf targets.isEmpty (path ++ ".targets must not be empty") ++
    targets.entries.flatMap fun (platform, target) =>
      config.checkWorkflowTarget path platform target) ++
  (workflow.flavors.elim [] fun flavors =>
    checkFlavorList (path ++ ".flavors") flavors (some config.app.flavors)) ++
  (workflow.steps.elim [] fun steps =>
    checkSteps (path ++ ".steps") steps (some (config.steps.getD []))) ++
  checkKeys (path ++ ".env") workflow.env ++
  checkKeys (path ++ ".vars") workflow.vars

def checkTopLevelTarget (platform : BuildPlatform) (target : TargetSpec) : List Text :=
  errorIf target.build.isNone (targetPath platform ++ ".build is required") ++
  checkTarget (targetPath platform) platform target

/-- Errors that need no reference resolution. -/
def shapeErrors (config : ConfigV2) : List Text :=
  errorIf (config.app.flutter.any fun flutter => (trim flutter).isEmpty)
    "app.flutter must not be empty" ++
  checkFlavorList "app.flavors" config.app.flavors none ++
  errorIf (config.targets.isEmpty && !(config.workflows.entries.any fun (_, workflow) =>
      workflow.targets.any fun targets => !targets.isEmpty))
    "targets must define at least one of android, ios or macos" ++
  (config.targets.entries.flatMap fun (platform, target) =>
    checkTopLevelTarget platform target) ++
  (config.steps.elim [] fun steps => checkSteps "steps" steps none) ++
  checkKeys "env" config.env ++
  checkKeys "vars" config.vars ++
  (config.on.elim [] (checkTriggers "on")) ++
  (config.workflows.entries.flatMap fun (name, workflow) => config.checkWorkflow name workflow) ++
  (match validateBuildNumberOffset config.buildNumberOffset with
    | .error error => ["build_number_offset " ++ error]
    | .ok () => []) ++
  (match normalizeRunnerLabels config.runsOn with
    | .error error => ["runs_on " ++ error]
    | .ok _ => [])

end ConfigV2

end OoreBuild
