import OoreBuild.Resolver
import OoreBuild.Validate

/-!
# Lowering a version 2 file

`lower` turns one workflow of a file into the plan that a build runs: it overlays the workflow on
the top-level settings, keeps the selected platforms, and resolves every command, value, pattern
and upload. `parse` checks a file and lowers each of its workflows once, so that reference errors
surface before a build runs; `plan` lowers the one that is built.
-/

namespace OoreBuild

open Text

/-- Work and errors while a workflow is lowered. -/
structure LowerState where
  work : Work
  errors : List Text
  deriving DecidableEq, Repr

/-- Lowering, which may end early with the errors of a limit. -/
abbrev LowerM := Run LowerState (List Text)

/-- Note an error, once. -/
def report (error : Text) : LowerM Unit :=
  Run.update fun s => { s with errors := pushUnique s.errors error }

/-- Note these errors. -/
def pushErrors (errors : List Text) : LowerM Unit :=
  Run.update fun s => { s with errors := s.errors ++ errors }

/-- End with the errors noted so far, if there are any. -/
def endOnErrors : LowerM Unit := fun s =>
  if s.errors.isEmpty then (.ok (), s) else (.error s.errors, s)

/-- Run the resolver. -/
def withResolver (x : Run Work Text Text) : LowerM (Except Text Text) := fun s =>
  (.ok (x s.work).1, { s with work := (x s.work).2 })

/-- An error of a field that must resolve: it is noted, and a limit ends the lowering. -/
def reportUnresolved (error : Text) : LowerM Unit :=
  if isLimitError error then Run.fail [error] else report error

/-- A field that must resolve, and what is done with its text. -/
def resolveRequired {α : Type} (vars : List (Text × Text)) (text : Text) (scope : FlavorScope)
    (path : Text) (next : Text → LowerM α) (otherwise : α) : LowerM α := do
  let result ← withResolver (resolve vars text scope path)
  match result with
  | .ok resolved => next resolved
  | .error error =>
    reportUnresolved error
    return otherwise

/-! ## Settings of the workflow -/

/-- A var or an environment value, with the path it came from. -/
structure Setting where
  key : Text
  value : Text
  path : Text
  deriving DecidableEq, Repr

/-- A setting replaces the one of its key, in its place. -/
def overlaySetting (settings : List Setting) (new : Setting) : List Setting :=
  match settings.findIdx? fun setting => setting.key = new.key with
  | some index => settings.set index new
  | none => settings ++ [new]

/-- The settings of a map, under a path. -/
def settingsAt (path : Text) (map : OrderedMap Text Text) : List Setting :=
  map.entries.map fun (key, value) => ⟨key, value, path ++ "." ++ key⟩

namespace ConfigV2

/-- The workflow to lower: the named one, or the only one. -/
def selectWorkflow (config : ConfigV2) (name : Option Text) :
    Except Text (Option (Text × WorkflowSpec)) :=
  match name with
  | some name =>
    match config.workflows.entries.find? fun entry => entry.1 = name with
    | some entry => .ok (some entry)
    | none =>
      if config.workflows.isEmpty then
        .error ("workflow '" ++ name ++ "' is not defined; this file defines no workflows")
      else .error ("workflow '" ++ name ++ "' is not defined; this file defines [" ++
        join ", " config.workflowNames ++ "]")
  | none =>
    match config.workflows.entries with
    | [] => .ok none
    | [entry] => .ok (some entry)
    | _ => .error ("this file defines workflows [" ++ join ", " config.workflowNames ++
        "]; choose one for the pipeline")

end ConfigV2

/-- A workflow that is lowered, with its name. -/
abbrev Selected := Option (Text × WorkflowSpec)

/-- The path of the workflow, for those of its fields. -/
def workflowPrefix (selected : Selected) : Text :=
  selected.elim [] fun entry => "workflows." ++ entry.1 ++ "."

/-- Vars: the workflow's replace the top-level ones by name. -/
def varSettings (config : ConfigV2) (selected : Selected) : List Setting :=
  selected.elim (settingsAt "vars" config.vars) fun entry =>
    (settingsAt (workflowPrefix selected ++ "vars") entry.2.vars).foldl overlaySetting
      (settingsAt "vars" config.vars)

/-- Env: the workflow's replace the top-level values by key. -/
def envSettings (config : ConfigV2) (selected : Selected) : List Setting :=
  selected.elim (settingsAt "env" config.env) fun entry =>
    (settingsAt (workflowPrefix selected ++ "env") entry.2.env).foldl overlaySetting
      (settingsAt "env" config.env)

/-- The vars a resolver is made of. -/
def varsOf (settings : List Setting) : List (Text × Text) :=
  settings.map fun setting => (setting.key, setting.value)

/-- Check every var. One that passes a limit ends this, as vars built on it would pass it again. -/
def validateVars (vars : List (Text × Text)) : List Setting → LowerM Unit
  | [] => pure ()
  | setting :: rest => do
    let result ← withResolver
      (resolveFrom vars setting.value validationScope setting.path [setting.key])
    match result with
    | .ok _ => validateVars vars rest
    | .error error =>
      report error
      if isLimitError error then pure () else validateVars vars rest

/-! ## Targets -/

/-- A target as the workflow builds it, each part with the path it came from. -/
structure EffectiveTarget where
  platform : BuildPlatform
  build : Text
  buildSource : Text
  artifacts : Option (List Text × Text)
  publish : Option (PublishSpec × Text)
  budgets : Option (SizeBudget × Text)
  deriving DecidableEq, Repr

/-- A top-level target, if it has a build. -/
def topLevelTarget (entry : BuildPlatform × TargetSpec) : Option EffectiveTarget :=
  let (platform, spec) := entry
  spec.build.map fun build =>
    { platform, build, buildSource := targetPath platform ++ ".build"
      artifacts := spec.artifacts.map (·, targetPath platform ++ ".artifacts")
      publish := (spec.publish.bind TargetPublish.spec).map (·, targetPath platform ++ ".publish")
      budgets := spec.budgets.map (·, targetPath platform ++ ".budgets") }

/-- The workflow's value with its path, else the top-level one. -/
def orTopLevel {α : Type} (upper lower : Option α) (upperPath lowerPath : Text) :
    Option (α × Text) :=
  match upper, lower with
  | some value, _ => some (value, upperPath)
  | none, some value => some (value, lowerPath)
  | none, none => none

/-- A target of the workflow over the top-level one. -/
def overlaidTarget (config : ConfigV2) (pre : Text) (entry : BuildPlatform × TargetSpec) :
    Except Text EffectiveTarget :=
  let (platform, spec) := entry
  let base := config.targets.get platform
  let upper := pre ++ targetPath platform
  let lower := targetPath platform
  match orTopLevel spec.build (base.bind (·.build)) (upper ++ ".build") (lower ++ ".build") with
  | none => .error (upper ++ " needs a build command, because there is no top-level " ++ lower)
  | some (build, buildSource) => .ok
    { platform, build, buildSource
      artifacts := orTopLevel spec.artifacts (base.bind (·.artifacts)) (upper ++ ".artifacts")
        (lower ++ ".artifacts")
      -- the top-level publish uploads what the top-level build makes, so it applies only while
      -- the workflow keeps it
      publish := match spec.publish with
        | some publish => publish.spec.map (·, upper ++ ".publish")
        | none =>
          if spec.build.isNone then
            ((base.bind (·.publish)).bind TargetPublish.spec).map (·, lower ++ ".publish")
          else none
      budgets := orTopLevel spec.budgets (base.bind (·.budgets)) (upper ++ ".budgets")
        (lower ++ ".budgets") }

/-- The targets of the workflow, and those it has no build for. -/
def effectiveTargets (config : ConfigV2) (selected : Selected) :
    List EffectiveTarget × List Text :=
  match selected.bind fun entry => entry.2.targets with
  | some overrides =>
    let results := overrides.entries.map (overlaidTarget config (workflowPrefix selected))
    (results.filterMap Except.toOption,
      results.filterMap fun result => match result with
        | .error error => some error
        | .ok _ => none)
  | none => (config.targets.entries.filterMap topLevelTarget, [])

/-- Keep the selected platforms. -/
def selectPlatforms (targets : List EffectiveTarget) (selected : Option (List BuildPlatform)) :
    List EffectiveTarget × List Text :=
  match selected with
  | none => (targets, [])
  | some selected =>
    if selected.isEmpty then
      (targets, ["selected_platforms must include at least one target"])
    else if !selected.Nodup || selected.any fun platform =>
        !(targets.any fun target => target.platform = platform) then
      (targets, ["selected_platforms must be unique and configured by the workflow"])
    else (targets.filter fun target => selected.contains target.platform, [])

def workflowFlavors (config : ConfigV2) (selected : Selected) : List Text :=
  (selected.bind fun entry => entry.2.flavors).getD config.app.flavors

/-- Each flavor that is built, with its scope. -/
def flavorScopes (flavors : List Text) : List (Option Text × FlavorScope) :=
  if flavors.isEmpty then [(none, .noFlavors)]
  else flavors.zipIdx.map fun (flavor, index) => (some flavor, .value (index + 1) flavor)

/-! ## Store uploads -/

/-- A field of an upload takes vars but no secrets. -/
def checkUpload (fieldPath : Text) : Except Text Text → Except Text Text
  | .error error => .error error
  | .ok resolved =>
    if contains (trim resolved) opening then
      .error (fieldPath ++ " cannot use $\x7b\x7b secrets.NAME \x7d\x7d; only vars are resolved here")
    else if (trim resolved).isEmpty then
      .error (fieldPath ++ " is empty once its vars are resolved")
    else .ok (trim resolved)

/-- Resolve a field of an upload. -/
def resolveUpload (vars : List (Text × Text)) (path value field : Text) :
    LowerM (Except Text Text) := do
  let fieldPath := path ++ "." ++ field
  let result ← withResolver (resolve vars value .outside fieldPath)
  return checkUpload fieldPath result

/-- Problems with an upload fail only its step, but a limit ends the lowering. -/
def endOnLimit (error : Option Text) : LowerM Unit :=
  if error.any isLimitError then Run.fail [error.getD []] else pure ()

/-- An upload with one field to resolve, and what is wrong with it. -/
def resolvePlanned {α : Type} (vars : List (Text × Text)) (path value field : Text)
    (errorOf : Except Text Text → Option Text)
    (make : Except Text Text → Option Text → PlannedPublish α) : LowerM (PlannedPublish α) := do
  let resolved ← resolveUpload vars path value field
  endOnLimit (errorOf resolved)
  return make resolved (errorOf resolved)

def playError (path : Text) (flavorError : Option Text) : Except Text Text → Option Text
  | .error error => some error
  | .ok track =>
    if !isValidPlayTrack track then some (path ++ ".play.track '" ++ track ++
      "' must be internal, closed, open, production, or a custom track name")
    else flavorError

def publishPlay (vars : List (Text × Text)) (path : Text) (flavorError : Option Text)
    (play : PlayPublishSpec) : LowerM (PlannedPublish PlayPublishSpec) :=
  resolvePlanned vars path play.track "play.track" (playError path flavorError) fun track error =>
    { spec := { play with track := track.toOption.getD (trim play.track) }
      source := path ++ ".play", error }

def testflightError (path : Text) (flavorError : Option Text) : Except Text Text → Option Text
  | .error error => some error
  | .ok group =>
    if ',' ∈ group then some (path ++ ".testflight.group '" ++ group ++
      "' must be one group name, without commas")
    else if toAsciiLowercase group = "app_store" then
      some (path ++ ".testflight.group cannot be named app_store")
    else if maxTestflightGroupLength < group.length then
      some (path ++ ".testflight.group is longer than " ++ ofNat maxTestflightGroupLength ++
        " characters")
    else flavorError

def publishTestflight (vars : List (Text × Text)) (path : Text) (flavorError : Option Text)
    (testflight : TestflightPublishSpec) : LowerM (PlannedPublish TestflightPublishSpec) :=
  resolvePlanned vars path testflight.group "testflight.group" (testflightError path flavorError)
    fun group error =>
      { spec := { group := group.toOption.getD (trim testflight.group) }
        source := path ++ ".testflight", error }

/-- The groups so far, and the first error. -/
structure Groups where
  groups : List Text
  error : Option Text
  deriving DecidableEq, Repr

/-- A resolved group is kept, or its error is, if it is the first. -/
def Groups.push (groups : Groups) (path : Text) (index : ℕ) : Except Text Text → Groups
  | .error error => { groups with error := groups.error.or (some error) }
  | .ok group =>
    if ',' ∈ group then { groups with
      error := groups.error.or (some (atIndex (path ++ ".app_store.groups") index ++ " '" ++ group ++
        "' must be one group name, without commas")) }
    else if maxTestflightGroupLength < group.length then { groups with
      error := groups.error.or (some (atIndex (path ++ ".app_store.groups") index ++
        " is longer than " ++ ofNat maxTestflightGroupLength ++ " characters")) }
    else { groups with groups := groups.groups ++ [group] }

/-- Resolve one group. -/
def resolveGroup (vars : List (Text × Text)) (path : Text) (found : Groups) (group : Text × ℕ) :
    LowerM Groups := do
  let result ← resolveUpload vars path group.1 (atIndex "app_store.groups" group.2)
  return found.push path group.2 result

def resolveGroups (vars : List (Text × Text)) (path : Text) (groups : List Text) :
    LowerM Groups :=
  Run.foldEach (resolveGroup vars path) ⟨[], none⟩ groups.zipIdx

def publishAppStore (vars : List (Text × Text)) (path : Text) (flavorError : Option Text)
    (appStore : AppStorePublishSpec) : LowerM (PlannedPublish AppStorePublishSpec) := do
  let found ← resolveGroups vars path appStore.groups
  endOnLimit (found.error.or flavorError)
  return { spec := { appStore with groups := found.groups }
           source := path ++ ".app_store", error := found.error.or flavorError }

/-- Lower the upload, if there is one. -/
def orKeep {α β : Type} (value : Option α) (f : α → LowerM β) (kept : Option β) :
    LowerM (Option β) :=
  match value with
  | some a => do
    let b ← f a
    return some b
  | none => pure kept

/-- Each store takes one build, so several flavors are an error of the upload. -/
def flavorError (flavors : List Text) (flavorsPath path : Text) : Option Text :=
  if 1 < flavors.length then
    some (path ++ " uploads one build, but " ++ flavorsPath ++ " builds " ++ ofNat flavors.length ++
      " flavors (" ++ join ", " flavors ++
      "); narrow it with `flavors: [<one flavor>]` on the workflow")
  else none

def publishTarget (vars : List (Text × Text)) (flavors : List Text) (flavorsPath : Text)
    (publish : PlanPublish) (target : EffectiveTarget) : LowerM PlanPublish :=
  match target.publish with
  | none => pure publish
  | some (spec, path) => do
    let flavorError := flavorError flavors flavorsPath path
    let play ← orKeep spec.play (publishPlay vars path flavorError) publish.play
    let testflight ← orKeep spec.testflight (publishTestflight vars path flavorError)
      publish.testflight
    let appStore ← orKeep spec.appStore (publishAppStore vars path flavorError) publish.appStore
    return { play, testflight, appStore }

def planPublish (vars : List (Text × Text)) (flavors : List Text) (flavorsPath : Text)
    (targets : List EffectiveTarget) : LowerM PlanPublish :=
  Run.foldEach (publishTarget vars flavors flavorsPath) .none targets

/-! ## Steps -/

def buildName (target : EffectiveTarget) (flavor : Option Text) : Text :=
  match flavor with
  | some flavor => "Build " ++ platformTitle target.platform ++ " (" ++ flavor ++ ")"
  | none => "Build " ++ platformTitle target.platform

/-- The build of a target for a flavor. -/
def lowerBuild (vars : List (Text × Text)) (target : EffectiveTarget)
    (flavor : Option Text × FlavorScope) : LowerM (List PlanStep) :=
  resolveRequired vars target.build flavor.2 target.buildSource (fun run => pure [{
    name := buildName target flavor.1
    phase := .build
    run := trim run
    source := target.buildSource
    platform := some target.platform
    flavor := flavor.1
    testReport := none }]) []

/-- The builds of a target, one per flavor. -/
def targetBuilds (vars : List (Text × Text)) (scopes : List (Option Text × FlavorScope))
    (target : EffectiveTarget) : LowerM (List PlanStep) := do
  let builds ← Run.forEach (lowerBuild vars target) scopes
  return builds.flatten

/-- Target builds, one per platform and flavor. -/
def lowerBuilds (vars : List (Text × Text)) (scopes : List (Option Text × FlavorScope))
    (targets : List EffectiveTarget) : LowerM (List PlanStep) := do
  let builds ← Run.forEach (targetBuilds vars scopes) targets
  return builds.flatten

/-- The steps so far: the builds that are not placed yet, and the names in use. -/
structure StepList where
  steps : List PlanStep
  builds : List PlanStep
  names : List Text
  placed : Bool
  deriving DecidableEq, Repr

/-- The step an entry runs, with its path. A reference means the first top-level step of the
name; unknown ones have been reported by the checks. -/
def stepOf (shared : List StepEntry) (entriesPath : Text) (index : ℕ) :
    StepEntry → Option (InlineStep × Text)
  | .build => none
  | .inline step => some (step, atIndex entriesPath index)
  | .ref name =>
    shared.zipIdx.findSome? fun (entry, sharedIndex) =>
      match entry with
      | .inline step =>
        if trim step.name = trim name then some (step, atIndex "steps" sharedIndex) else none
      | _ => none

/-- A step with a name that is not in use. -/
def lowerInline (vars : List (Text × Text)) (list : StepList) (step : InlineStep) (source : Text) :
    LowerM StepList :=
  let runPath := source ++ ".run"
  let list := { list with names := trim step.name :: list.names }
  resolveRequired vars step.run .outside runPath (fun run => pure { list with
    steps := list.steps ++ [{
      name := trim step.name
      phase := if list.placed then .postBuild else .preBuild
      run := trim run
      source := runPath
      platform := none
      flavor := none
      testReport := step.reports.map fun reports => trim reports.tests }] }) list

/-- The next entry. -/
def lowerEntry (vars : List (Text × Text)) (shared : List StepEntry) (entriesPath : Text)
    (buildNames : List Text) (list : StepList) (entry : StepEntry × ℕ) : LowerM StepList :=
  if entry.1 = .build then
    pure { list with steps := list.steps ++ list.builds, builds := [], placed := true }
  else match stepOf shared entriesPath entry.2 entry.1 with
    | none => pure list
    | some (step, source) =>
      if trim step.name ∈ list.names then do
        report (atIndex entriesPath entry.2 ++ " name '" ++ trim step.name ++ "' " ++
          (if trim step.name ∈ buildNames then "is the name of a target build step"
            else "is used by another step"))
        return list
      else lowerInline vars list step source

/-- The steps around the target builds, which come last where no entry places them. -/
def lowerSteps (vars : List (Text × Text)) (config : ConfigV2) (selected : Selected)
    (builds : List PlanStep) : LowerM (List PlanStep) := do
  let shared := config.steps.getD []
  let (entries, entriesPath) := match selected.bind fun entry => entry.2.steps with
    | some steps => (steps, workflowPrefix selected ++ "steps")
    | none => (shared, "steps")
  let buildNames := builds.map PlanStep.name
  let list ← Run.foldEach (lowerEntry vars shared entriesPath buildNames)
    { steps := [], builds, names := buildNames, placed := false } entries.zipIdx
  return if list.placed then list.steps else list.steps ++ list.builds

/-! ## Environment and artifacts -/

def lowerEnv (vars : List (Text × Text)) (setting : Setting) : LowerM (List PipelineEnvVar) :=
  resolveRequired vars setting.value .outside setting.path
    (fun value => pure [{ key := trim setting.key, value := trim value }]) []

/-- The artifact patterns of a target, with their path: its own, or the platform's. -/
def targetPatterns (target : EffectiveTarget) : List Text × Text :=
  target.artifacts.getD (defaultArtifactPatternsForPlatforms [target.platform], [])

/-- A resolved pattern is taken once. Only secret references are left after resolving, and patterns
are matched as written. -/
def addPattern (path : Text) (found : List Text) (pattern : Text) : LowerM (List Text) :=
  if contains pattern opening then do
    report (path ++
      " cannot use $\x7b\x7b secrets.NAME \x7d\x7d; artifact patterns are matched as written")
    return found
  else match validateArtifactPattern pattern with
    | .error error => do
      report (path ++ " " ++ error)
      return found
    | .ok () => pure (if pattern ∈ found then found else found ++ [pattern])

/-- A pattern for a flavor. -/
def lowerPattern (vars : List (Text × Text)) (path : Text) (pattern : Text × ℕ)
    (found : List Text) (flavor : Option Text × FlavorScope) : LowerM (List Text) :=
  resolveRequired vars pattern.1 flavor.2 (atIndex path pattern.2)
    (fun resolved => addPattern (atIndex path pattern.2) found (trim resolved)) found

/-- The patterns of a target, for every flavor. -/
def targetArtifacts (vars : List (Text × Text)) (scopes : List (Option Text × FlavorScope))
    (found : List Text) (target : EffectiveTarget) : LowerM (List Text) :=
  Run.foldEach (fun found pattern =>
    Run.foldEach (lowerPattern vars (targetPatterns target).2 pattern) found scopes)
    found (targetPatterns target).1.zipIdx

/-- Artifacts, per target and flavor. -/
def lowerArtifacts (vars : List (Text × Text)) (scopes : List (Option Text × FlavorScope))
    (targets : List EffectiveTarget) : LowerM (List Text) :=
  Run.foldEach (targetArtifacts vars scopes) [] targets

/-! ## Lowering -/

/-- What is lowered for the chosen targets. -/
structure Lowered where
  publish : PlanPublish
  steps : List PlanStep
  env : List PipelineEnvVar
  artifacts : List Text
  deriving DecidableEq, Repr

/-- Lower the uploads, the steps, the environment and the artifacts. -/
def lowerTargets (config : ConfigV2) (selected : Selected) (vars : List (Text × Text))
    (targets : List EffectiveTarget) : LowerM Lowered := do
  let flavors := workflowFlavors config selected
  let flavorsPath := if (selected.bind fun entry => entry.2.flavors).isSome then
    workflowPrefix selected ++ "flavors" else "app.flavors"
  let publish ← planPublish vars flavors flavorsPath targets
  let builds ← lowerBuilds vars (flavorScopes flavors) targets
  let steps ← lowerSteps vars config selected builds
  let env ← Run.forEach (lowerEnv vars) (envSettings config selected)
  let artifacts ← lowerArtifacts vars (flavorScopes flavors) targets
  endOnErrors
  return { publish, steps, env := env.flatten, artifacts }

/-- The plan, with the settings that need no resolution. -/
def planOf (config : ConfigV2) (selected : Selected) (targets : List EffectiveTarget)
    (lowered : Lowered) : PipelinePlan :=
  { workflow := selected.map Prod.fst
    platforms := targets.map EffectiveTarget.platform
    flutterVersion := config.app.flutter.map trim
    steps := lowered.steps
    env := lowered.env
    artifactPatterns := lowered.artifacts
    buildNumberOffset := config.buildNumberOffset
    runsOn := (normalizeRunnerLabels config.runsOn).toOption.getD []
    isolation := config.isolation
    publish := lowered.publish
    signing := config.signing.overlaid (selected.bind fun entry => entry.2.signing)
    sizeBudgets := targets.filterMap fun target => target.budgets.map fun (budget, source) =>
      { platform := target.platform, source, budget } }

/-- Lower a workflow for the selected platforms. -/
def ConfigV2.lower (config : ConfigV2) (workflow : Option Text)
    (selectedPlatforms : Option (List BuildPlatform)) (validate : Bool) : LowerM PipelinePlan := do
  match config.selectWorkflow workflow with
  | .error error => Run.fail [error]
  | .ok selected =>
    let settings := varSettings config selected
    let vars := varsOf settings
    validateVars vars (if validate then settings else [])
    endOnErrors
    let (targets, missingBuilds) := effectiveTargets config selected
    pushErrors missingBuilds
    let (targets, selectionErrors) := selectPlatforms targets selectedPlatforms
    pushErrors selectionErrors
    let lowered ← lowerTargets config selected vars targets
    return planOf config selected targets lowered

/-! ## Parsing and planning -/

/-- Lowering from a budget. -/
def LowerState.start (budget : Budget) : LowerState := ⟨⟨budget, []⟩, []⟩

def Budget.fresh : Budget := ⟨0, 0⟩

namespace ConfigV2

/-- Vars only need checking where a workflow changes them. -/
def needsVarCheck (config : ConfigV2) (index : ℕ) (workflow : Option Text) : Bool :=
  index = 0 || (workflow.bind config.workflows.get).any fun spec => !spec.vars.isEmpty

/-- The workflows a file is checked for. -/
def parsedWorkflows (config : ConfigV2) : List (Option Text) :=
  if config.workflows.isEmpty then [none] else config.workflowNames.map some

/-- The errors of lowering the workflows from an index on, on one budget. -/
def workflowErrors (config : ConfigV2) : ℕ → List (Option Text) → Budget → List Text → List Text
  | _, [], _, errors => errors
  | index, workflow :: rest, budget, errors =>
    match config.lower workflow none (config.needsVarCheck index workflow)
        (LowerState.start budget) with
    | (.ok _, s) => config.workflowErrors (index + 1) rest s.work.budget errors
    | (.error planErrors, s) =>
      let errors := planErrors.foldl pushUnique errors
      if planErrors.any isLimitError then errors
      else config.workflowErrors (index + 1) rest s.work.budget errors

/-- Check a decoded file: its shape, then every workflow's plan. -/
def parse (config : ConfigV2) : Except Text ConfigV2 :=
  if !config.sizeErrors.isEmpty then .error (join "\n" config.sizeErrors)
  else
    let errors := if config.shapeErrors.isEmpty then
        config.workflowErrors 0 config.parsedWorkflows .fresh []
      else config.shapeErrors
    if !errors.isEmpty then .error (join "\n" errors)
    else (normalizeRunnerLabels config.runsOn).map fun runsOn => { config with runsOn }

/-- Plan one workflow. Parsing checked every var already. -/
def plan (config : ConfigV2) (workflow : Option Text)
    (selectedPlatforms : Option (List BuildPlatform)) : Except Text PipelinePlan :=
  (config.lower workflow selectedPlatforms false (LowerState.start .fresh)).1.mapError (join "\n")

end ConfigV2

end OoreBuild
