import OoreBuild.Lib.F64
import OoreBuild.Lib.OrderedMap
import OoreBuild.Trigger

/-!
# Repository files and plans

The data model of a version 2 file (`ConfigV2`), as it is after decoding, and of the plan both
file versions lower to (`PipelinePlan`): the ordered, named steps a runner executes, plus the
build inputs around them.
-/

namespace OoreBuild

open Text

/-! ## Plans -/

inductive BuildPlatform where
  | android
  | ios
  | macos
  deriving DecidableEq, Repr

def platformKey : BuildPlatform → Text
  | .android => "android"
  | .ios => "ios"
  | .macos => "macos"

def platformTitle : BuildPlatform → Text
  | .android => "Android"
  | .ios => "iOS"
  | .macos => "macOS"

/-- Where a step sits relative to the platform builds. -/
inductive StepPhase where
  | preBuild
  | build
  | postBuild
  deriving DecidableEq, Repr

/-- One command the runner executes, under the name logs and checks show. -/
structure PlanStep where
  name : Text
  phase : StepPhase
  run : Text
  /-- Where the command came from in the configuration. -/
  source : Text
  /-- The target this step builds, for target build steps. -/
  platform : Option BuildPlatform
  flavor : Option Text
  /-- Test report the step writes. -/
  testReport : Option Text
  deriving DecidableEq, Repr

structure PipelineEnvVar where
  key : Text
  value : Text
  deriving DecidableEq, Repr

/-- Where a build's steps run. -/
inductive BuildIsolation where
  | host
  | vm
  deriving DecidableEq, Repr

inductive SizeBudgetMode where
  | warn
  | fail
  deriving DecidableEq, Repr

/-- Size limits for one kind of artifact. -/
structure SizeBudgetRule where
  kind : Text
  maxBytes : Option ℤ
  maxIncreaseBytes : Option ℤ
  maxIncreasePercent : Option F64
  deriving DecidableEq, Repr

structure SizeBudget where
  mode : SizeBudgetMode
  rules : List SizeBudgetRule
  deriving DecidableEq, Repr

/-- A size budget a file sets on one target. -/
structure TargetSizeBudget where
  platform : BuildPlatform
  /-- Where the budget came from. -/
  source : Text
  budget : SizeBudget
  deriving DecidableEq, Repr

inductive AppStoreDestination where
  | testflight
  | appStore
  deriving DecidableEq, Repr

structure PlayPublishSpec where
  track : Text
  /-- Initial staged rollout fraction. -/
  rollout : Option F64
  draft : Option Bool
  /-- Name of the secret holding the service account key. -/
  serviceAccount : Option Text
  deriving DecidableEq, Repr

structure TestflightPublishSpec where
  group : Text
  deriving DecidableEq, Repr

structure AppStorePublishSpec where
  destination : AppStoreDestination
  groups : List Text
  submitForReview : Option Bool
  phasedRelease : Option Bool
  deriving DecidableEq, Repr

/-- A store upload of a plan, with the field it came from. -/
structure PlannedPublish (α : Type) where
  spec : α
  source : Text
  /-- Why this upload cannot run; only its publish step fails. -/
  error : Option Text
  deriving DecidableEq, Repr

/-- Where a plan publishes. -/
structure PlanPublish where
  play : Option (PlannedPublish PlayPublishSpec)
  testflight : Option (PlannedPublish TestflightPublishSpec)
  appStore : Option (PlannedPublish AppStorePublishSpec)
  deriving DecidableEq, Repr

def PlanPublish.none : PlanPublish := ⟨.none, .none, .none⟩

/-- Names of identities in the project's credential library. -/
structure SigningSpec where
  android : Option Text
  ios : Option Text
  deriving DecidableEq, Repr

def SigningSpec.none : SigningSpec := ⟨.none, .none⟩

/-- The names of `upper` replace those of `spec`. -/
def SigningSpec.overlaid (spec : SigningSpec) (upper : Option SigningSpec) : SigningSpec :=
  let upper := upper.getD .none
  { android := upper.android.or spec.android, ios := upper.ios.or spec.ios }

/-- What a build runs. -/
structure PipelinePlan where
  workflow : Option Text
  platforms : List BuildPlatform
  flutterVersion : Option Text
  steps : List PlanStep
  env : List PipelineEnvVar
  artifactPatterns : List Text
  buildNumberOffset : ℤ
  runsOn : List Text
  isolation : BuildIsolation
  publish : PlanPublish
  signing : SigningSpec
  sizeBudgets : List TargetSizeBudget
  deriving DecidableEq, Repr

/-! ## Version 2 files -/

structure PublishSpec where
  play : Option PlayPublishSpec
  testflight : Option TestflightPublishSpec
  appStore : Option AppStorePublishSpec
  deriving DecidableEq, Repr

/-- A target's `publish`: where to upload, or `false` for nowhere. -/
inductive TargetPublish where
  | off
  | on (spec : PublishSpec)
  deriving DecidableEq, Repr

def TargetPublish.spec : TargetPublish → Option PublishSpec
  | .off => none
  | .on spec => some spec

structure TargetSpec where
  /-- The full build command. -/
  build : Option Text
  artifacts : Option (List Text)
  publish : Option TargetPublish
  budgets : Option SizeBudget
  deriving DecidableEq, Repr

structure StepReports where
  tests : Text
  deriving DecidableEq, Repr

structure InlineStep where
  name : Text
  run : Text
  reports : Option StepReports
  deriving DecidableEq, Repr

/-- One entry in a `steps` list. -/
inductive StepEntry where
  | build
  | ref (name : Text)
  | inline (step : InlineStep)
  deriving DecidableEq, Repr

structure AppSpec where
  flutter : Option Text
  /-- Flavor matrix. Each target builds once per flavor. -/
  flavors : List Text
  deriving DecidableEq, Repr

structure WorkflowSpec where
  on : Option TriggerSpec
  /-- Targets this workflow builds; `none` builds every top-level target. -/
  targets : Option (OrderedMap BuildPlatform TargetSpec)
  flavors : Option (List Text)
  steps : Option (List StepEntry)
  env : OrderedMap Text Text
  vars : OrderedMap Text Text
  signing : Option SigningSpec

/-- A `version: 2` file. -/
structure ConfigV2 where
  name : Option Text
  app : AppSpec
  targets : OrderedMap BuildPlatform TargetSpec
  steps : Option (List StepEntry)
  env : OrderedMap Text Text
  vars : OrderedMap Text Text
  on : Option TriggerSpec
  workflows : OrderedMap Text WorkflowSpec
  signing : SigningSpec
  runsOn : List Text
  isolation : BuildIsolation
  buildNumberOffset : ℤ

def ConfigV2.workflowNames (config : ConfigV2) : List Text := config.workflows.keys

/-! ## Values -/

/-- Whether a name can be used for a workflow or a flavor. -/
def isValidIdentifier (name : Text) : Bool :=
  (match name with
    | [] => false
    | first :: rest => isAsciiAlphanumeric first &&
        rest.all fun c => isAsciiAlphanumeric c || c == '_' || c == '-') &&
    byteLen name ≤ 64

def validateArtifactPattern (pattern : Text) : Except Text Unit :=
  let pattern := trim pattern
  if pattern.isEmpty then .error "must not be empty"
  else if 512 < byteLen pattern then .error "is too long (max 512 chars)"
  else if !(pattern.any fun c => c == '*' || c == '?') then .error "must contain '*' or '?'"
  else if '\\' ∈ pattern || startsWith pattern "/" then
    .error "must be a workspace-relative path using '/' separators"
  else if (split (· = '/') pattern).any fun part =>
      part.isEmpty || part = "." || part = ".." then
    .error "must not contain empty, '.' or '..' path segments"
  else .ok ()

def validateRepositoryConfigPath (path : Text) : Except Text Unit :=
  let path := trim path
  if path.isEmpty then .error "must not be empty"
  else if 512 < byteLen path then .error "is too long (max 512 chars)"
  else if startsWith path "/" then .error "must be a repository-relative path"
  else if '\\' ∈ path then .error "must use '/' separators"
  else if (split (· = '/') path).any fun part => part.isEmpty || part = "." || part = ".." then
    .error "must not contain empty, '.' or '..' path segments"
  else .ok ()

def maxStoreVersionCode : ℤ := 2100000000

def validateBuildNumberOffset (offset : ℤ) : Except Text Unit :=
  if 0 ≤ offset && offset < maxStoreVersionCode then .ok ()
  else .error ("must be between 0 and " ++ ofInt (maxStoreVersionCode - 1))

def maxRunnerLabels : ℕ := 32

def maxRunnerLabelLength : ℕ := 64

/-- Lowercase a label and check its characters. -/
def normalizeRunnerLabel (label : Text) : Except Text Text :=
  let label := toAsciiLowercase (trim label)
  if label.isEmpty || maxRunnerLabelLength < byteLen label then
    .error ("label must be between 1 and " ++ ofNat maxRunnerLabelLength ++ " characters")
  else if !(label.all fun c =>
      isAsciiLowercase c || isAsciiDigit c || c == '.' || c == '_' || c == '-') then
    .error ("label '" ++ label ++ "' may only contain letters, digits, '.', '_' and '-'")
  else .ok label

/-- The order of strings, by their characters. UTF-8 keeps it. -/
def textLe : Text → Text → Bool
  | [], _ => true
  | _ :: _, [] => false
  | a :: as, b :: bs => if a = b then textLe as bs else a < b

/-- Drop an element that equals the one before it. -/
def dedup : List Text → List Text
  | [] => []
  | [a] => [a]
  | a :: b :: rest => if a = b then dedup (b :: rest) else a :: dedup (b :: rest)

/-- Normalize, de-duplicate and sort a label list. -/
def normalizeRunnerLabels (labels : List Text) : Except Text (List Text) :=
  if maxRunnerLabels < labels.length then
    .error ("at most " ++ ofNat maxRunnerLabels ++ " labels are allowed")
  else match labels.mapM normalizeRunnerLabel with
    | .error error => .error error
    | .ok normalized => .ok (dedup (normalized.mergeSort textLe))

def isValidPlayTrack (track : Text) : Bool :=
  !track.isEmpty && byteLen track ≤ 128 &&
    track.all fun c => isAsciiAlphanumeric c || c == '-' || c == '_' || c == ':'

def defaultArtifactPatternsForPlatforms (platforms : List BuildPlatform) : List Text :=
  (if .android ∈ platforms then
    [("build/app/outputs/flutter-apk/*.apk" : Text), ("build/app/outputs/bundle/**/*.aab" : Text)]
  else []) ++
  (if .ios ∈ platforms then [("build/ios/ipa/*.ipa" : Text)] else []) ++
  (if .macos ∈ platforms then [("build/macos/Build/Products/Release/*.app" : Text)] else [])

end OoreBuild
