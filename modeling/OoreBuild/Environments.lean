import OoreBuild.BuildCreation
import OoreBuild.Release

/-!
# Project environments

An environment names a store target (store and track), the rollout policy of the releases promoted
into it, whether a promotion needs an approval, and who approves. This module has the rows, the
checks and the single statements that read and write them; `Promotions` has the calls they make up.

The audit log, the release history and the published events are only written, never read, and are
left out, as are the columns that no statement here reads.
-/

namespace OoreBuild

open Text

/-! ## Roles -/

inductive ProjectRole where
  | maintainer
  | developer
  | viewer
  deriving DecidableEq, Repr

inductive EffectiveProjectRole where
  /-- An owner or admin of the instance. -/
  | instanceAdmin
  | member (role : ProjectRole)
  | none
  deriving DecidableEq, Repr

inductive ProjectPermission where
  | read
  | operateRelease
  | manageReleases
  deriving DecidableEq, Repr

def roleHasPermission : ProjectRole → ProjectPermission → Bool
  | .maintainer, _ => true
  | .developer, .read | .developer, .operateRelease => true
  | .developer, .manageReleases => false
  | .viewer, .read => true
  | .viewer, _ => false

def checkProjectPermission (role : EffectiveProjectRole) (permission : ProjectPermission) : Bool :=
  match role with
  | .instanceAdmin => true
  | .member role => roleHasPermission role permission
  | .none => false

/-- The lowest project role that may approve. -/
inductive ApproverRole where
  | maintainer
  | developer
  deriving DecidableEq, Repr

structure EnvironmentApprover where
  userId : Text
  email : Text
  deriving DecidableEq, Repr

/-- Who may approve promotions into an environment; without a role and users, any maintainer. -/
structure EnvironmentApprovers where
  role : Option ApproverRole
  users : List EnvironmentApprover
  deriving DecidableEq, Repr

/-- Why a caller may decide a promotion. -/
inductive ApprovalBasis where
  | instanceAdmin
  | maintainer
  | approverRole
  | namedApprover
  deriving DecidableEq, Repr

def roleMeets : ProjectRole → ApproverRole → Bool
  | role, .maintainer => role = .maintainer
  | role, .developer => role = .maintainer || role = .developer

def approversSet (approvers : EnvironmentApprovers) : Bool :=
  approvers.role.isSome || !approvers.users.isEmpty

/-- Whether the caller may approve or reject promotions into an environment with these approvers,
and why. -/
def approvalBasis (role : EffectiveProjectRole) (userId : Text) (approvers : EnvironmentApprovers) :
    Option ApprovalBasis :=
  match role with
  | .instanceAdmin => some .instanceAdmin
  | .none => none
  | .member memberRole =>
    if !approversSet approvers then
      if checkProjectPermission role .manageReleases then some .maintainer else none
    else if approvers.role.any (roleMeets memberRole) then some .approverRole
    else if approvers.users.any (·.userId = userId) && checkProjectPermission role .operateRelease then
      some .namedApprover
    else none

/-! ## Errors -/

inductive EnvironmentError where
  | notFound (message : Text)
  | invalid (message : Text)
  | forbidden (message : Text)
  | conflict (code message : Text)
  | store (error : Text)
  | db
  deriving DecidableEq, Repr

/-! ## Validation -/

def maxEnvironments : ℕ := 12

def maxNameLen : ℕ := 64

def maxKeyLen : ℕ := 32

/-- Named approvers one environment may have. -/
def maxApprovers : ℕ := 20

def cleanReason (reason : Option Text) : Option Text :=
  ((reason.map trim).filter (· ≠ [])).map (·.take maxReasonLen)

def validateKey (key : Text) : Except EnvironmentError Text :=
  let key := trim key
  if key ≠ [] && byteLen key ≤ maxKeyLen && key.head?.any isAsciiLowercase &&
      key.all (fun c => isAsciiLowercase c || isAsciiDigit c || c = '-') then .ok key
  else .error (.invalid ("key must be 1 to " ++ ofNat maxKeyLen ++
    " lowercase letters, digits or dashes, starting with a letter"))

def validateName (name : Text) : Except EnvironmentError Text :=
  let name := trim name
  if name = [] || maxNameLen < name.length then
    .error (.invalid ("name must be 1 to " ++ ofNat maxNameLen ++ " characters"))
  else .ok name

def validateTrack (store : ReleaseStore) (track : Text) : Except EnvironmentError Text :=
  let track := trim track
  match store with
  | .googlePlay =>
    if track ≠ [] && byteLen track ≤ 128 &&
        track.all (fun c => isAsciiAlphanumeric c || c = '-' || c = '_' || c = ':') then .ok track
    else .error (.invalid
      "track must be internal, closed, open, production, or a custom track name")
  | .appStore =>
    if track ≠ [] && byteLen track ≤ 256 then .ok track
    else .error (.invalid
      "track must name the App Store track, such as app_store or a TestFlight group")

/-- The App Store track of App Store versions. -/
def appStoreTrack : Text := "app_store"

def validateSubmitForReview (store : ReleaseStore) (track : Text) (submitForReview : Bool) :
    Except EnvironmentError Unit :=
  if submitForReview && (store ≠ .appStore || track ≠ appStoreTrack) then
    .error (.invalid
      "submit_for_review applies only to App Store environments on the app_store track")
  else .ok ()

namespace ReleasePolicy

/-- A fraction above 0, up to 1. -/
def isStep (step : F64) : Bool :=
  step.isFinite && (F64.finite 0).lt step && step.le (.finite 1)

def validate (policy : ReleasePolicy) : Except Text Unit :=
  if policy.steps.isEmpty then .error "policy.steps must not be empty"
  else if !policy.steps.all isStep then .error "policy.steps must be fractions in (0, 1]"
  else if (policy.steps.zip policy.steps.tail).any fun pair => pair.2.le pair.1 then
    .error "policy.steps must be strictly ascending"
  else if !policy.steps.getLast?.any (F64.eq (.finite 1)) then
    .error "policy.steps must end at 1"
  else if !policy.intervalHours.isFinite || policy.intervalHours.le (.finite 0) then
    .error "policy.interval_hours must be greater than zero"
  else if policy.crashRateThreshold.any (fun limit => !isStep limit) then
    .error "policy.crash_rate_threshold must be a fraction in (0, 1]"
  else .ok ()

end ReleasePolicy

/-- The message with `policy.`, which each has once, read as `rollout_policy.`. -/
def policyMessage (message : Text) : Text :=
  match splitFirst "policy." message with
  | some (before, after) => before ++ "rollout_policy." ++ after
  | none => message

def validatePolicy (policy : ReleasePolicy) : Except EnvironmentError Unit :=
  match policy.validate with
  | .error message => .error (.invalid (policyMessage message))
  | .ok () =>
    if policy.approval ≠ .none then .error (.invalid
      "rollout_policy.approval must be none; use approval_required on the environment")
    else .ok ()

/-- Approvers to set on an environment. -/
structure EnvironmentApproversInput where
  role : Option ApproverRole
  userIds : List Text
  deriving DecidableEq, Repr

/-- Approvers to store: the role and the user ids without repeats. Maintainers with nobody named
are stored as no approvers. -/
def normalizeApprovers (input : EnvironmentApproversInput) :
    Except EnvironmentError (Option ApproverRole × List Text) :=
  let userIds := input.userIds.map trim
  if userIds.any (· = []) then
    .error (.invalid "approvers.user_ids must not contain empty ids")
  else
    let userIds := userIds.reverse.dedup.reverse
    if maxApprovers < userIds.length then
      .error (.invalid ("an environment can name at most " ++ ofNat maxApprovers ++ " approvers"))
    else .ok (if input.role = some .maintainer && userIds.isEmpty then none else input.role, userIds)

/-! ## Rows -/

/-- An environment; `approvers.users` is empty in the row and filled in when it is loaded. -/
structure ProjectEnvironment where
  id : ℕ
  projectId : Text
  key : Text
  name : Text
  position : ℤ
  store : ReleaseStore
  track : Text
  approvalRequired : Bool
  approvers : EnvironmentApprovers
  rolloutPolicy : ReleasePolicy
  submitForReview : Bool
  deriving DecidableEq, Repr

/-- A member of a project, with the user's address. -/
structure Member where
  projectId : Text
  userId : Text
  role : ProjectRole
  email : Text
  deriving DecidableEq, Repr

def Member.key (member : Member) : Text × Text := (member.projectId, member.userId)

/-- A release row, with the environment it is in and the release it was promoted from. -/
structure ProjectRelease where
  id : ℕ
  projectId : Text
  buildId : ℕ
  store : ReleaseStore
  track : Text
  versionCode : Option ℤ
  state : ReleaseState
  rolloutFraction : F64
  policy : ReleasePolicy
  createdAt : ℤ
  environmentId : Option ℕ
  promotedFromReleaseId : Option ℕ
  /-- The build that was found for it in App Store Connect. -/
  ascBuildId : Option Text
  deriving DecidableEq, Repr

inductive PromotionState where
  | pending
  | promoting
  | completed
  | rejected
  | failed
  deriving DecidableEq, Repr

/-- A request to put a build into an environment. -/
structure EnvironmentPromotion where
  id : ℕ
  projectId : Text
  buildId : ℕ
  environmentId : ℕ
  sourceReleaseId : ℕ
  releaseId : Option ℕ
  state : PromotionState
  reason : Option Text
  decisionReason : Option Text
  error : Option Text
  requestedBy : Text
  decidedBy : Option Text
  deriving DecidableEq, Repr

/-- The locks of the process: of a build and its target environment, and of the one store slot
that the builds of an environment share. -/
inductive LockKey where
  | promotion (buildId environmentId : ℕ)
  | slot (environmentId : ℕ)
  deriving DecidableEq, Repr

/-! ## The tables -/

/-- A store call as it was made. -/
structure StoreCall where
  promotionId : ℕ
  /-- The promotion had been approved by then. -/
  approved : Bool
  deriving DecidableEq, Repr

/-- A state that a statement wrote over another. -/
structure PromotionChange where
  promotionId : ℕ
  source : PromotionState
  target : PromotionState
  deriving DecidableEq, Repr

/-- A promotion that left the waiting stage. -/
structure PromotionStart where
  promotionId : ℕ
  /-- The environment required no approval then, or the deciding actor was one of its approvers. -/
  allowed : Bool
  deriving DecidableEq, Repr

/-- What became of a promotion that the store accepted. -/
structure PromotionOutcome where
  promotionId : ℕ
  recorded : Bool
  /-- The row of the promotion has the failure. -/
  failureKept : Bool
  deriving DecidableEq, Repr

/-- What happened so far; no statement reads it. -/
structure PromotionHistory where
  storeCalls : List StoreCall := []
  /-- Promotions that were created as pending, and those that were approved. -/
  createdPending : List ℕ := []
  approved : List ℕ := []
  changes : List PromotionChange := []
  starts : List PromotionStart := []
  outcomes : List PromotionOutcome := []

structure Board where
  environments : Table ProjectEnvironment.id
  /-- Named approvers: environment and user. -/
  approvers : List (ℕ × Text)
  members : Table Member.key
  builds : Table Build.id
  releases : Table ProjectRelease.id
  promotions : Table EnvironmentPromotion.id
  /-- The ids from here on are not taken. -/
  nextId : ℕ
  /-- The locks that are held. -/
  held : List LockKey
  history : PromotionHistory

/-! ## Environments -/

/-- The named approvers who are still developers or maintainers of the project, by address. -/
def namedApprovers (s : Board) (environment : ProjectEnvironment) : List EnvironmentApprover :=
  let users := (s.approvers.filter (·.1 = environment.id)).filterMap fun named =>
    (s.members.find (environment.projectId, named.2)).bind fun member =>
      if member.role = .viewer then none else some ⟨member.userId, member.email⟩
  users.mergeSort fun a b => a.email ≤ b.email

def fillApprovers (s : Board) (environment : ProjectEnvironment) : ProjectEnvironment :=
  { environment with
    approvers := { environment.approvers with users := namedApprovers s environment } }

/-- The row of an environment of the project. -/
def environmentRow (s : Board) (projectId : Text) (environmentId : ℕ) :
    Except EnvironmentError ProjectEnvironment :=
  match s.environments.find environmentId with
  | some environment =>
    if environment.projectId = projectId then .ok environment
    else .error (.notFound "Environment not found")
  | none => .error (.notFound "Environment not found")

/-- Every named approver is a developer or maintainer of the project. -/
def checkApproverMembers (s : Board) (projectId : Text) : List Text → Except EnvironmentError Unit
  | [] => .ok ()
  | userId :: userIds =>
    match s.members.find (projectId, userId) with
    | none => .error (.invalid ("approvers.user_ids: " ++ userId ++
        " is not a member of this project"))
    | some member =>
      if member.role = .viewer then .error (.invalid ("approvers.user_ids: " ++ member.email ++
        " is a viewer; approvers must be developers or maintainers"))
      else checkApproverMembers s projectId userIds

/-- Replace the named approvers of an environment. -/
def storeApprovers (approvers : List (ℕ × Text)) (environmentId : ℕ) (userIds : List Text) :
    List (ℕ × Text) :=
  approvers.filter (·.1 ≠ environmentId) ++ userIds.map (environmentId, ·)

structure CreateProjectEnvironmentRequest where
  key : Text
  name : Text
  store : ReleaseStore
  track : Text
  approvalRequired : Bool
  rolloutPolicy : ReleasePolicy
  submitForReview : Bool
  approvers : Option EnvironmentApproversInput
  deriving DecidableEq, Repr

/-- Another environment of the project has the key, or the store and track. -/
def environmentTaken (s : Board) (projectId : Text) (self : Option ℕ) (key : Text)
    (store : ReleaseStore) (track : Text) : Bool :=
  s.environments.rows.any fun other => other.projectId = projectId && some other.id ≠ self &&
    (other.key = key || (other.store = store && other.track = track))

def environmentsOf (s : Board) (projectId : Text) : List ProjectEnvironment :=
  s.environments.rows.filter (·.projectId = projectId)

/-- The next id is not taken. -/
def Board.addEnvironment (s : Board) (environment : ProjectEnvironment) (userIds : List Text) :
    Option Board :=
  if h : environment.id ∉ s.environments.rows.map ProjectEnvironment.id then
    some { s with
      environments := s.environments.insert environment h
      approvers := storeApprovers s.approvers environment.id userIds
      nextId := s.nextId + 1 }
  else none

def createEnvironment (s : Board) (projectId : Text) (request : CreateProjectEnvironmentRequest) :
    Except EnvironmentError Board := do
  let key ← validateKey request.key
  let name ← validateName request.name
  let track ← validateTrack request.store request.track
  validatePolicy request.rolloutPolicy
  validateSubmitForReview request.store track request.submitForReview
  let (approverRole, userIds) ← request.approvers.elim (.ok (none, [])) normalizeApprovers
  if maxEnvironments ≤ (environmentsOf s projectId).length then
    throw (.invalid ("a project can have at most " ++ ofNat maxEnvironments ++ " environments"))
  checkApproverMembers s projectId userIds
  if environmentTaken s projectId none key request.store track then
    throw (.conflict "environment_exists"
      "Another environment already uses this key, or this store and track")
  match s.addEnvironment
    { id := s.nextId, projectId, key, name
      position := ((environmentsOf s projectId).map (·.position + 1)).foldr max 0
      store := request.store, track
      approvalRequired := request.approvalRequired
      approvers := ⟨approverRole, []⟩
      rolloutPolicy := request.rolloutPolicy
      submitForReview := request.submitForReview } userIds with
  | some s => return s
  | none => throw .db

structure UpdateProjectEnvironmentRequest where
  name : Option Text
  track : Option Text
  approvalRequired : Option Bool
  rolloutPolicy : Option ReleasePolicy
  submitForReview : Option Bool
  position : Option ℤ
  approvers : Option EnvironmentApproversInput
  deriving DecidableEq, Repr

/-- The name and track of an update. -/
def updatedTarget (current : ProjectEnvironment) (request : UpdateProjectEnvironmentRequest) :
    Except EnvironmentError (Text × Text) := do
  let name ← request.name.elim (.ok current.name) validateName
  let track ← request.track.elim (.ok current.track) (validateTrack current.store)
  return (name, track)

/-- The row that an update writes over another. -/
def updatedRow (current : ProjectEnvironment) (name track : Text) (policy : ReleasePolicy)
    (approvalRequired submitForReview : Bool) (position : ℤ) (approverRole : Option ApproverRole)
    (row : ProjectEnvironment) : ProjectEnvironment :=
  if row.projectId = current.projectId then
    { row with
      name, track, approvalRequired, submitForReview, position
      rolloutPolicy := policy
      approvers := ⟨approverRole, row.approvers.users⟩ }
  else row

@[simp]
theorem updatedRow_id (current : ProjectEnvironment) (name track : Text) (policy : ReleasePolicy)
    (approvalRequired submitForReview : Bool) (position : ℤ) (approverRole : Option ApproverRole)
    (row : ProjectEnvironment) :
    (updatedRow current name track policy approvalRequired submitForReview position approverRole
      row).id = row.id := by
  unfold updatedRow
  split <;> rfl

/-- The checks and the transaction that end an update of the environment that was loaded. -/
def commitUpdate (s : Board) (current : ProjectEnvironment) (name track : Text)
    (request : UpdateProjectEnvironmentRequest) : Except EnvironmentError Board := do
  let policy := request.rolloutPolicy.getD current.rolloutPolicy
  validatePolicy policy
  let approvalRequired := request.approvalRequired.getD current.approvalRequired
  let submitForReview := request.submitForReview.getD current.submitForReview
  validateSubmitForReview current.store track submitForReview
  let position := request.position.getD current.position
  if position < 0 then throw (.invalid "position must not be negative")
  let approvers ← request.approvers.elim (.ok none) fun input => (normalizeApprovers input).map some
  let approverRole := approvers.elim current.approvers.role (·.1)
  checkApproverMembers s current.projectId ((approvers.map (·.2)).getD [])
  if (s.environments.find current.id).isSome && environmentTaken s current.projectId
      (some current.id) current.key current.store track then
    throw (.conflict "environment_exists"
      "Another environment already uses this store and track")
  -- approvers refer to their environment
  if (s.environments.find current.id).isNone && approvers.any (!·.2.isEmpty) then throw .db
  return { s with
    environments := s.environments.modify current.id
      (updatedRow current name track policy approvalRequired submitForReview position approverRole)
      (updatedRow_id current name track policy approvalRequired submitForReview position approverRole)
    approvers := approvers.elim s.approvers fun stored =>
      storeApprovers s.approvers current.id stored.2 }

/-- Delete an environment: its promotions go with it, and its releases lose it. -/
def Board.removeEnvironment (s : Board) (environmentId : ℕ) : Board :=
  { s with
    environments := s.environments.erase environmentId
    approvers := s.approvers.filter (·.1 ≠ environmentId)
    promotions := s.promotions.filter (·.environmentId ≠ environmentId)
    releases := s.releases.mapRows (fun release =>
      { release with
        environmentId := release.environmentId.filter (· ≠ environmentId) }) fun _ => rfl }

/-! ## Promotions -/

/-- `UPDATE environment_promotions` of the rows that meet a condition. -/
def Board.updatePromotions (s : Board) (p : EnvironmentPromotion → Bool)
    (f : EnvironmentPromotion → EnvironmentPromotion) (hf : ∀ row, (f row).id = row.id) : Board :=
  { s with
    promotions := s.promotions.mapRows (fun row => if p row then f row else row)
      (by
        intro row
        split
        · exact hf row
        · rfl)
    history := { s.history with
      changes := s.history.changes ++
        (s.promotions.rows.filter p).map fun row => ⟨row.id, row.state, (f row).state⟩ } }

/-- The row of a promotion that failed. -/
def failedRow (message : Text) (row : EnvironmentPromotion) : EnvironmentPromotion :=
  { row with state := .failed, error := some message }

@[simp]
theorem failedRow_id (message : Text) (row : EnvironmentPromotion) :
    (failedRow message row).id = row.id := rfl

def Board.markFailed (s : Board) (promotionId : ℕ) (message : Text) : Board :=
  s.updatePromotions (·.id = promotionId) (failedRow message) (failedRow_id message)

def stalePromoting : Text :=
  "Oore stopped before it recorded the outcome; check Play Console or App Store Connect"

def environmentDeleted : Text := "environment deleted"

def interruptedByRestart : Text :=
  "Interrupted by daemon restart; check Play Console or App Store Connect before promoting again"

/-- Mark every `promoting` row failed, when no promotion can be under way. -/
def failInterruptedPromotions (s : Board) : Board :=
  s.updatePromotions (·.state = .promoting) (failedRow interruptedByRestart)
    (failedRow_id interruptedByRestart)

/-- The state, fraction and store fraction a promoted release starts at. -/
def initialRollout (environment : ProjectEnvironment) : ReleaseState × F64 × Option F64 :=
  let first := environment.rolloutPolicy.steps.head?.getD (.finite 1)
  if environment.track = "internal" || (F64.finite 1).le first then (.complete, .finite 1, none)
  else (.rolling, first, some first)

/-- A release that still holds a live version. -/
def isLive (state : ReleaseState) : Bool :=
  state = .rolling || state = .paused || state = .complete

/-- The release a build is promoted from: its newest live release in the target's store, outside
the target environment. -/
def findSourceRelease (s : Board) (buildId : ℕ) (environment : ProjectEnvironment) :
    Option ProjectRelease :=
  let candidates := s.releases.rows.filter fun release => release.buildId = buildId &&
    release.store = environment.store &&
    (match environment.store with
      | .googlePlay => release.versionCode.isSome
      | .appStore => release.track ≠ appStoreTrack && release.ascBuildId.isSome) &&
    isLive release.state && release.environmentId ≠ some environment.id
  (candidates.mergeSort fun a b =>
    b.createdAt < a.createdAt || (a.createdAt = b.createdAt && a.id ≤ b.id)).head?

/-- The open promotions of a build into an environment. -/
def openPromotions (s : Board) (buildId environmentId : ℕ) : List (ℕ × PromotionState) :=
  (s.promotions.rows.filter fun row => row.buildId = buildId && row.environmentId = environmentId &&
    (row.state = .pending || row.state = .promoting)).map fun row => (row.id, row.state)

/-- The build has a release in the environment that did not fail. -/
def hasRelease (s : Board) (buildId environmentId : ℕ) : Bool :=
  s.releases.rows.any fun release => release.buildId = buildId &&
    release.environmentId = some environmentId && release.state ≠ .failed

/-! ## Releases -/

/-- A release to insert. -/
structure NewRelease where
  projectId : Text
  buildId : ℕ
  store : ReleaseStore
  track : Text
  versionCode : Option ℤ
  state : ReleaseState
  rolloutFraction : F64
  policy : ReleasePolicy
  environmentId : Option ℕ
  promotedFromReleaseId : Option ℕ
  deriving DecidableEq, Repr

/-- The environment a release is put in: the one it names, or the one that targets its track. -/
def releaseEnvironment (s : Board) (input : NewRelease) : Option ℕ :=
  match input.environmentId with
  | some environmentId => some environmentId
  | none => (s.environments.rows.find? fun environment =>
      environment.projectId = input.projectId && environment.store = input.store &&
        environment.track = trim input.track).map (·.id)

/-- The row of a new release. -/
def newReleaseRow (s : Board) (input : NewRelease) (ascBuildId : Option Text) (now : ℤ) :
    ProjectRelease where
  id := s.nextId
  projectId := input.projectId
  buildId := input.buildId
  store := input.store
  track := trim input.track
  versionCode := input.versionCode
  state := input.state
  rolloutFraction := input.rolloutFraction
  policy := input.policy
  createdAt := now
  environmentId := releaseEnvironment s input
  promotedFromReleaseId := input.promotedFromReleaseId
  ascBuildId := ascBuildId

/-- What a release must be to be inserted. -/
def checkNewRelease (input : NewRelease) : Except ReleaseError Unit := do
  (input.policy.validate).mapError .invalid
  validateFraction input.rolloutFraction
  if trim input.track = [] then throw (.invalid "track must not be empty")
  if input.state = .halted || input.state = .failed then
    throw (.invalid "a release cannot start halted or failed")

/-- Insert a release. `none` where it is refused or its environment is gone. -/
def insertRelease (s : Board) (input : NewRelease) (ascBuildId : Option Text) (now : ℤ) :
    Option Board :=
  let row := newReleaseRow s input ascBuildId now
  if h : row.id ∉ s.releases.rows.map ProjectRelease.id then
    if (checkNewRelease input).toBool &&
        row.environmentId.all (fun id => (s.environments.find id).isSome) then
      some { s with releases := s.releases.insert row h, nextId := s.nextId + 1 }
    else none
  else none

end OoreBuild
