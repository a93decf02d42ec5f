import OoreBuild.Lib.Interleave
import OoreBuild.Environments

/-!
# Promotion calls

`request_promotion`, `decide_promotion`, `update_environment` and `delete_environment` as sequences
of single statements, with any statements of other calls in between. A lock of a build and its
target environment is held from the checks through the store call to the recorded outcome; locks
are lost when the daemon stops, and `failInterruptedPromotions` runs before it serves requests
again.

The store's answers and failures of the database are inputs (`PromotionAnswer`). A call that is cut
short anywhere gives back its locks and writes nothing more.
-/

namespace OoreBuild

open Text

/-! ## Calls -/

/-- The caller, with the role in the project that the request was let in with. -/
structure PromotionActor where
  role : EffectiveProjectRole
  userId : Text
  deriving DecidableEq, Repr

structure PromotionRequest where
  projectId : Text
  buildId : ℕ
  environmentId : ℕ
  actor : PromotionActor
  reason : Option Text
  deriving DecidableEq, Repr

structure PromotionDecision where
  projectId : Text
  promotionId : ℕ
  actor : PromotionActor
  /-- The caller is signed in; API tokens do not decide. -/
  session : Bool
  approve : Bool
  reason : Option Text
  deriving DecidableEq, Repr

structure EnvironmentUpdate where
  projectId : Text
  environmentId : ℕ
  actor : PromotionActor
  request : UpdateProjectEnvironmentRequest
  deriving DecidableEq, Repr

structure EnvironmentDeletion where
  projectId : Text
  environmentId : ℕ
  actor : PromotionActor
  deriving DecidableEq, Repr

/-- What takes a build into an environment: a request, or the decision on the promotion that was
loaded. -/
inductive Purpose where
  | request (r : PromotionRequest)
  | decide (d : PromotionDecision) (promotion : EnvironmentPromotion)
  deriving DecidableEq, Repr

namespace Purpose

def projectId : Purpose → Text
  | request r => r.projectId
  | decide d _ => d.projectId

def buildId : Purpose → ℕ
  | request r => r.buildId
  | decide _ promotion => promotion.buildId

def environmentId : Purpose → ℕ
  | request r => r.environmentId
  | decide _ promotion => promotion.environmentId

def skipPromotion : Purpose → Option ℕ
  | request _ => none
  | decide d _ => some d.promotionId

end Purpose

inductive Loader where
  | promote (purpose : Purpose)
  | update (u : EnvironmentUpdate)
  deriving DecidableEq, Repr

def Loader.projectId : Loader → Text
  | promote purpose => purpose.projectId
  | update u => u.projectId

def Loader.environmentId : Loader → ℕ
  | promote purpose => purpose.environmentId
  | update u => u.environmentId

structure Execution where
  promotionId : ℕ
  environment : ProjectEnvironment
  source : ProjectRelease
  deriving DecidableEq, Repr

/-- What the store says of a build it accepted. -/
structure Promoted where
  start : Option (ReleaseState × F64)
  /-- The build in App Store Connect, where it has a link. -/
  ascBuildId : Option Text
  deriving DecidableEq, Repr

/-- The statements of `ensure_not_promoted`. -/
inductive CheckPoint where
  | environment
  | releases
  | promotions
  /-- The open promotions that were read and not looked at yet. -/
  | stale (rest : List (ℕ × PromotionState))
  deriving DecidableEq, Repr

/-- The statement a call makes next. -/
inductive PromotionPoint where
  | promotion (d : PromotionDecision)
  /-- Read the row of the environment, and then its named approvers. -/
  | environment (loader : Loader)
  | approvers (loader : Loader) (environment : ProjectEnvironment)
  | build (r : PromotionRequest) (environment : ProjectEnvironment)
  | lock (purpose : Purpose) (environment : ProjectEnvironment)
  /-- Write the decision, and then read who asked. -/
  | decision (d : PromotionDecision) (promotion : EnvironmentPromotion)
      (environment : ProjectEnvironment)
  | requester (d : PromotionDecision) (promotion : EnvironmentPromotion)
      (environment : ProjectEnvironment)
  | check (purpose : Purpose) (environment : ProjectEnvironment) (at_ : CheckPoint)
  | source (purpose : Purpose) (environment : ProjectEnvironment)
  | insert (r : PromotionRequest) (environment : ProjectEnvironment) (source : ProjectRelease)
  | slot (x : Execution)
  | promote (x : Execution)
  | record (x : Execution) (promoted : Promoted)
  /-- Write that a promotion failed: before the store made it, and after. -/
  | refuse (promotionId : ℕ) (message : Text)
  | unrecorded (x : Execution)
  /-- Read whether the environment has releases, and then write the update. -/
  | releases (u : EnvironmentUpdate) (environment : ProjectEnvironment) (name track : Text)
  | commit (u : EnvironmentUpdate) (environment : ProjectEnvironment) (name track : Text)
  | delete (d : EnvironmentDeletion)
  | open_ (d : EnvironmentDeletion)
  /-- Take the lock of the next open promotion, read its state again and end it. -/
  | tryLock (d : EnvironmentDeletion) (rest : List (ℕ × ℕ))
  | state (d : EnvironmentDeletion) (promotionId : ℕ) (rest : List (ℕ × ℕ))
  | close (d : EnvironmentDeletion) (promotionId : ℕ) (state : PromotionState)
      (rest : List (ℕ × ℕ))
  | remove (d : EnvironmentDeletion)
  deriving DecidableEq, Repr

structure PromotionCall where
  guards : List LockKey
  point : PromotionPoint
  deriving DecidableEq, Repr

inductive PromotionStoreError where
  | refused (code message : Text)
  | other (error : Text)
  deriving DecidableEq, Repr

/-- The clock and what the outside says to a statement. -/
structure PromotionAnswer where
  now : ℤ := 0
  store : Except PromotionStoreError Promoted := .error (.other [])
  dbError : Bool := false

/-! ## Locks -/

/-- Take a lock. `none` while it is held. -/
def Board.acquire (s : Board) (key : LockKey) : Option Board :=
  if key ∈ s.held then none else some { s with held := key :: s.held }

def Board.unlock (s : Board) (guards : List LockKey) : Board :=
  { s with held := s.held.filter (· ∉ guards) }

/-- The slot that the builds of an environment share. -/
def storeSlotLock (environment : ProjectEnvironment) : Option LockKey :=
  if environment.store = .appStore && environment.track = appStoreTrack then
    some (.slot environment.id)
  else none

/-! ## Statements -/

/-- What a statement comes to: `none` while the call waits; the call ends where nothing follows. -/
abbrev Stated := Option (Board × Option PromotionCall)

def Stated.done (s : Board) : Stated := some (s, none)

def Stated.next (s : Board) (guards : List LockKey) (point : PromotionPoint) : Stated :=
  some (s, some ⟨guards, point⟩)

/-- The settings a decision or a request acts under, as they are now. -/
def settingsInForce (s : Board) (environmentId : ℕ) : Option ProjectEnvironment :=
  (s.environments.find environmentId).map (fillApprovers s)

/-- The environment requires no approval, or the deciding actor is one of its approvers. -/
def startAllowed (s : Board) (environmentId : ℕ) (actor : Option PromotionActor) : Bool :=
  (settingsInForce s environmentId).any fun environment =>
    !environment.approvalRequired ||
      actor.any fun actor => (approvalBasis actor.role actor.userId environment.approvers).isSome

def approversLoaded (s : Board) (guards : List LockKey) (environment : ProjectEnvironment) :
    Loader → Stated
  | .promote (.request r) =>
    let permission : ProjectPermission :=
      if environment.approvalRequired then .operateRelease else .manageReleases
    if checkProjectPermission r.actor.role permission then .next s guards (.build r environment)
    else .done s
  | .promote (.decide d promotion) =>
    match approvalBasis d.actor.role d.actor.userId environment.approvers with
    | none => .done s
    | some _ => .next s guards (.lock (.decide d promotion) environment)
  | .update u =>
    match updatedTarget environment u.request with
    | .error _ => .done s
    | .ok (name, track) =>
      if track ≠ environment.track then .next s guards (.releases u environment name track)
      else .next s guards (.commit u environment name track)

def decidedRow (d : PromotionDecision) (row : EnvironmentPromotion) : EnvironmentPromotion :=
  { row with
    state := if d.approve then .promoting else .rejected
    decidedBy := some d.actor.userId
    decisionReason := cleanReason d.reason }

@[simp]
theorem decidedRow_id (d : PromotionDecision) (row : EnvironmentPromotion) :
    (decidedRow d row).id = row.id := rfl

def Board.decide (s : Board) (d : PromotionDecision) (environmentId : ℕ) : Board :=
  let decided := s.updatePromotions (fun row => row.id = d.promotionId && row.state = .pending)
    (decidedRow d) (decidedRow_id d)
  if d.approve then
    { decided with
      history := { decided.history with
        approved := d.promotionId :: decided.history.approved
        starts := decided.history.starts ++
          [⟨d.promotionId, startAllowed s environmentId (some d.actor)⟩] } }
  else decided

/-- The error that a failed check leaves in the row of a decided promotion. -/
def checkMessage : EnvironmentError → Text
  | .conflict _ message => message
  | _ => "Oore could not check the build before promoting it"

/-- A check that fails ends a request, and fails the promotion of a decision. -/
def checkFails (s : Board) (guards : List LockKey) (error : EnvironmentError) : Purpose → Stated
  | .request _ => .done s
  | .decide d _ => .next s guards (.refuse d.promotionId (checkMessage error))

/-- The next statement of `ensure_not_promoted`. -/
def ensureNotPromoted (s : Board) (guards : List LockKey) (purpose : Purpose)
    (environment : ProjectEnvironment) (answer : PromotionAnswer) : CheckPoint → Stated
  | .environment =>
    if answer.dbError then checkFails s guards .db purpose
    else if (s.environments.find environment.id).isNone then
      checkFails s guards (.notFound "Environment not found") purpose
    else .next s guards (.check purpose environment .releases)
  | .releases =>
    if answer.dbError then checkFails s guards .db purpose
    else if hasRelease s purpose.buildId environment.id then
      checkFails s guards (.conflict "already_in_environment"
        ("This build already has a release in " ++ environment.name)) purpose
    else .next s guards (.check purpose environment .promotions)
  | .promotions =>
    if answer.dbError then checkFails s guards .db purpose
    else .next s guards (.check purpose environment
      (.stale (openPromotions s purpose.buildId environment.id)))
  | .stale [] => .next s guards (.source purpose environment)
  | .stale ((id, state) :: rest) =>
    if some id = purpose.skipPromotion then
      .next s guards (.check purpose environment (.stale rest))
    else if state = .pending then
      checkFails s guards (.conflict "promotion_pending" ("A promotion of this build into " ++
        environment.name ++ " is already waiting for approval")) purpose
    else if answer.dbError then checkFails s guards .db purpose
    else .next (s.markFailed id stalePromoting) guards (.check purpose environment (.stale rest))

def loadSource (s : Board) (guards : List LockKey) (environment : ProjectEnvironment)
    (answer : PromotionAnswer) : Purpose → Stated
  | .request r =>
    match findSourceRelease s r.buildId environment with
    | none => .done s
    | some source => .next s guards (.insert r environment source)
  | .decide d promotion =>
    if answer.dbError then checkFails s guards .db (.decide d promotion)
    else match s.releases.find promotion.sourceReleaseId with
    | none => checkFails s guards (.notFound "Release not found") (.decide d promotion)
    | some source =>
      if isLive source.state then .next s guards (.slot ⟨d.promotionId, environment, source⟩)
      else checkFails s guards (.conflict "source_release_not_live"
        ("The release this promotion starts from is " ++ source.state.asStr ++ " now"))
        (.decide d promotion)

def newPromotion (s : Board) (r : PromotionRequest) (environment : ProjectEnvironment)
    (source : ProjectRelease) : EnvironmentPromotion where
  id := s.nextId
  projectId := r.projectId
  buildId := r.buildId
  environmentId := environment.id
  sourceReleaseId := source.id
  releaseId := none
  state := if environment.approvalRequired then .pending else .promoting
  reason := cleanReason r.reason
  decisionReason := none
  error := none
  requestedBy := r.actor.userId
  decidedBy := none

/-- Insert the row of a promotion. `none` where its environment is gone. -/
def Board.addPromotion (s : Board) (r : PromotionRequest) (environment : ProjectEnvironment)
    (source : ProjectRelease) : Option Board :=
  let row := newPromotion s r environment source
  if h : row.id ∉ s.promotions.rows.map EnvironmentPromotion.id then
    if (s.environments.find environment.id).isSome then
      some { s with
        promotions := s.promotions.insert row h
        nextId := s.nextId + 1
        history :=
          if environment.approvalRequired then
            { s.history with createdPending := row.id :: s.history.createdPending }
          else { s.history with
            starts := s.history.starts ++ [⟨row.id, startAllowed s environment.id none⟩] } }
    else none
  else none

def storeMessage : PromotionStoreError → Text
  | .refused _ message => message
  | .other error => (join " " (splitWhitespace error)).take maxReasonLen

def Board.callStore (s : Board) (promotionId : ℕ) : Board :=
  { s with history := { s.history with
      storeCalls := s.history.storeCalls ++
        [⟨promotionId, s.history.approved.contains promotionId⟩] } }

def Execution.release (x : Execution) (promoted : Promoted) : NewRelease :=
  let initial := initialRollout x.environment
  let start := promoted.start.getD (initial.1, initial.2.1)
  { projectId := x.source.projectId
    buildId := x.source.buildId
    store := x.source.store
    track := x.environment.track
    versionCode := x.source.versionCode
    state := start.1
    rolloutFraction := start.2
    policy := x.environment.rolloutPolicy
    environmentId := some x.environment.id
    promotedFromReleaseId := some x.source.id }

def completedRow (releaseId : ℕ) (row : EnvironmentPromotion) : EnvironmentPromotion :=
  { row with state := .completed, releaseId := some releaseId, error := none }

@[simp]
theorem completedRow_id (releaseId : ℕ) (row : EnvironmentPromotion) :
    (completedRow releaseId row).id = row.id := rfl

/-- Log what became of a promotion that the store accepted. -/
def Board.outcome (s : Board) (promotionId : ℕ) (recorded : Bool) : Board :=
  { s with history := { s.history with
      outcomes := s.history.outcomes ++ [⟨promotionId, recorded,
        (s.promotions.find promotionId).any fun row => row.state = .failed && row.error.isSome⟩] } }

/-- The transaction that records the release and completes the promotion. -/
def Board.recordPromotion (s : Board) (x : Execution) (promoted : Promoted) (now : ℤ) :
    Option Board :=
  (insertRelease s (x.release promoted) promoted.ascBuildId now).map fun inserted =>
    (inserted.updatePromotions (·.id = x.promotionId) (completedRow s.nextId)
      (completedRow_id s.nextId)).outcome x.promotionId true

/-- The failure of a promotion that the store made and Oore could not record. -/
def unrecordedMessage (x : Execution) : Text :=
  match x.source.store with
  | .googlePlay => "Play now has version code " ++ ofInt (x.source.versionCode.getD 0) ++
      " on the " ++ x.environment.track ++ " track, but Oore could not record the release"
  | .appStore => "App Store Connect now has this build in " ++ x.environment.name ++
      ", but Oore could not record the release"

def deletedRow (actor : PromotionActor) (row : EnvironmentPromotion) : EnvironmentPromotion :=
  { row with
    state := .rejected, decidedBy := some actor.userId, decisionReason := some environmentDeleted }

@[simp]
theorem deletedRow_id (actor : PromotionActor) (row : EnvironmentPromotion) :
    (deletedRow actor row).id = row.id := rfl

def Board.closePromotion (s : Board) (d : EnvironmentDeletion) (promotionId : ℕ) :
    PromotionState → Board
  | .pending => s.updatePromotions (fun row => row.id = promotionId && row.state = .pending)
      (deletedRow d.actor) (deletedRow_id d.actor)
  | _ => s.markFailed promotionId stalePromoting

/-- The open promotions into an environment, with their builds. -/
def openInto (s : Board) (environmentId : ℕ) : List (ℕ × ℕ) :=
  (s.promotions.rows.filter fun row => row.environmentId = environmentId &&
    (row.state = .pending || row.state = .promoting)).map fun row => (row.id, row.buildId)

def statement (s : Board) (guards : List LockKey) (answer : PromotionAnswer) :
    PromotionPoint → Stated
  | .promotion d =>
    if !checkProjectPermission d.actor.role .operateRelease then .done s
    else match s.promotions.find d.promotionId with
    | none => .done s
    | some promotion =>
      if promotion.projectId = d.projectId then
        .next s guards (.environment (.promote (.decide d promotion)))
      else .done s
  | .environment loader =>
    match environmentRow s loader.projectId loader.environmentId with
    | .error _ => .done s
    | .ok environment => .next s guards (.approvers loader environment)
  | .approvers loader environment =>
    approversLoaded s guards (fillApprovers s environment) loader
  | .build r environment =>
    match s.builds.find r.buildId with
    | none => .done s
    | some build =>
      if build.projectId = r.projectId && build.status = .succeeded then
        .next s guards (.lock (.request r) environment)
      else .done s
  | .lock purpose environment =>
    let key := LockKey.promotion purpose.buildId environment.id
    (s.acquire key).bind fun s => match purpose with
      | .request r => Stated.next s (key :: guards) (.check (.request r) environment .environment)
      | .decide d promotion => Stated.next s (key :: guards) (.decision d promotion environment)
  | .decision d promotion environment =>
    if (s.promotions.find d.promotionId).any fun row => row.state = .pending then
      .next (s.decide d environment.id) guards (.requester d promotion environment)
    else .done s
  | .requester d promotion environment =>
    if (s.promotions.find d.promotionId).isSome && d.approve then
      .next s guards (.check (.decide d promotion) environment .environment)
    else .done s
  | .check purpose environment at_ => ensureNotPromoted s guards purpose environment answer at_
  | .source purpose environment => loadSource s guards environment answer purpose
  | .insert r environment source =>
    match s.addPromotion r environment source with
    | none => .done s
    | some added =>
      if environment.approvalRequired then .done added
      else .next added guards (.slot ⟨s.nextId, environment, source⟩)
  | .slot x =>
    match storeSlotLock x.environment with
    | none => .next s guards (.promote x)
    | some key => (s.acquire key).bind fun s => Stated.next s (key :: guards) (.promote x)
  | .promote x =>
    let called := s.callStore x.promotionId
    match answer.store with
    | .error error => .next called guards (.refuse x.promotionId (storeMessage error))
    | .ok promoted => .next called guards (.record x promoted)
  | .record x promoted =>
    match (if answer.dbError then none else s.recordPromotion x promoted answer.now) with
    | some recorded => .done recorded
    | none => .next s guards (.unrecorded x)
  | .refuse promotionId message => .done (s.markFailed promotionId message)
  | .unrecorded x =>
    .done ((s.markFailed x.promotionId (unrecordedMessage x)).outcome x.promotionId false)
  | .releases u environment name track =>
    if s.releases.rows.any fun release => release.environmentId = some environment.id then .done s
    else .next s guards (.commit u environment name track)
  | .commit u environment name track =>
    match commitUpdate s environment name track u.request with
    | .error _ => .done s
    | .ok updated => .done updated
  | .delete d =>
    match environmentRow s d.projectId d.environmentId with
    | .error _ => .done s
    | .ok _ => .next s guards (.open_ d)
  | .open_ d => .next s guards (.tryLock d (openInto s d.environmentId))
  | .tryLock d [] => .next s guards (.remove d)
  | .tryLock d ((promotionId, buildId) :: rest) =>
    let key := LockKey.promotion buildId d.environmentId
    match s.acquire key with
    | none => .done s
    | some locked => .next locked (key :: guards) (.state d promotionId rest)
  | .state d promotionId rest =>
    match s.promotions.find promotionId with
    | none => .next s guards (.tryLock d rest)
    | some row =>
      if row.state = .pending || row.state = .promoting then
        .next s guards (.close d promotionId row.state rest)
      else .next s guards (.tryLock d rest)
  | .close d promotionId state rest =>
    .next (s.closePromotion d promotionId state) guards (.tryLock d rest)
  | .remove d => .done (s.removeEnvironment d.environmentId)

/-! ## The system -/

inductive PromotionInput where
  | create (projectId : Text) (actor : PromotionActor) (request : CreateProjectEnvironmentRequest)
  | request (r : PromotionRequest)
  | decide (d : PromotionDecision)
  | update (u : EnvironmentUpdate)
  | delete (d : EnvironmentDeletion)
  /-- An upload or a release recorded by hand, which names no environment. -/
  | upload (input : NewRelease) (now : ℤ)
  | release (releaseId : ℕ) (target : ReleaseState)
  /-- The monitor found the release's build in App Store Connect. -/
  | link (releaseId : ℕ) (ascBuildId : Text)
  | builds (builds : Table Build.id)
  | member (member : Member)
  | leave (projectId userId : Text)

/-- Stop counting a user as a named approver in the project. -/
def forgetApprover (s : Board) (projectId userId : Text) : List (ℕ × Text) :=
  s.approvers.filter fun named => named.2 ≠ userId ||
    !(s.environments.find named.1).any fun environment => environment.projectId = projectId

def Board.leave (s : Board) (projectId userId : Text) : Board :=
  { s with
    members := s.members.erase (projectId, userId)
    approvers := forgetApprover s projectId userId }

def Board.setMember (s : Board) (member : Member) : Board :=
  { s with
    members := (s.members.erase member.key).insert member (by
      intro h
      obtain ⟨other, hmem, heq⟩ := List.mem_map.mp h
      simpa [heq] using (List.mem_filter.mp hmem).2)
    approvers :=
      if member.role = .viewer then forgetApprover s member.projectId member.userId
      else s.approvers }

def Board.changeRelease (s : Board) (releaseId : ℕ) (target : ReleaseState) : Board :=
  { s with
    releases := s.releases.mapRows
      (fun release =>
        if release.id = releaseId && release.state.canTransitionTo target then
          { release with state := target }
        else release)
      (by
        intro release
        split <;> rfl) }

def Board.linkRelease (s : Board) (releaseId : ℕ) (ascBuildId : Text) : Board :=
  { s with
    releases := s.releases.modify releaseId
      (fun release => { release with ascBuildId := some ascBuildId }) fun _ => rfl }

def starting (s : Board) (point : PromotionPoint) : Option (Board × List PromotionCall) :=
  some (s, [⟨[], point⟩])

/-- A request: what it writes at once, and the call it starts. -/
def enterPromotions (s : Board) : PromotionInput → Option (Board × List PromotionCall)
  | .create projectId actor request =>
    if checkProjectPermission actor.role .manageReleases then
      match createEnvironment s projectId request with
      | .error _ => none
      | .ok created => some (created, [])
    else none
  | .request r =>
    if checkProjectPermission r.actor.role .read then
      starting s (.environment (.promote (.request r)))
    else none
  | .decide d =>
    if checkProjectPermission d.actor.role .read && d.session then starting s (.promotion d)
    else none
  | .update u =>
    if checkProjectPermission u.actor.role .manageReleases then
      starting s (.environment (.update u))
    else none
  | .delete d =>
    if checkProjectPermission d.actor.role .manageReleases then starting s (.delete d) else none
  | .upload input now =>
    if input.environmentId.isSome || input.promotedFromReleaseId.isSome then none
    else (insertRelease s input none now).map (·, [])
  | .release releaseId target => some (s.changeRelease releaseId target, [])
  | .link releaseId ascBuildId => some (s.linkRelease releaseId ascBuildId, [])
  | .builds builds => some ({ s with builds }, [])
  | .member member => some (s.setMember member, [])
  | .leave projectId userId => some (s.leave projectId userId, [])

/-- The next statement of a call; the locks of a call that ends are given back. -/
def advancePromotion (s : Board) (call : PromotionCall) (answer : PromotionAnswer) : Stated :=
  (statement s call.guards answer call.point).map fun r => match r.2 with
    | some next => (r.1, some next)
    | none => (r.1.unlock call.guards, none)

/-- Locks end with the process; the promotions it left are failed before it serves again. -/
def promotions : Interleave Board PromotionCall PromotionInput PromotionAnswer where
  enter := enterPromotions
  advance := advancePromotion
  drop s call := s.unlock call.guards
  restart s := failInterruptedPromotions { s with held := [] }

/-- No environment has been created and nothing released yet. -/
structure Board.Fresh (s : Board) : Prop where
  environments : s.environments.rows = []
  approvers : s.approvers = []
  releases : s.releases.rows = []
  promotions : s.promotions.rows = []
  held : s.held = []
  history : s.history = {}

end OoreBuild
