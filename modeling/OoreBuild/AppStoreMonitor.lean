import OoreBuild.AppStore
import OoreBuild.Environments
import OoreBuild.Lib.Interleave

/-!
# The App Store monitor

A pass of the monitor reads the links that are due and looks at one release after the other: Apple
is asked, the release is changed in up to two transactions and its link in a third one. The calls of
users, promotions and uploads run in between, and every statement may fail. The monitor is one task,
so its passes follow each other.
-/

namespace OoreBuild

namespace AppStore

open Text

/-! ## Tables -/

/-- The columns of a release that never change. -/
structure ReleaseOrigin where
  releaseId : Text
  buildId : Text
  promotedFromReleaseId : Option Text
  deriving DecidableEq, Repr

/-- A change of the release that a poll asked for: the release as it was then, and whether the
change was recorded or refused. -/
structure Attempt where
  found : Option Release
  toState : ReleaseState
  recorded : Bool
  deriving DecidableEq, Repr

/-- A poll that wrote its link: what it had read, its changes (the last one first) and the stages
before and after. -/
structure PollRecord where
  read : LinkRow
  attempts : List Attempt
  stageBefore : Option Stage
  stageAfter : Option Stage
  deriving DecidableEq, Repr

/-- The tables, and what the monitor's task is doing. -/
structure Board where
  releases : Releases
  origins : Table ReleaseOrigin.releaseId
  links : Table ReleaseLink.releaseId
  busy : Bool
  /-- The release whose last poll ended between two changes. -/
  midway : Option Text
  polls : List PollRecord

inductive DbOutcome where
  | ok
  | failsRead (message : Text)
  | failsWrite (message : Text)
  /-- The row is written and a later statement fails. -/
  | failsReadBack (message : Text)
  deriving DecidableEq, Repr

def DbOutcome.writes : DbOutcome → Bool
  | ok | failsReadBack _ => true
  | failsRead _ | failsWrite _ => false

/-- What the outside says to a step: Apple's answers with the clock, whether the pipeline's key
could be loaded, how the database does, and the ID of a new row. -/
structure Answer where
  asc : AscAnswers
  credentials : Except Text Unit
  db : DbOutcome
  newId : Text

def ReleaseLink.row (link : ReleaseLink) (release : Release) : LinkRow where
  releaseId := link.releaseId
  pipelineId := link.pipelineId
  bundleId := link.bundleId
  version := link.version
  buildNumber := link.buildNumber
  config := link.config
  stage := link.stage
  ascAppId := link.ascAppId
  ascBuildId := link.ascBuildId
  ascVersionId := link.ascVersionId
  createdAt := link.createdAt
  releaseState := release.state
  rolloutFraction := release.rolloutFraction

def Board.dueRows (s : Board) (now : ℤ) : List ReleaseLink :=
  s.links.rows.filter fun link => link.stage ≠ .done && link.nextPollAt ≤ now &&
    (s.releases.find link.releaseId).any (followed ·.state)

/-- The rows that a pass takes, those due longest first. -/
def Board.dueLinks (s : Board) (now : ℤ) : List LinkRow :=
  (((s.dueRows now).mergeSort fun a b => a.nextPollAt ≤ b.nextPollAt).take 50).filterMap fun link =>
    (s.releases.find link.releaseId).map link.row

/-! ## Changes of a release -/

inductive MoveError where
  | release (error : ReleaseError)
  | db (message : Text)
  deriving DecidableEq, Repr

def MoveError.debug : MoveError → Text
  | release .notFound => "NotFound"
  | release (.conflict message) => "Conflict(\"".toList ++ message ++ "\")"
  | release (.invalid message) => "Invalid(\"".toList ++ message ++ "\")"
  | release (.store error) => "Store(".toList ++ error ++ ")"
  | db message => "Db(".toList ++ message ++ ")"

/-- Apply a user's change at App Store Connect; the result says whether Apple was told. Releases
in TestFlight and versions that are not live have no phased release. -/
def applyChange (link : Option ReleaseLink) (answer : Answer) (change : StoreChange) :
    Except Text Bool :=
  let tell (target : Text) : Except Text Bool :=
    match link.filter fun link => link.ascVersionId.isSome &&
      (link.stage = .live || link.stage = .done) with
    | none => .ok false
    | some _ => do
      answer.credentials
      match ← answer.asc.phasedRelease with
      | none =>
        if target = "COMPLETE" then return false
        else .error "This App Store version does not use phased release"
      | some phased =>
        if phased.state = target ∨ phased.state = "COMPLETE" then return false
        else do
          answer.asc.setPhasedReleaseState
          return true
  match change with
  -- Apple's schedule decides the percentage
  | .rollout _ => .ok false
  | .pause => tell "PAUSED"
  | .resume _ => tell "ACTIVE"
  | .complete => tell "COMPLETE"
  | .halt => .error ("App Store releases cannot be halted from Oore; pause the phased ".toList ++
      "release or remove the version from sale in App Store Connect")

def Board.outcomes (s : Board) (answer : Answer) (id : Text) : Outcomes where
  observe := .ok none
  crashRate := .ok none
  apply change := (applyChange (s.links.find id) answer change).map fun _ => ()
  clock _ := answer.asc.now

def Board.pollNow (s : Board) (id : Text) (now : ℤ) : Board :=
  { s with links := s.links.modify id (fun link => { link with nextPollAt := now }) fun _ => rfl }

structure Moved where
  result : Except MoveError Unit
  board : Board
  written : Bool

/-- Move a release to a new state or fraction, under the lock of the release. -/
def Board.move (s : Board) (answer : Answer) (id : Text) (change : ReleaseChange) : Moved :=
  match answer.db with
  | .failsRead message => ⟨.error (.db message), s, false⟩
  | db =>
    let moved := transitionRelease (s.outcomes answer id) s.releases id change
    let told := moved.sent.any fun sent =>
      (applyChange (s.links.find id) answer sent.change).toOption = some true
    let s := if told then s.pollNow id answer.asc.now else s
    match moved.result, db with
    | .error error, _ => ⟨.error (.release error), s, false⟩
    | .ok (), .failsWrite message => ⟨.error (.db message), s, false⟩
    | .ok (), .failsReadBack message =>
      ⟨.error (.db message), { s with releases := moved.releases }, true⟩
    | .ok (), _ => ⟨.ok (), { s with releases := moved.releases }, true⟩

/-! ## The monitor's statements -/

structure Poll where
  current : LinkRow
  step : Step
  /-- It is the second look of the pass. -/
  again : Bool
  rest : List LinkRow
  attempts : List Attempt
  deriving DecidableEq, Repr

inductive MonitorPoint where
  | next (rest : List LinkRow)
  | look (current : LinkRow) (again : Bool) (rest : List LinkRow)
  /-- Record the change, and then the others. -/
  | change (poll : Poll) (toState : ReleaseState) (toFraction : Option F64)
      (others : List (ReleaseState × Option F64))
  | update (poll : Poll) (stage : Option Stage) (nextPollIn : ℤ)
  | failed (releaseId message : Text) (rest : List LinkRow)
  /-- The release kept failing: read it, mark it failed and end its link. -/
  | giveUp (releaseId : Text) (rest : List LinkRow)
  | giveUpChange (releaseId : Text) (path : List ReleaseState) (rest : List LinkRow)
  deriving DecidableEq, Repr

def storeMade (toState : ReleaseState) (toFraction : Option F64)
    (expect : Option (ReleaseState × F64)) : ReleaseChange :=
  { toState, toFraction, expect, fromStore := true }

/-- The state and fraction that the first change must start from. -/
def Poll.expect (poll : Poll) : Option (ReleaseState × F64) :=
  if poll.attempts = [] then some (poll.current.releaseState, poll.current.rolloutFraction)
  else none

/-- What is still to be recorded, or else the link. -/
def Poll.goOn (poll : Poll) : List (ReleaseState × Option F64) → MonitorPoint
  | [] => .update poll poll.step.stage poll.step.nextPollIn
  | (toState, toFraction) :: others => .change poll toState toFraction others

def lookPoint (answer : Answer) (current : LinkRow) (again : Bool) (rest : List LinkRow) :
    MonitorPoint :=
  match advance answer.asc current with
  | .error error => .failed current.releaseId error rest
  | .ok step =>
    let poll : Poll := { current, step, again, rest, attempts := [] }
    poll.goOn (stepChanges current step)

def Board.recordChange (s : Board) (answer : Answer) (poll : Poll) (toState : ReleaseState)
    (toFraction : Option F64) (others : List (ReleaseState × Option F64)) :
    Board × MonitorPoint :=
  let id := poll.current.releaseId
  let moved := s.move answer id (storeMade toState toFraction poll.expect)
  let attempt (recorded : Bool) : Poll :=
    { poll with attempts := ⟨s.releases.find id, toState, recorded⟩ :: poll.attempts }
  let midway := if others = [] then none else some id
  match moved.result with
  | .ok () => ({ moved.board with midway }, (attempt true).goOn others)
  -- someone changed the release while Apple was read; read again
  | .error (.release (.conflict _)) =>
    ({ moved.board with midway := none }, .update (attempt false) none 0)
  | .error error =>
    ({ moved.board with midway := if moved.written then midway else s.midway },
      .failed id ("failed to update App Store release: ".toList ++ error.debug) poll.rest)

def ReleaseLink.updateFrom (link : ReleaseLink) (step : Step) (stage : Option Stage)
    (nextPollAt : ℤ) : ReleaseLink :=
  { link with
    stage := stage.getD link.stage
    ascAppId := step.ascAppId.or link.ascAppId
    ascBuildId := step.ascBuildId.or link.ascBuildId
    ascVersionId := step.ascVersionId.or link.ascVersionId
    storeStatus := step.storeStatus.or link.storeStatus
    lastError := none
    failingSince := none
    nextPollAt }

def Board.stageOf (s : Board) (id : Text) : Option Stage := (s.links.find id).map (·.stage)

def Board.writeLink (s : Board) (poll : Poll) (stage : Option Stage) (nextPollAt : ℤ) : Board :=
  let id := poll.current.releaseId
  let links := s.links.modify id (·.updateFrom poll.step stage nextPollAt) fun _ => rfl
  { s with
    links
    polls := ⟨poll.current, poll.attempts, s.stageOf id, (links.find id).map (·.stage)⟩ :: s.polls }

def Poll.nextRow (poll : Poll) : LinkRow :=
  { poll.current with
    stage := poll.step.stage.getD poll.current.stage
    ascAppId := poll.step.ascAppId.or poll.current.ascAppId
    ascBuildId := poll.step.ascBuildId.or poll.current.ascBuildId
    ascVersionId := poll.step.ascVersionId.or poll.current.ascVersionId }

/-- Distribute right after processing finishes rather than a minute later. -/
def Poll.afterwards (poll : Poll) : MonitorPoint :=
  if poll.step.nextPollIn = 0 ∧ !poll.again then .look poll.nextRow true poll.rest
  else .next poll.rest

def Board.updateLink (s : Board) (answer : Answer) (poll : Poll) (stage : Option Stage)
    (nextPollIn : ℤ) : Board × MonitorPoint :=
  let written := s.writeLink poll stage (answer.asc.now + nextPollIn)
  match answer.db with
  | .ok => (written, poll.afterwards)
  | .failsReadBack message => (written, .failed poll.current.releaseId message poll.rest)
  | .failsRead message | .failsWrite message =>
    (s, .failed poll.current.releaseId message poll.rest)

/-- Record a failed poll and back off. A release that has kept failing is given up. -/
def Board.recordError (s : Board) (answer : Answer) (releaseId message : Text)
    (rest : List LinkRow) : Board × MonitorPoint :=
  let now := answer.asc.now
  match answer.db, s.links.find releaseId with
  | .ok, some link =>
    let since := link.failingSince.getD now
    let links := s.links.modify releaseId
      (fun link => { link with
        lastError := some message, nextPollAt := now + pollErrorSecs, failingSince := some since })
      fun _ => rfl
    ({ s with links },
      if now - since < giveUpAfterSecs then .next rest else .giveUp releaseId rest)
  | _, _ => (s, .next rest)

def Board.endLink (s : Board) (releaseId : Text) : Board :=
  { s with
    links := s.links.modify releaseId (fun link => { link with stage := .done }) fun _ => rfl }

/-- The next statement of a pass; `none` where the pass ends. -/
def monitorStep (s : Board) (answer : Answer) : MonitorPoint → Board × Option MonitorPoint
  | .next [] => ({ s with busy := false }, none)
  | .next (row :: rest) => match answer.credentials with
    | .error error => (s, some (.failed row.releaseId error rest))
    | .ok () => (s, some (.look row false rest))
  | .look current again rest => (s, some (lookPoint answer current again rest))
  | .change poll toState toFraction others =>
    (s.recordChange answer poll toState toFraction others).map id some
  | .update poll stage nextPollIn => (s.updateLink answer poll stage nextPollIn).map id some
  | .failed releaseId message rest => (s.recordError answer releaseId message rest).map id some
  | .giveUp releaseId rest => match answer.db, s.releases.find releaseId with
    | .ok, some release =>
      (s, some (.giveUpChange releaseId (transitionPath release.state .failed) rest))
    | _, _ => (s, some (.next rest))
  | .giveUpChange releaseId (toState :: path) rest =>
    let moved := s.move answer releaseId (storeMade toState none none)
    match moved.result with
    | .ok () => (moved.board, some (.giveUpChange releaseId path rest))
    | .error _ => (moved.board, some (.next rest))
  | .giveUpChange releaseId [] rest =>
    (if answer.db.writes then s.endLink releaseId else s, some (.next rest))

/-! ## Other calls -/

inductive ReleaseAction where
  | raise
  | pause
  | resume
  | halt
  | complete
  | approve
  deriving DecidableEq, Repr

/-- Whether a caller with `role` may take the action on the release right now. -/
def allowedAction (role : EffectiveProjectRole) (release : Release) (action : ReleaseAction) :
    Bool :=
  let operate := checkProjectPermission role .operateRelease
  let manage := checkProjectPermission role .manageReleases
  let awaiting := awaitingApproval release
  let state := release.state
  let appStore := release.store = .appStore
  -- a Play draft is recorded as paused at 0%; Play cannot halt a draft
  let playDraft := release.store = .googlePlay && state = .paused &&
    release.rolloutFraction.eq (.finite 0)
  match action with
  -- Apple's phased release schedule owns the App Store percentage
  | .raise => manage && !appStore && state = .rolling && !awaiting &&
      release.rolloutFraction.lt (.finite 1)
  | .pause => operate && state = .rolling
  | .resume => manage && (state = .paused || state = .halted) && !awaiting
  -- App Store versions are paused or removed from sale, never halted
  | .halt => operate && !appStore && !playDraft && (state = .rolling || state = .paused)
  | .complete => manage && (state = .rolling || state = .paused) && !awaiting
  | .approve => manage && awaiting

/-- What an action asks for, once it was allowed on the release that was loaded. -/
inductive Requested where
  | approve
  | change (change : ReleaseChange)
  deriving DecidableEq, Repr

def requestAction (current : Release) (fraction : Option F64) (action : ReleaseAction) :
    Option Requested :=
  let seen := (current.state, current.rolloutFraction)
  let change (toState : ReleaseState) (toFraction : Option F64)
      (expect : Option (ReleaseState × F64)) : Option Requested :=
    some (.change { toState, toFraction, expect, fromStore := false })
  match action with
  | .approve => some .approve
  | .raise =>
    let fraction := fraction.getD
      ((current.policy.nextStep current.rolloutFraction).getD (.finite 1))
    if !fraction.isFinite || fraction.le current.rolloutFraction || (F64.finite 1).lt fraction then
      none
    else
      change (if (F64.finite 1).le fraction then .complete else .rolling) (some fraction)
        (some seen)
  -- stopping a rollout must not fail because a step landed meanwhile
  | .pause => change .paused none none
  -- a draft (0%) resumes at the first policy step
  | .resume => change .rolling
      (if current.rolloutFraction.eq (.finite 0) then current.policy.steps.head? else none)
      (some seen)
  | .halt => change .halted none none
  | .complete => change .complete (some (.finite 1)) (some seen)

/-- Record a maintainer approval. A draft starts at the next tick. -/
def Board.approve (s : Board) (id : Text) (now : ℤ) : Board :=
  match s.releases.find id with
  | none => s
  | some current =>
    if awaitingApproval current then
      let approved := { current with approvedAt := some now }
      let nextStepAt := (nextStepAt approved now).map fun at_ =>
        if current.rolloutFraction.eq (.finite 0) then now else at_
      { s with
        releases := s.releases.modify id
          (fun row => { row with approvedAt := some now, nextStepAt }) fun _ => rfl }
    else s

/-- Insert a release with its link, if it has one, in one transaction. -/
def Board.insert (s : Board) (release : Release) (origin : ReleaseOrigin)
    (link : Option ReleaseLink) : Option Board :=
  if hrelease : release.id ∉ s.releases.rows.map (·.id) then
    if horigin : origin.releaseId ∉ s.origins.rows.map (·.releaseId) then
      let releases := s.releases.insert release hrelease
      let origins := s.origins.insert origin horigin
      match link with
      | none => some { s with releases, origins }
      | some link =>
        if hlink : link.releaseId ∉ s.links.rows.map (·.releaseId) then
          some { s with releases, origins, links := s.links.insert link hlink }
        else none
    else none
  else none

def insertable (release : Release) : Bool :=
  (validateFraction release.rolloutFraction).isOk && trim release.track ≠ [] &&
    release.state ≠ .halted && release.state ≠ .failed

def newRelease (id track : Text) (state : ReleaseState) (fraction : F64) (policy : ReleasePolicy) :
    Release where
  id := id
  store := .appStore
  track := trim track
  state := state
  rolloutFraction := fraction
  nextStepAt := none
  crashRate := none
  crashRateCheckedAt := none
  healthError := none
  storeCheckedAt := none
  policy := policy
  approvedAt := none

def defaultPolicy : ReleasePolicy where
  steps := [F64.ofRat (1 / 100), F64.ofRat (5 / 100), F64.ofRat (20 / 100), F64.ofRat (50 / 100),
    .finite 1]
  intervalHours := .finite 24
  crashRateThreshold := none
  approval := .none

structure Upload where
  pipelineId : Text
  buildId : Text
  bundleId : Text
  version : Text
  buildNumber : Text
  config : AppStorePublishConfig
  reported : RunnerPublishResult

/-- Record an upload as a release in `processing` with its link, unless the build already has a
release that was not promoted. -/
def Board.recordUpload (s : Board) (upload : Upload) (releaseId : Text) (now : ℤ) : Option Board :=
  let config := uploadedConfig upload.config upload.reported
  let release := newRelease releaseId (settingsTrack config) .processing (.finite 0) defaultPolicy
  if s.origins.rows.any fun origin => origin.buildId = upload.buildId &&
      origin.promotedFromReleaseId.isNone then none
  else if !insertable release then none
  else s.insert release ⟨releaseId, upload.buildId, none⟩ (some
    { releaseId, pipelineId := upload.pipelineId, bundleId := upload.bundleId
      version := upload.version, buildNumber := upload.buildNumber, config
      stage := .awaitingBuild, ascAppId := none, ascBuildId := none, ascVersionId := none
      storeStatus := none, lastError := none, failingSince := none, nextPollAt := now
      createdAt := now })

/-- The version and build number of a link that holds an App Store version for another build. -/
def Board.held (s : Board) (buildId versionId : Text) : Option (Text × Text) :=
  (s.links.rows.find? fun link => link.ascVersionId = some versionId &&
    (link.stage = .review || link.stage = .live) &&
    (s.releases.find link.releaseId).any (·.state ≠ .failed) &&
    (s.origins.find link.releaseId).any (·.buildId ≠ buildId)).map fun link =>
      (link.version, link.buildNumber)

/-- A promotion that is under way: the source as it was loaded. -/
structure Promotion where
  source : Release
  buildId : Text
  target : PromotionTarget
  policy : ReleasePolicy

def Board.recordPromotion (s : Board) (promotion : Promotion) (link : ReleaseLink)
    (promoted : Promoted) (releaseId : Text) (now : ℤ) : Option Board :=
  let release := newRelease releaseId promotion.target.track promoted.state promoted.fraction
    promotion.policy
  if !insertable release then none
  else s.insert release ⟨releaseId, promotion.buildId, some promotion.source.id⟩ (some
    { releaseId, pipelineId := link.pipelineId, bundleId := link.bundleId, version := link.version
      buildNumber := link.buildNumber, config := promoted.config, stage := promoted.stage
      ascAppId := some promoted.ascAppId, ascBuildId := some promoted.ascBuildId
      ascVersionId := promoted.ascVersionId, storeStatus := none, lastError := none
      failingSince := none, nextPollAt := now + promoted.nextPollIn, createdAt := now })

/-! ## The system -/

inductive Call where
  | monitor (point : MonitorPoint)
  | action (releaseId : Text) (requested : Requested)
  | promote (promotion : Promotion)
  | recordPromotion (promotion : Promotion) (link : ReleaseLink) (promoted : Promoted)

inductive Input where
  | pass (now : ℤ)
  | upload (upload : Upload) (releaseId : Text) (now : ℤ)
  /-- A release without a link, made through the API. -/
  | create (release : Release) (buildId : Text)
  | act (releaseId : Text) (role : EffectiveProjectRole) (action : ReleaseAction)
      (fraction : Option F64)
  | promote (releaseId : Text) (target : PromotionTarget) (policy : ReleasePolicy)

/-- A request: what it writes at once, and the call it starts. -/
def enter (s : Board) : Input → Option (Board × List Call)
  | .pass now =>
    if s.busy then none
    else some ({ s with busy := true }, [.monitor (.next (s.dueLinks now))])
  | .upload upload releaseId now => (s.recordUpload upload releaseId now).map (·, [])
  | .create release buildId =>
    if insertable release && release.store = .appStore then
      (s.insert release ⟨release.id, buildId, none⟩ none).map (·, [])
    else none
  | .act releaseId role action fraction => do
    let current ← s.releases.find releaseId
    if checkProjectPermission role .read && allowedAction role current action &&
        (fraction.isNone || action = .raise) then
      let requested ← requestAction current fraction action
      return (s, [.action releaseId requested])
    else none
  | .promote releaseId target policy => do
    let source ← s.releases.find releaseId
    let origin ← s.origins.find releaseId
    return (s, [.promote { source, buildId := origin.buildId, target, policy }])

def step (s : Board) (call : Call) (answer : Answer) : Option (Board × Option Call) :=
  match call with
  | .monitor point => some ((monitorStep s answer point).map id (·.map .monitor))
  | .action releaseId .approve =>
    some (if answer.db.writes then s.approve releaseId answer.asc.now else s, none)
  | .action releaseId (.change change) => some ((s.move answer releaseId change).board, none)
  | .promote promotion =>
    let link := s.links.find promotion.source.id
    match answer.credentials, link, promoteWith answer.asc promotion.source.track link
      (s.held promotion.buildId) promotion.target with
    | .ok (), some link, .ok promoted => some (s, some (.recordPromotion promotion link promoted))
    | _, _, _ => some (s, none)
  | .recordPromotion promotion link promoted =>
    match answer.db.writes, s.recordPromotion promotion link promoted answer.newId answer.asc.now with
    | true, some s => some (s, none)
    | _, _ => some (s, none)

/-- The App Store side of the daemon. -/
def appStore : Interleave Board Call Input Answer where
  enter := enter
  advance := step
  drop s
    | .monitor _ => { s with busy := false }
    | _ => s
  restart s := { s with busy := false }

def Board.new : Board where
  releases := ⟨[], List.nodup_nil⟩
  origins := ⟨[], List.nodup_nil⟩
  links := ⟨[], List.nodup_nil⟩
  busy := false
  midway := none
  polls := []

end AppStore

end OoreBuild
