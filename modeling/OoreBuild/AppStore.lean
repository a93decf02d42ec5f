import OoreBuild.Config
import OoreBuild.Environments

/-!
# What a poll of App Store Connect decides

After the upload a release of the App Store is followed through the states that Apple shows for
it. `advance` is one look at it: from the recorded stage and Apple's answers it decides on the next
stage and on a change of the release. A promotion hands the same build to other testers or to the
App Store through the same calls (`promoteWith`).

Apple's answers are inputs (`AscAnswers`).
-/

namespace OoreBuild

namespace AppStore

open Text

/-! ## Settings -/

structure AppStoreReleaseNote where
  locale : Text
  whatsNew : Text
  deriving DecidableEq, Repr

structure AppStorePublishConfig where
  enabled : Bool := false
  destination : AppStoreDestination := .testflight
  testflightGroups : List Text := []
  releaseNotes : List AppStoreReleaseNote := []
  usesNonExemptEncryption : Bool := false
  submitForReview : Bool := false
  phasedRelease : Bool := false
  deriving DecidableEq, Repr

/-- Apple usually lists an upload within minutes; give up after three hours. -/
def buildDiscoveryTimeoutSecs : ℤ := 3 * 60 * 60

def pollProcessingSecs : ℤ := 60

def pollReviewSecs : ℤ := 5 * 60

def pollLiveSecs : ℤ := 15 * 60

def pollErrorSecs : ℤ := 5 * 60

/-- How long App Store Connect may keep failing for a release before it is marked failed. -/
def giveUpAfterSecs : ℤ := 24 * 60 * 60

/-- The release track of App Store versions; any other App Store track names TestFlight groups. -/
def appStoreTrack : Text := "app_store"

/-- The release track the settings produce. -/
def settingsTrack (config : AppStorePublishConfig) : Text :=
  match config.destination with
  | .testflight => join ", " config.testflightGroups
  | .appStore => appStoreTrack

/-- The parts between occurrences of `, `. -/
def splitGroups (fuel : ℕ) (track : Text) : List Text :=
  match fuel, splitFirst ", " track with
  | fuel + 1, some (group, rest) => group :: splitGroups fuel rest
  | _, _ => [track]

/-- TestFlight groups a track names. -/
def trackGroups (track : Text) : List Text :=
  ((splitGroups track.length track).map trim).filter (· ≠ [])

/-- What the runner reports of an upload. -/
structure RunnerPublishResult where
  track : Text
  testflightGroups : Option (List Text)
  deriving DecidableEq, Repr

/-- The settings an upload went out with. A runner that does not report its groups reports only
the track; one that the saved settings do not produce is read as its groups. -/
def uploadedConfig (config : AppStorePublishConfig) (reported : RunnerPublishResult) :
    AppStorePublishConfig :=
  let groups := match reported.testflightGroups with
    | some groups => (groups.map trim).filter (· ≠ [])
    | none =>
      let track := trim reported.track
      if track = [] ∨ track = appStoreTrack ∨ track = settingsTrack config then []
      else trackGroups track
  if groups = [] then config
  else
    { config with destination := .testflight, testflightGroups := groups
                  submitForReview := false, phasedRelease := false }

/-! ## Apple's states -/

/-- Where a release is in the flow, as its link records it. -/
inductive Stage where
  | awaitingBuild
  | distribute
  | betaReview
  | review
  | live
  | done
  deriving DecidableEq, Repr

inductive BuildProcessing where
  | processing
  | valid
  | failed
  deriving DecidableEq, Repr

structure AscBuild where
  id : Text
  processing : BuildProcessing
  usesNonExemptEncryption : Option Bool
  deriving DecidableEq, Repr

structure AscBetaGroup where
  id : Text
  name : Text
  isInternal : Bool
  hasAccessToAllBuilds : Bool
  deriving DecidableEq, Repr

/-- A build's TestFlight states. -/
structure AscBetaDetail where
  internal : Option Text
  external : Option Text
  deriving DecidableEq, Repr

/-- An App Store version and the state Apple shows for it. -/
structure AscVersion where
  id : Text
  versionString : Option Text
  state : Option Text
  deriving DecidableEq, Repr

structure AscPhasedRelease where
  id : Text
  state : Text
  currentDayNumber : Option ℤ
  deriving DecidableEq, Repr

/-- App Store versions Apple still lets the developer edit. -/
def versionIsEditable (state : Text) : Bool :=
  (["PREPARE_FOR_SUBMISSION", "DEVELOPER_REJECTED", "REJECTED", "METADATA_REJECTED",
    "INVALID_BINARY"] : List Text).contains state

/-- Share of users Apple's phased release has reached on a given day. -/
def phasedReleaseFraction (day : Option ℤ) : F64 :=
  let day := day.getD 1
  if day ≤ 1 then F64.ofRat (1 / 100)
  else if day = 2 then F64.ofRat (2 / 100)
  else if day = 3 then F64.ofRat (5 / 100)
  else if day = 4 then F64.ofRat (10 / 100)
  else if day = 5 then F64.ofRat (20 / 100)
  else if day = 6 then F64.ofRat (50 / 100)
  else .finite 1

/-- Release state implied by an App Store version state while it is in review. `none` means the
version went live and phased release decides. -/
def reviewOutcome (versionState : Text) : Option (ReleaseState × Text) :=
  if versionState = "READY_FOR_SALE" ∨ versionState = "READY_FOR_DISTRIBUTION" then none
  else if versionState = "PREPARE_FOR_SUBMISSION" ∨ versionState = "READY_FOR_REVIEW" then
    some (.inReview, "Build attached; submit the version for review in App Store Connect")
  else if versionState = "PENDING_DEVELOPER_RELEASE" then
    some (.inReview, "Approved by Apple; release the version in App Store Connect")
  else if versionState = "REJECTED" ∨ versionState = "METADATA_REJECTED" ∨
      versionState = "INVALID_BINARY" then
    some (.failed, "Rejected in App Store review")
  else if versionState = "DEVELOPER_REJECTED" then
    some (.failed, "Withdrawn from review in App Store Connect")
  else if versionState = "REMOVED_FROM_SALE" ∨ versionState = "DEVELOPER_REMOVED_FROM_SALE" ∨
      versionState = "REPLACED_WITH_NEW_VERSION" then
    some (.halted, "Version is no longer on the App Store")
  else some (.inReview, "In App Store review")

/-- Release state implied by a live version's phased release. -/
def liveOutcome (phasedState : Option Text) (day : Option ℤ) : ReleaseState × F64 × Text :=
  if phasedState = some "ACTIVE" then
    (.rolling, phasedReleaseFraction day, "Phased release in progress")
  else if phasedState = some "PAUSED" then
    (.paused, phasedReleaseFraction day, "Phased release paused")
  else if phasedState = some "INACTIVE" then
    (.rolling, .finite 0, "Phased release waiting to start")
  else (.complete, .finite 1, "Live for all users on the App Store")

/-- Release state implied by a build's external TestFlight state. -/
def betaReviewOutcome (externalState : Option Text) : Option (ReleaseState × Text) :=
  if externalState = some "BETA_APPROVED" ∨ externalState = some "IN_BETA_TESTING" then
    some (.complete, "Available to external TestFlight testers")
  else if externalState = some "BETA_REJECTED" then
    some (.failed, "Rejected in TestFlight beta review")
  else if externalState = some "EXPIRED" then some (.halted, "TestFlight build expired")
  else none

/-- Whether a processed build is ready to hand out. -/
inductive BetaReadiness where
  | ready
  | wait
  | failed (reason : Text)
  deriving DecidableEq, Repr

def betaReadiness (detail : AscBetaDetail) (waitedSecs : ℤ) : BetaReadiness :=
  if detail.internal = some "PROCESSING_EXCEPTION" then
    .failed "Apple could not prepare the build for TestFlight; check App Store Connect"
  else if detail.internal = some "MISSING_EXPORT_COMPLIANCE" ∧
      buildDiscoveryTimeoutSecs < waitedSecs then
    .failed ("Apple still needs export compliance for this build; answer it in App Store ".toList ++
      "Connect or set ITSAppUsesNonExemptEncryption in Info.plist")
  else if detail.internal = some "PROCESSING" ∧ buildDiscoveryTimeoutSecs < waitedSecs then
    .failed "Apple did not finish processing the build for TestFlight within three hours"
  else if detail.internal = some "PROCESSING" ∨ detail.internal = some "MISSING_EXPORT_COMPLIANCE"
  then .wait
  else .ready

/-- External states that mean the build was already submitted for (or has passed) TestFlight beta
review. -/
def betaReviewAlreadySubmitted (externalState : Option Text) : Bool :=
  externalState.any fun state =>
    (["WAITING_FOR_BETA_REVIEW", "IN_BETA_REVIEW", "BETA_APPROVED", "IN_BETA_TESTING",
      "BETA_REJECTED"] : List Text).contains state

/-- A TestFlight build Apple no longer offers to testers. -/
def testflightExpired (beta : AscBetaDetail) : Bool :=
  beta.internal = some "EXPIRED" || beta.external = some "EXPIRED"

/-! ## Apple's answers -/

/-- What App Store Connect answers while a release is looked at, and the clock. -/
structure AscAnswers where
  findAppId : Except Text (Option Text)
  findBuild : Except Text (Option AscBuild)
  setExportCompliance : Except Text Unit
  betaDetail : Except Text AscBetaDetail
  /-- By locale. -/
  setBetaWhatsNew : Text → Except Text Unit
  listBetaGroups : Except Text (List AscBetaGroup)
  addBuildToGroups : Except Text Unit
  submitForBetaReview : Except Text Unit
  findOrCreateVersion : Except Text Text
  findVersion : Except Text (Option AscVersion)
  findEditableVersion : Except Text (Option AscVersion)
  attachBuildToVersion : Except Text Unit
  /-- By locale. -/
  setVersionWhatsNew : Text → Except Text Unit
  enablePhasedRelease : Except Text Unit
  disablePhasedRelease : Except Text Unit
  submitForReview : Except Text Unit
  versionState : Except Text Text
  phasedRelease : Except Text (Option AscPhasedRelease)
  setPhasedReleaseState : Except Text Unit
  now : ℤ

/-- The link of a release with the release's state, as a poll reads them. The settings are the
default ones where the stored text cannot be read. -/
structure LinkRow where
  releaseId : Text
  pipelineId : Text
  bundleId : Text
  version : Text
  buildNumber : Text
  config : AppStorePublishConfig
  stage : Stage
  ascAppId : Option Text
  ascBuildId : Option Text
  ascVersionId : Option Text
  createdAt : ℤ
  releaseState : ReleaseState
  rolloutFraction : F64
  deriving DecidableEq, Repr

/-- Why a distribution stopped before it changed anything in App Store Connect. -/
inductive StepRefusal where
  | testflightGroupNotFound
  deriving DecidableEq, Repr

/-- What one look at a release decided. -/
structure Step where
  stage : Option Stage := none
  refusal : Option StepRefusal := none
  transition : Option (ReleaseState × Option F64 × Text) := none
  nextPollIn : ℤ
  ascAppId : Option Text := none
  ascBuildId : Option Text := none
  ascVersionId : Option Text := none
  /-- Apple's state for the version or build. -/
  storeStatus : Option Text := none
  deriving DecidableEq, Repr

def Step.wait (seconds : ℤ) : Step := { nextPollIn := seconds }

/-! ## Distribution -/

/-- The last note that could not be set. -/
def notesWarning (set : Text → Except Text Unit) (notes : List AppStoreReleaseNote) : Option Text :=
  notes.foldl (fun warning note => match set note.locale with
    | .ok () => warning
    | .error error => some error) none

def notesSuffix (warning : Option Text) : Text :=
  warning.elim [] fun warning => " (notes not set: " ++ warning ++ ")"

/-- The group of that name, or else the first one whose name differs only in its case. -/
def findGroup (groups : List AscBetaGroup) (name : Text) : Option AscBetaGroup :=
  (groups.find? (·.name = name)).or
    (groups.find? fun group => toAsciiLowercase group.name = toAsciiLowercase name)

/-- A retry after a partial failure must not submit a second time. -/
def submitForBetaReview (asc : AscAnswers) (beta : AscBetaDetail) : Except Text Unit :=
  if betaReviewAlreadySubmitted beta.external then .ok () else asc.submitForBetaReview

def distributeTestflight (asc : AscAnswers) (beta : AscBetaDetail) (config : AppStorePublishConfig)
    (step : Step) : Except Text Step := do
  let suffix := notesSuffix (notesWarning asc.setBetaWhatsNew config.releaseNotes)
  let groups ← asc.listBetaGroups
  let selected := config.testflightGroups.filterMap (findGroup groups)
  let missing := config.testflightGroups.filter fun name => (findGroup groups name).isNone
  if missing ≠ [] then
    return { step with
      stage := some .done
      refusal := some .testflightGroupNotFound
      transition := some (.failed, none,
        "TestFlight group not found: ".toList ++ join ", " missing) }
  else
    asc.addBuildToGroups
    let names := join ", " config.testflightGroups
    if selected.any (!·.isInternal) then
      submitForBetaReview asc beta
      return { step with
        stage := some .betaReview
        nextPollIn := pollReviewSecs
        transition := some (.inReview, none,
          "Added to ".toList ++ names ++ "; waiting for TestFlight beta review" ++ suffix) }
    else
      return { step with
        stage := some .done
        transition := some (.complete, some (.finite 1),
          "Available in TestFlight to ".toList ++ names ++ suffix) }

/-- The step with the version to attach to, which is found or created where it is not known. -/
def versionStep (asc : AscAnswers) (ascVersionId : Option Text) (step : Step) :
    Except Text Step :=
  match ascVersionId with
  | some _ => .ok step
  | none => asc.findOrCreateVersion.map fun id => { step with ascVersionId := some id }

/-- A reused editable version may still carry an earlier phased release. -/
def setPhasedRelease (asc : AscAnswers) (config : AppStorePublishConfig) : Except Text Unit :=
  if config.phasedRelease then asc.enablePhasedRelease else asc.disablePhasedRelease

def distributeAppStore (asc : AscAnswers) (version : Text) (ascVersionId : Option Text)
    (config : AppStorePublishConfig) (step : Step) : Except Text Step := do
  let step ← versionStep asc ascVersionId step
  asc.attachBuildToVersion
  let suffix := notesSuffix (notesWarning asc.setVersionWhatsNew config.releaseNotes)
  setPhasedRelease asc config
  let step := { step with stage := some Stage.review, nextPollIn := pollReviewSecs }
  if config.submitForReview then
    asc.submitForReview
    return { step with
      transition := some (.inReview, none,
        "Submitted version ".toList ++ version ++ " for App Store review" ++ suffix) }
  else
    return { step with
      transition := some (.inReview, none, "Build attached to version ".toList ++ version ++
        "; submit it for review in App Store Connect" ++ suffix) }

/-! ## One look at a release -/

/-- The step that gives the release up. -/
def Step.fail (step : Step) (reason : Text) : Step :=
  { step with stage := some .done, transition := some (.failed, none, reason) }

/-- Answer the export compliance question where the build leaves it open. -/
def answerCompliance (asc : AscAnswers) (build : AscBuild) : Except Text Unit :=
  if build.usesNonExemptEncryption.isNone then asc.setExportCompliance else .ok ()

def advanceAwaitingBuild (asc : AscAnswers) (link : LinkRow) (step : Step) :
    Except Text Step := do
  match ← asc.findBuild with
  | none =>
    if buildDiscoveryTimeoutSecs < asc.now - link.createdAt then
      return step.fail ("App Store Connect did not list build ".toList ++ link.version ++ " (" ++
        link.buildNumber ++ ") within three hours")
    else return step
  | some build =>
    let step := { step with ascBuildId := some build.id }
    match build.processing with
    | .processing => return step
    | .failed =>
      return step.fail "Apple could not process the build; check the email App Store Connect sent"
    | .valid => do
      answerCompliance asc build
      return { step with stage := some Stage.distribute, nextPollIn := 0 }

def advanceDistribute (asc : AscAnswers) (link : LinkRow) (step : Step) : Except Text Step :=
  if link.ascBuildId.isNone then .error "App Store build ID was not recorded"
  else do
    let beta ← asc.betaDetail
    match betaReadiness beta (asc.now - link.createdAt) with
    | .wait => return step
    | .failed reason => return step.fail reason
    | .ready => match link.config.destination with
      | .testflight => distributeTestflight asc beta link.config step
      | .appStore => distributeAppStore asc link.version link.ascVersionId link.config step

def advanceBetaReview (asc : AscAnswers) (link : LinkRow) (step : Step) : Except Text Step :=
  if link.ascBuildId.isNone then .error "App Store build ID was not recorded"
  else do
    let beta ← asc.betaDetail
    let step := { step with nextPollIn := pollReviewSecs, storeStatus := beta.external }
    match betaReviewOutcome beta.external with
    | none => return step
    | some (state, reason) => return { step with
        stage := some Stage.done
        transition := some
          (state, if state = .complete then some (.finite 1) else none, reason) }

def advanceReview (asc : AscAnswers) (link : LinkRow) (step : Step) : Except Text Step :=
  if link.ascVersionId.isNone then .error "App Store version ID was not recorded"
  else do
    let versionState ← asc.versionState
    let step := { step with nextPollIn := pollReviewSecs, storeStatus := some versionState }
    match reviewOutcome versionState with
    | none => return { step with stage := some Stage.live, nextPollIn := 0 }
    | some (state, reason) => return { step with
        stage := if state = .failed ∨ state = .halted then some Stage.done else step.stage
        transition := some (state, none, reason) }

def advanceLive (asc : AscAnswers) (link : LinkRow) (step : Step) : Except Text Step :=
  if link.ascVersionId.isNone then .error "App Store version ID was not recorded"
  else do
    let phased ← asc.phasedRelease
    let (state, fraction, reason) :=
      liveOutcome (phased.map (·.state)) (phased.bind (·.currentDayNumber))
    return { step with
      nextPollIn := pollLiveSecs
      stage := if state = .complete then some Stage.done else step.stage
      transition := some (state, some fraction, reason) }

/-- What the stage asks for once the app is known. -/
def advanceStage (asc : AscAnswers) (link : LinkRow) (step : Step) : Except Text Step :=
  match link.stage with
  | .awaitingBuild => advanceAwaitingBuild asc link step
  | .distribute => advanceDistribute asc link step
  | .betaReview => advanceBetaReview asc link step
  | .review => advanceReview asc link step
  | .live => advanceLive asc link step
  | .done => .ok (Step.wait pollLiveSecs)

/-- One look at a release. -/
def advance (asc : AscAnswers) (link : LinkRow) : Except Text Step :=
  let step := Step.wait pollProcessingSecs
  match link.ascAppId with
  | some _ => advanceStage asc link step
  | none => do
    match ← asc.findAppId with
    | some id => advanceStage asc link { step with ascAppId := some id }
    | none =>
      return step.fail ("App Store Connect has no app with bundle ID ".toList ++ link.bundleId)

/-! ## What a look can decide -/

/-- Apple shows the build as expired or the version as gone, at a stage that looks for it. -/
def Withdrawn (asc : AscAnswers) (link : LinkRow) : Prop :=
  (link.stage = .betaReview ∧ ∃ beta, asc.betaDetail = .ok beta ∧
    (betaReviewOutcome beta.external).map (·.1) = some .halted) ∨
  (link.stage = .review ∧ ∃ versionState, asc.versionState = .ok versionState ∧
    (reviewOutcome versionState).map (·.1) = some .halted)

/-- A stage before the version is live. -/
def Stage.isEarly : Stage → Bool
  | live | done => false
  | _ => true

/-- The outcomes of a look at a release. -/
inductive Decided (asc : AscAnswers) (link : LinkRow) (step : Step) : Prop where
  | nothing (transition : step.transition = none) (stage : step.stage = none)
      (later : step.nextPollIn ≠ 0)
  | goesOn (next : Stage) (transition : step.transition = none) (stage : step.stage = some next)
      (order : link.stage = .awaitingBuild ∧ next = .distribute ∨
        link.stage = .review ∧ next = .live)
  | inReview (fraction : Option F64) (reason : Text)
      (transition : step.transition = some (.inReview, fraction, reason))
      (stage : step.stage = none ∨ step.stage = some .betaReview ∨ step.stage = some .review)
      (early : link.stage.isEarly = true) (later : step.nextPollIn ≠ 0)
  | live (state : ReleaseState) (fraction : Option F64) (reason : Text)
      (transition : step.transition = some (state, fraction, reason))
      (isLive : state = .rolling ∨ state = .paused) (stage : step.stage = none)
      (now : link.stage = .live) (later : step.nextPollIn ≠ 0)
  | ends (state : ReleaseState) (fraction : Option F64) (reason : Text)
      (transition : step.transition = some (state, fraction, reason))
      (isEnd : state = .complete ∨ state = .failed) (stage : step.stage = some .done)
      (later : step.nextPollIn ≠ 0)
  | withdrawn (fraction : Option F64) (reason : Text)
      (transition : step.transition = some (.halted, fraction, reason))
      (stage : step.stage = some .done) (apple : Withdrawn asc link) (later : step.nextPollIn ≠ 0)

theorem liveOutcome_state (phasedState : Option Text) (day : Option ℤ) :
    (liveOutcome phasedState day).1 = .rolling ∨ (liveOutcome phasedState day).1 = .paused ∨
      (liveOutcome phasedState day).1 = .complete := by
  unfold liveOutcome
  split_ifs <;> simp

section Decided

variable {asc : AscAnswers} {link : LinkRow} {step₀ step : Step}

/-- What a look starts from: nothing is decided. -/
structure Step.Open (step : Step) : Prop where
  transition : step.transition = none
  stage : step.stage = none
  later : step.nextPollIn ≠ 0

theorem Step.Open.decided_fail (h : step₀.Open) (reason : Text) :
    Decided asc link (step₀.fail reason) :=
  .ends .failed none reason rfl (.inr rfl) rfl h.later

theorem decided_awaitingBuild (h : step₀.Open) (hstage : link.stage = .awaitingBuild)
    (hstep : advanceAwaitingBuild asc link step₀ = .ok step) : Decided asc link step := by
  obtain ⟨found, -, hstep⟩ := bind_eq_ok.mp hstep
  cases found with
  | none =>
    dsimp only at hstep
    split at hstep
    · cases hstep
      exact h.decided_fail _
    · cases hstep
      exact .nothing h.transition h.stage h.later
  | some build =>
    dsimp only at hstep
    cases hprocessing : build.processing with
    | processing =>
      rw [hprocessing] at hstep
      cases hstep
      exact .nothing h.transition h.stage h.later
    | failed =>
      rw [hprocessing] at hstep
      cases hstep
      exact .ends .failed none _ rfl (.inr rfl) rfl h.later
    | valid =>
      rw [hprocessing] at hstep
      obtain ⟨-, -, hstep⟩ := bind_eq_ok.mp hstep
      cases hstep
      exact .goesOn .distribute h.transition rfl (.inl ⟨hstage, rfl⟩)

/-- Handing a build to testers ends, waits for their review, or finds a group missing. -/
theorem distributeTestflight_ok {beta : AscBetaDetail} {config : AppStorePublishConfig}
    (h : distributeTestflight asc beta config step₀ = .ok step) :
    ∃ state fraction reason, step.transition = some (state, fraction, reason) ∧
      (step.nextPollIn = step₀.nextPollIn ∨ step.nextPollIn = pollReviewSecs) ∧
      (state = .failed ∧ step.stage = some .done ∨ state = .complete ∧ step.stage = some .done ∨
        state = .inReview ∧ step.stage = some .betaReview) := by
  obtain ⟨groups, -, h⟩ := bind_eq_ok.mp h
  dsimp only at h
  split at h
  · cases h
    exact ⟨_, _, _, rfl, .inl rfl, .inl ⟨rfl, rfl⟩⟩
  · obtain ⟨-, -, h⟩ := bind_eq_ok.mp h
    split at h
    · obtain ⟨-, -, h⟩ := bind_eq_ok.mp h
      cases h
      exact ⟨_, _, _, rfl, .inr rfl, .inr (.inr ⟨rfl, rfl⟩)⟩
    · cases h
      exact ⟨_, _, _, rfl, .inl rfl, .inr (.inl ⟨rfl, rfl⟩)⟩

/-- Attaching a build to a version leaves it to the review. -/
theorem distributeAppStore_ok {version : Text} {versionId : Option Text}
    {config : AppStorePublishConfig}
    (h : distributeAppStore asc version versionId config step₀ = .ok step) :
    ∃ reason, step.transition = some (.inReview, none, reason) ∧ step.stage = some .review ∧
      step.nextPollIn = pollReviewSecs ∧ step.refusal = step₀.refusal := by
  obtain ⟨step₁, hversion, h⟩ := bind_eq_ok.mp h
  have hrefusal : step₁.refusal = step₀.refusal := by
    unfold versionStep at hversion
    cases versionId with
    | some id =>
      cases hversion
      rfl
    | none =>
      cases hfound : asc.findOrCreateVersion with
      | error error =>
        rw [hfound] at hversion
        cases hversion
      | ok id =>
        rw [hfound] at hversion
        cases hversion
        rfl
  obtain ⟨-, -, h⟩ := bind_eq_ok.mp h
  obtain ⟨-, -, h⟩ := bind_eq_ok.mp h
  dsimp only at h
  split at h
  · obtain ⟨-, -, h⟩ := bind_eq_ok.mp h
    cases h
    exact ⟨_, rfl, rfl, rfl, hrefusal⟩
  · cases h
    exact ⟨_, rfl, rfl, rfl, hrefusal⟩

theorem decided_distribute (h : step₀.Open) (hstage : link.stage = .distribute)
    (hstep : advanceDistribute asc link step₀ = .ok step) : Decided asc link step := by
  have hearly : link.stage.isEarly = true := by rw [hstage]; rfl
  unfold advanceDistribute at hstep
  split at hstep
  · cases hstep
  · obtain ⟨beta, -, hstep⟩ := bind_eq_ok.mp hstep
    cases hready : betaReadiness beta (asc.now - link.createdAt) with
    | wait =>
      rw [hready] at hstep
      cases hstep
      exact .nothing h.transition h.stage h.later
    | failed reason =>
      rw [hready] at hstep
      cases hstep
      exact h.decided_fail reason
    | ready =>
      rw [hready] at hstep
      cases hdestination : link.config.destination with
      | testflight =>
        rw [hdestination] at hstep
        obtain ⟨state, fraction, reason, htransition, hnext, hstate⟩ :=
          distributeTestflight_ok hstep
        have hlater : step.nextPollIn ≠ 0 := by
          rcases hnext with hnext | hnext
          · rw [hnext]
            exact h.later
          · rw [hnext]
            decide
        rcases hstate with ⟨rfl, hdone⟩ | ⟨rfl, hdone⟩ | ⟨rfl, hreview⟩
        · exact .ends .failed _ _ htransition (.inr rfl) hdone hlater
        · exact .ends .complete _ _ htransition (.inl rfl) hdone hlater
        · exact .inReview _ _ htransition (.inr (.inl hreview)) hearly hlater
      | appStore =>
        rw [hdestination] at hstep
        obtain ⟨reason, htransition, hreview, hnext, -⟩ := distributeAppStore_ok hstep
        exact .inReview _ _ htransition (.inr (.inr hreview)) hearly (by rw [hnext]; decide)

theorem decided_betaReview (h : step₀.Open) (hstage : link.stage = .betaReview)
    (hstep : advanceBetaReview asc link step₀ = .ok step) : Decided asc link step := by
  unfold advanceBetaReview at hstep
  split at hstep
  · cases hstep
  · obtain ⟨beta, hbeta, hstep⟩ := bind_eq_ok.mp hstep
    dsimp only at hstep
    cases houtcome : betaReviewOutcome beta.external with
    | none =>
      rw [houtcome] at hstep
      cases hstep
      exact .nothing h.transition h.stage (by show pollReviewSecs ≠ 0; decide)
    | some outcome =>
      rw [houtcome] at hstep
      cases hstep
      have hstates : outcome.1 = .complete ∨ outcome.1 = .failed ∨ outcome.1 = .halted := by
        unfold betaReviewOutcome at houtcome
        split_ifs at houtcome <;> cases houtcome <;> simp
      rcases hstates with hstate | hstate | hstate
      · exact .ends _ _ _ rfl (.inl hstate) rfl (by show pollReviewSecs ≠ 0; decide)
      · exact .ends _ _ _ rfl (.inr hstate) rfl (by show pollReviewSecs ≠ 0; decide)
      · refine .withdrawn _ _ (by simp only [hstate]; rfl) rfl (.inl ⟨hstage, beta, hbeta, ?_⟩)
          (by show pollReviewSecs ≠ 0; decide)
        rw [houtcome, Option.map_some, hstate]

theorem decided_review (h : step₀.Open) (hstage : link.stage = .review)
    (hstep : advanceReview asc link step₀ = .ok step) : Decided asc link step := by
  have hearly : link.stage.isEarly = true := by rw [hstage]; rfl
  unfold advanceReview at hstep
  split at hstep
  · cases hstep
  · obtain ⟨versionState, hversion, hstep⟩ := bind_eq_ok.mp hstep
    dsimp only at hstep
    cases houtcome : reviewOutcome versionState with
    | none =>
      rw [houtcome] at hstep
      cases hstep
      exact .goesOn .live h.transition rfl (.inr ⟨hstage, rfl⟩)
    | some outcome =>
      rw [houtcome] at hstep
      cases hstep
      have hstates : outcome.1 = .inReview ∨ outcome.1 = .failed ∨ outcome.1 = .halted := by
        unfold reviewOutcome at houtcome
        split_ifs at houtcome <;> cases houtcome <;> simp
      rcases hstates with hstate | hstate | hstate
      · refine .inReview none outcome.2 (by simp only [hstate]) (.inl ?_) hearly
          (by show pollReviewSecs ≠ 0; decide)
        simp only [hstate]
        exact h.stage
      · exact .ends outcome.1 none outcome.2 rfl (.inr hstate) (by simp [hstate])
          (by show pollReviewSecs ≠ 0; decide)
      · refine .withdrawn none outcome.2 (by simp only [hstate]) (by simp [hstate])
          (.inr ⟨hstage, versionState, hversion, ?_⟩) (by show pollReviewSecs ≠ 0; decide)
        rw [houtcome, Option.map_some, hstate]

theorem decided_live (h : step₀.Open) (hstage : link.stage = .live)
    (hstep : advanceLive asc link step₀ = .ok step) : Decided asc link step := by
  unfold advanceLive at hstep
  split at hstep
  · cases hstep
  · obtain ⟨phased, -, hstep⟩ := bind_eq_ok.mp hstep
    dsimp only at hstep
    have hstates := liveOutcome_state (phased.map (·.state)) (phased.bind (·.currentDayNumber))
    generalize liveOutcome (phased.map (·.state)) (phased.bind (·.currentDayNumber)) = outcome
      at hstates hstep
    obtain ⟨state, fraction, reason⟩ := outcome
    cases hstep
    dsimp only at hstates
    have hlater : pollLiveSecs ≠ 0 := by decide
    rcases hstates with rfl | rfl | rfl
    · exact .live .rolling _ _ rfl (.inl rfl) h.stage hstage hlater
    · exact .live .paused _ _ rfl (.inr rfl) h.stage hstage hlater
    · exact .ends .complete _ _ rfl (.inl rfl) rfl hlater

theorem decided_stage (h : step₀.Open) (hstep : advanceStage asc link step₀ = .ok step) :
    Decided asc link step := by
  cases hstage : link.stage with
  | awaitingBuild =>
    simp only [advanceStage, hstage] at hstep
    exact decided_awaitingBuild h hstage hstep
  | distribute =>
    simp only [advanceStage, hstage] at hstep
    exact decided_distribute h hstage hstep
  | betaReview =>
    simp only [advanceStage, hstage] at hstep
    exact decided_betaReview h hstage hstep
  | review =>
    simp only [advanceStage, hstage] at hstep
    exact decided_review h hstage hstep
  | live =>
    simp only [advanceStage, hstage] at hstep
    exact decided_live h hstage hstep
  | done =>
    simp only [advanceStage, hstage] at hstep
    cases hstep
    exact .nothing rfl rfl (by decide)

/-- Every look comes to one of the outcomes. -/
theorem decided_of_advance (hstep : advance asc link = .ok step) : Decided asc link step := by
  have hopen : (Step.wait pollProcessingSecs).Open := ⟨rfl, rfl, by decide⟩
  unfold advance at hstep
  split at hstep
  · exact decided_stage hopen hstep
  · obtain ⟨found, -, hstep⟩ := bind_eq_ok.mp hstep
    cases found with
    | some id =>
      have hknown : ({ Step.wait pollProcessingSecs with ascAppId := some id } : Step).Open :=
        ⟨hopen.transition, hopen.stage, hopen.later⟩
      exact decided_stage hknown hstep
    | none =>
      cases hstep
      exact hopen.decided_fail _

end Decided

/-! ## The release's way to a state -/

/-- The states to pass through to reach `target`. A build that goes straight from processing to
fully available passes through `rolling` on the way. -/
def transitionPath (source target : ReleaseState) : List ReleaseState :=
  if source.canTransitionTo target then [target]
  else if (target = .complete ∨ target = .paused) ∧ source.canTransitionTo .rolling then
    [.rolling, target]
  else if target = .halted ∧ source.canTransitionTo .failed then [.failed]
  else []

/-- The difference of 1 and the next larger number. -/
def epsilon : F64 := F64.ofRat (1 / 2 ^ 52)

def stateMatches (current : ReleaseState) (fraction : F64) (next : ReleaseState)
    (nextFraction : Option F64) : Bool :=
  current = next &&
    nextFraction.all fun nextFraction => ((nextFraction.sub fraction).abs).lt epsilon

/-- The fraction recorded with a state on the way. -/
def hopFraction (target : ReleaseState) (targetFraction : Option F64) (state : ReleaseState) :
    Option F64 :=
  if state = .rolling ∧ target ≠ .rolling then targetFraction.or (some (.finite 1))
  else targetFraction

/-- Apple only raises phased releases; a step down is not recorded. -/
def stepsDown (link : LinkRow) (state : ReleaseState) (fraction : Option F64) : Bool :=
  link.releaseState = .rolling && state = .rolling && fraction.any (·.le link.rolloutFraction)

/-- The changes that record a step, in order. -/
def stepChanges (link : LinkRow) (step : Step) : List (ReleaseState × Option F64) :=
  match step.transition with
  | none => []
  | some (target, fraction, _) =>
    if stateMatches link.releaseState link.rolloutFraction target fraction then []
    else ((transitionPath link.releaseState target).map fun state =>
      (state, hopFraction target fraction state)).filter fun change =>
        !stepsDown link change.1 change.2

/-- A release that the monitor looks at. -/
def followed (state : ReleaseState) : Bool :=
  state ≠ .complete && state ≠ .failed && state ≠ .halted

/-- A state before the release reached anyone. -/
def isEarlyState (state : ReleaseState) : Bool :=
  state = .uploading || state = .processing || state = .inReview

/-- The changes to a state other than the one that was read. -/
theorem stepChanges_of {link : LinkRow} {step : Step} {target : ReleaseState}
    {fraction : Option F64} {reason : Text}
    (h : step.transition = some (target, fraction, reason)) (hne : link.releaseState ≠ target) :
    stepChanges link step = ((transitionPath link.releaseState target).map fun state =>
      (state, hopFraction target fraction state)).filter fun change =>
        !stepsDown link change.1 change.2 := by
  unfold stepChanges
  rw [h]
  have hmatches : stateMatches link.releaseState link.rolloutFraction target fraction = false := by
    simp [stateMatches, hne]
  simp [hmatches]

/-- The way to an end leads there. -/
theorem stepChanges_of_end {link : LinkRow} {step : Step} {target : ReleaseState}
    {fraction : Option F64} {reason : Text}
    (h : step.transition = some (target, fraction, reason))
    (hend : target = .complete ∨ target = .failed) (hfollowed : followed link.releaseState = true) :
    stepChanges link step = [(target, fraction)] ∨
      isEarlyState link.releaseState = true ∧ target = .complete ∧
        stepChanges link step =
          [(.rolling, fraction.or (some (.finite 1))), (target, fraction)] := by
  have hne : link.releaseState ≠ target := by
    rintro heq
    rw [heq] at hfollowed
    rcases hend with rfl | rfl <;> cases hfollowed
  rw [stepChanges_of h hne]
  rcases hend with rfl | rfl
  · cases hstate : link.releaseState <;>
      simp_all [transitionPath, hopFraction, stepsDown, followed, isEarlyState,
        ReleaseState.canTransitionTo, ReleaseState.validTransitions]
  · left
    cases hstate : link.releaseState <;>
      simp_all [transitionPath, hopFraction, stepsDown, followed,
        ReleaseState.canTransitionTo, ReleaseState.validTransitions]

/-- A release that was withdrawn before it reached anyone has failed. -/
theorem stepChanges_of_withdrawn {link : LinkRow} {step : Step} {fraction : Option F64}
    {reason : Text} (h : step.transition = some (.halted, fraction, reason))
    (hearly : isEarlyState link.releaseState = true) :
    stepChanges link step = [(.failed, fraction)] := by
  have hne : link.releaseState ≠ .halted := by
    rintro heq
    rw [heq] at hearly
    cases hearly
  rw [stepChanges_of h hne]
  cases hstate : link.releaseState <;>
    simp_all [transitionPath, hopFraction, stepsDown, isEarlyState,
      ReleaseState.canTransitionTo, ReleaseState.validTransitions]

/-! ## Promotion -/

/-- A row of `app_store_release_links`. -/
structure ReleaseLink where
  releaseId : Text
  pipelineId : Text
  bundleId : Text
  version : Text
  buildNumber : Text
  config : AppStorePublishConfig
  stage : Stage
  ascAppId : Option Text
  ascBuildId : Option Text
  ascVersionId : Option Text
  storeStatus : Option Text
  lastError : Option Text
  failingSince : Option ℤ
  nextPollAt : ℤ
  createdAt : ℤ
  deriving DecidableEq, Repr

/-- Where a promotion goes. -/
structure PromotionTarget where
  track : Text
  phasedRelease : Bool
  submitForReview : Bool
  deriving DecidableEq, Repr

inductive PromoteError where
  | refused (code message : Text)
  | failed (message : Text)
  deriving DecidableEq, Repr

/-- What the store did for a promotion: the state and fraction the new release starts with, and its
link, which is polled in `nextPollIn` seconds. -/
structure Promoted where
  state : ReleaseState
  fraction : F64
  detail : Text
  config : AppStorePublishConfig
  stage : Stage
  ascAppId : Text
  ascBuildId : Text
  ascVersionId : Option Text
  nextPollIn : ℤ
  deriving DecidableEq, Repr

def ascFailed {α : Type} (x : Except Text α) : Except PromoteError α := x.mapError .failed

/-- The App Store version to attach a build of `version` to: the version with that string, while
Apple still lets it change. -/
def promotionVersion (asc : AscAnswers) (version : Text) : Except PromoteError Text := do
  match ← ascFailed asc.findVersion with
  | some existing =>
    let state := existing.state.getD "UNKNOWN"
    if versionIsEditable state then return existing.id
    else .error (.refused "version_not_editable" ("App Store version ".toList ++ version ++
      " is " ++ state ++
      " in App Store Connect, so no other build can be attached to it"))
  | none =>
    match ← ascFailed asc.findEditableVersion with
    | some editable => .error (.refused "version_mismatch"
        ("The editable App Store version is ".toList ++ editable.versionString.getD "unnamed" ++
          ", but the build is " ++ version ++
          ". Change the version in App Store Connect to " ++ version ++ ", then promote again."))
    | none => .error (.refused "no_editable_version"
        ("App Store Connect has no editable App Store version for this app. Create version ".toList
          ++ version ++ " in App Store Connect, then promote again."))

/-- Refuse to attach a build to a version that another build is attached to. `held` is the version
and build number of a link that holds the version. -/
def ensureVersionFree (held : Option (Text × Text)) : Except PromoteError Unit :=
  match held with
  | some (version, buildNumber) => .error (.refused "version_held_by_other_build"
      ("App Store version ".toList ++ version ++ " already has build " ++ version ++ " (" ++
        buildNumber ++ ") attached, in review or releasing. " ++
        "Wait until that release finishes or fails, then promote again."))
  | none => .ok ()

/-- The settings of a promoted release. No notes: the build keeps those its upload set. -/
def promotedConfig (uploaded : AppStorePublishConfig) (target : PromotionTarget) :
    AppStorePublishConfig :=
  let config : AppStorePublishConfig :=
    { enabled := true, usesNonExemptEncryption := uploaded.usesNonExemptEncryption }
  if target.track = appStoreTrack then
    { config with destination := .appStore, submitForReview := target.submitForReview
                  phasedRelease := target.phasedRelease }
  else { config with testflightGroups := trackGroups target.track }

/-- Hand the build out to the target, and the version of the App Store it is attached to. -/
def promoteDistribute (asc : AscAnswers) (held : Text → Option (Text × Text)) (link : ReleaseLink)
    (beta : AscBetaDetail) (target : PromotionTarget) :
    Except PromoteError (Step × Option Text) :=
  let config := promotedConfig link.config target
  if target.track = appStoreTrack then do
    let versionId ← promotionVersion asc link.version
    ensureVersionFree (held versionId)
    let step ← ascFailed
      (distributeAppStore asc link.version (some versionId) config (Step.wait 0))
    return (step, some versionId)
  else do
    let step ← ascFailed (distributeTestflight asc beta config (Step.wait 0))
    return (step, none)

/-- What the step of a promotion comes to. -/
def promoteOutcome (config : AppStorePublishConfig) (appId buildId : Text) (step : Step)
    (versionId : Option Text) : Except PromoteError Promoted :=
  match step.transition, step.refusal with
  | none, _ => .error (.failed "App Store Connect distribution returned no outcome")
  | some (_, _, detail), some .testflightGroupNotFound =>
    .error (.refused "testflight_group_not_found" detail)
  | some (state, fraction, detail), none =>
    if state = .failed then .error (.failed detail)
    else .ok
      { state, fraction := fraction.getD (.finite 0), detail, config
        stage := step.stage.getD .done, ascAppId := appId, ascBuildId := buildId
        ascVersionId := step.ascVersionId.or versionId, nextPollIn := step.nextPollIn }

/-- The app of the build in App Store Connect. -/
def promotionAppId (asc : AscAnswers) (link : ReleaseLink) : Except PromoteError Text :=
  match link.ascAppId with
  | some id => .ok id
  | none => do
    match ← ascFailed asc.findAppId with
    | some id => return id
    | none => .error (.refused "no_source_release"
        ("App Store Connect has no app with bundle ID ".toList ++ link.bundleId))

/-- Hand the build that a release already put in TestFlight to more groups or to the app's App
Store version. `link` is the source's link; `held` finds who holds a version. -/
def promoteWith (asc : AscAnswers) (sourceTrack : Text) (link : Option ReleaseLink)
    (held : Text → Option (Text × Text)) (target : PromotionTarget) :
    Except PromoteError Promoted :=
  if sourceTrack = appStoreTrack then .error (.refused "promotion_unsupported"
    ("A release on the App Store cannot be promoted further; ".toList ++
      "promote from a TestFlight release"))
  else match link with
  | none => .error (.refused "no_source_release" ("Oore did not upload this release to ".toList ++
      "App Store Connect, so it cannot find its build there"))
  | some link => match link.ascBuildId with
    | none => .error (.refused "no_source_release" ("App Store Connect has not listed ".toList ++
        "this build yet; promote it once it is in TestFlight"))
    | some buildId => do
      let appId ← promotionAppId asc link
      let beta ← ascFailed asc.betaDetail
      if testflightExpired beta then
        .error (.refused "build_expired" ("Build ".toList ++ link.version ++ " (" ++
          link.buildNumber ++ ") has expired in TestFlight, so it can no longer be promoted. " ++
          "Upload a new build."))
      else
        let (step, versionId) ← promoteDistribute asc held link beta target
        promoteOutcome (promotedConfig link.config target) appId buildId step versionId

/-- A promoted release waits for a review, or is complete and its link has ended. -/
theorem promoteWith_ok {asc : AscAnswers} {sourceTrack : Text} {link : Option ReleaseLink}
    {held : Text → Option (Text × Text)} {target : PromotionTarget} {promoted : Promoted}
    (h : promoteWith asc sourceTrack link held target = .ok promoted) :
    promoted.state = .inReview ∧ promoted.stage.isEarly = true ∨
      promoted.state = .complete ∧ promoted.stage = .done := by
  have houtcome : ∀ {config : AppStorePublishConfig} {appId buildId : Text} {step : Step}
      {versionId : Option Text}, promoteOutcome config appId buildId step versionId = .ok promoted →
      ∃ fraction, step.transition = some (promoted.state, fraction, promoted.detail) ∧
        promoted.state ≠ .failed ∧ promoted.stage = step.stage.getD .done := by
    intro config appId buildId step versionId h
    unfold promoteOutcome at h
    split at h
    · cases h
    · cases h
    · rename_i state fraction detail htransition hrefusal
      split at h
      · cases h
      · rename_i hstate
        cases h
        exact ⟨fraction, htransition, hstate, rfl⟩
  have hdistribute : ∀ {held : Text → Option (Text × Text)} {link : ReleaseLink}
      {beta : AscBetaDetail} {step : Step} {versionId : Option Text},
      promoteDistribute asc held link beta target = .ok (step, versionId) →
      ∃ state fraction reason, step.transition = some (state, fraction, reason) ∧
        (state = .failed ∨ state = .complete ∧ step.stage = some .done ∨
          state = .inReview ∧ (step.stage = some .betaReview ∨ step.stage = some .review)) := by
    intro held link beta step versionId h
    unfold promoteDistribute at h
    dsimp only at h
    split at h
    · obtain ⟨id, -, h⟩ := bind_eq_ok.mp h
      obtain ⟨-, -, h⟩ := bind_eq_ok.mp h
      obtain ⟨step', hstep, h⟩ := bind_eq_ok.mp h
      cases h
      obtain ⟨reason, htransition, hstage, -⟩ := distributeAppStore_ok (mapError_eq_ok.mp hstep)
      exact ⟨_, _, reason, htransition, .inr (.inr ⟨rfl, .inr hstage⟩)⟩
    · obtain ⟨step', hstep, h⟩ := bind_eq_ok.mp h
      cases h
      obtain ⟨state, fraction, reason, htransition, -, hstate⟩ :=
        distributeTestflight_ok (mapError_eq_ok.mp hstep)
      refine ⟨state, fraction, reason, htransition, ?_⟩
      rcases hstate with ⟨hstate, -⟩ | hstate | ⟨hstate, hstage⟩
      · exact .inl hstate
      · exact .inr (.inl hstate)
      · exact .inr (.inr ⟨hstate, .inl hstage⟩)
  unfold promoteWith at h
  split at h
  · cases h
  · cases link with
    | none => cases h
    | some link =>
      dsimp only at h
      cases hbuild : link.ascBuildId with
      | none =>
        rw [hbuild] at h
        cases h
      | some buildId =>
        rw [hbuild] at h
        dsimp only at h
        obtain ⟨appId, -, h⟩ := bind_eq_ok.mp h
        obtain ⟨beta, -, h⟩ := bind_eq_ok.mp h
        split at h
        · cases h
        · obtain ⟨⟨step, versionId⟩, hstep, h⟩ := bind_eq_ok.mp h
          obtain ⟨state, fraction, reason, htransition, hstate⟩ := hdistribute hstep
          obtain ⟨fraction', htransition', hnot, hstage⟩ := houtcome h
          rw [htransition] at htransition'
          cases htransition'
          rcases hstate with hstate | ⟨hstate, hdone⟩ | ⟨hstate, hreview⟩
          · exact absurd hstate hnot
          · exact .inr ⟨hstate, by rw [hstage, hdone]; rfl⟩
          · refine .inl ⟨hstate, ?_⟩
            rw [hstage]
            rcases hreview with hreview | hreview
            · rw [hreview]
              rfl
            · rw [hreview]
              rfl

end AppStore

end OoreBuild
