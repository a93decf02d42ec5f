import OoreBuild.Lib.F64
import OoreBuild.Lib.Table
import OoreBuild.Lib.Text

/-!
# Store releases

A release is tracked from its upload to 100% rollout. Every state or fraction change goes through
`transitionRelease`, which applies the change at the store first and then writes the row. The
rollout monitor (`runRolloutTick`) syncs each Google Play release with the store, checks its
crash rate, halts it on a breach and takes the steps that are due.

The store's answers are inputs (`Outcomes`); database calls succeed. History, audit log and
published events are only written, never read, and are left out.
-/

namespace OoreBuild

open Text

/-! ## Releases -/

inductive ReleaseStore where
  | googlePlay
  | appStore
  deriving DecidableEq, Repr

inductive ReleaseState where
  | uploading
  | processing
  | inReview
  | rolling
  | paused
  | halted
  | complete
  | failed
  deriving DecidableEq, Repr

namespace ReleaseState

def asStr : ReleaseState → Text
  | uploading => "uploading"
  | processing => "processing"
  | inReview => "in_review"
  | rolling => "rolling"
  | paused => "paused"
  | halted => "halted"
  | complete => "complete"
  | failed => "failed"

def isTerminal : ReleaseState → Bool
  | complete | failed => true
  | _ => false

/-- States this state can move to. `rolling` to `rolling` is a fraction change. -/
def validTransitions : ReleaseState → List ReleaseState
  | uploading => [processing, inReview, rolling, failed]
  | processing => [inReview, rolling, failed]
  | inReview => [rolling, failed]
  | rolling => [rolling, paused, halted, complete, failed]
  | paused => [rolling, halted, complete, failed]
  | halted => [rolling, failed]
  | complete | failed => []

def canTransitionTo (state target : ReleaseState) : Bool := state.validTransitions.contains target

end ReleaseState

/-- Where a maintainer approval is required, if anywhere. -/
inductive ReleaseApprovalGate where
  | none
  | beforeUpload
  | beforeProduction
  deriving DecidableEq, Repr

/-- Staged rollout policy stored with each release. -/
structure ReleasePolicy where
  /-- Ascending rollout fractions. -/
  steps : List F64
  /-- Hours between automatic steps. -/
  intervalHours : F64
  /-- Crash rate at or above which the daemon halts the rollout. -/
  crashRateThreshold : Option F64
  approval : ReleaseApprovalGate
  deriving DecidableEq, Repr

namespace ReleasePolicy

/-- First policy step above `fraction`. -/
def nextStep (policy : ReleasePolicy) (fraction : F64) : Option F64 :=
  policy.steps.find? fun step => fraction.lt step

def intervalSecs (policy : ReleasePolicy) : ℤ := (policy.intervalHours.mulPos 3600).round.toI64

end ReleasePolicy

structure Release where
  id : Text
  store : ReleaseStore
  track : Text
  state : ReleaseState
  rolloutFraction : F64
  nextStepAt : Option ℤ
  crashRate : Option F64
  crashRateCheckedAt : Option ℤ
  healthError : Option Text
  storeCheckedAt : Option ℤ
  policy : ReleasePolicy
  approvedAt : Option ℤ
  deriving DecidableEq, Repr

abbrev Releases := Table Release.id

def awaitingApproval (release : Release) : Bool :=
  if release.approvedAt.isSome || release.state.isTerminal then false
  else match release.policy.approval with
    | .none => false
    | .beforeUpload => release.state = .uploading
    | .beforeProduction => release.track = "production"

/-- When the daemon should take the next step, if it drives this release. The sum wraps around as
the release build's does. -/
def nextStepAt (release : Release) (now : ℤ) : Option ℤ :=
  if release.store = .googlePlay && release.state = .rolling && !awaitingApproval release &&
      (release.policy.nextStep release.rolloutFraction).isSome then
    some ((now + release.policy.intervalSecs).bmod (2 ^ 64))
  else none

/-! ## The store -/

inductive StoreChange where
  | rollout (fraction : F64)
  | pause
  | resume (fraction : F64)
  | halt
  | complete
  deriving DecidableEq, Repr

/-- Where the store says a release stands on its track. -/
inductive StoreObservation where
  | missing
  | rolling (fraction : F64)
  | halted
  | completed
  | other
  deriving DecidableEq, Repr

def storeChange (source target : ReleaseState) (fraction : F64) : Option StoreChange :=
  match source, target with
  | .rolling, .rolling => some (.rollout fraction)
  | .paused, .rolling | .halted, .rolling => some (.resume fraction)
  | _, .paused => some .pause
  | _, .halted => some .halt
  | .rolling, .complete | .paused, .complete => some .complete
  | _, _ => none

/-- What the outside says during one release's turn: the store's answers and the clock. -/
structure Outcomes where
  observe : Except Text (Option StoreObservation)
  crashRate : Except Text (Option F64)
  /-- The store's answer to a change. -/
  apply : StoreChange → Except Text Unit
  clock : ReleaseState → ℤ

/-! ## Transitions -/

inductive ReleaseError where
  | notFound
  | conflict (message : Text)
  | invalid (message : Text)
  | store (error : Text)
  deriving DecidableEq, Repr

structure ReleaseChange where
  toState : ReleaseState
  /-- `none` keeps the current fraction. -/
  toFraction : Option F64
  /-- The state and fraction the caller decided on. -/
  expect : Option (ReleaseState × F64)
  /-- The store already made this change: nothing is sent, and approval does not block it. -/
  fromStore : Bool
  deriving DecidableEq, Repr

def validateFraction (fraction : F64) : Except ReleaseError Unit :=
  if fraction.isFinite && (F64.finite 0).le fraction && fraction.le (.finite 1) then .ok ()
  else .error (.invalid "fraction must be between 0 and 1")

/-- Whether the row is no longer the one the caller decided on. -/
def movedSince (expect : Option (ReleaseState × F64)) (current : Release) : Bool :=
  match expect with
  | none => false
  | some (state, fraction) => state ≠ current.state ||
      (F64.ofRat (1 / 10 ^ 9)).lt (fraction.sub current.rolloutFraction).abs

def ReleaseChange.fractionOf (change : ReleaseChange) (current : Release) : F64 :=
  match change.toState with
  | .complete => .finite 1
  | _ => change.toFraction.getD current.rolloutFraction

/-- The checks of a change against the current row. -/
def checkChange (current : Release) (change : ReleaseChange) : Except ReleaseError Unit :=
  if movedSince change.expect current then
    .error (.conflict "release changed, reload and try again")
  else if !current.state.canTransitionTo change.toState then
    .error (.conflict ("release is " ++ current.state.asStr ++ " and cannot move to " ++
      change.toState.asStr))
  else match validateFraction (change.fractionOf current) with
    | .error error => .error error
    | .ok () =>
      if current.state = .rolling && change.toState = .rolling &&
          (change.fractionOf current).le current.rolloutFraction then
        .error (.invalid "rollout fraction can only increase")
      else if !change.fromStore && awaitingApproval current &&
          (current.state = .rolling || current.state = .paused || current.state = .halted) &&
          (change.toState = .rolling || change.toState = .complete) then
        .error (.conflict "release is waiting for approval")
      else .ok ()

def ReleaseChange.applyTo (change : ReleaseChange) (current : Release) (now : ℤ) : Release :=
  let next :=
    { current with state := change.toState, rolloutFraction := change.fractionOf current }
  { next with nextStepAt := nextStepAt next now }

def ReleaseChange.sends (change : ReleaseChange) (current : Release) : Option StoreChange :=
  if change.fromStore then none
  else storeChange current.state change.toState (change.fractionOf current)

/-- A change sent to the store, with the row as it was recorded then. -/
structure Sent where
  release : Release
  change : StoreChange
  deriving DecidableEq, Repr

structure Transitioned where
  result : Except ReleaseError Unit
  releases : Releases
  sent : List Sent

/-- Move a release to a new state or fraction. The release is read, the store applies the change
and the row is written under one lock. -/
def transitionRelease (out : Outcomes) (releases : Releases) (id : Text) (change : ReleaseChange) :
    Transitioned :=
  match releases.find id with
  | none => ⟨.error .notFound, releases, []⟩
  | some current =>
    match checkChange current change with
    | .error error => ⟨.error error, releases, []⟩
    | .ok () =>
      let sent := ((change.sends current).map (Sent.mk current)).toList
      match (change.sends current).elim (.ok ()) out.apply with
      | .error error => ⟨.error (.store error), releases, sent⟩
      | .ok () =>
        -- the row is only updated where it still has the fraction that was read
        if current.rolloutFraction.eq current.rolloutFraction then
          ⟨.ok (), releases.modify id (fun row =>
            { change.applyTo current (out.clock change.toState) with id := row.id }) (fun _ => rfl),
            sent⟩
        else ⟨.error (.conflict "release changed, reload and try again"), releases, sent⟩

/-! ## Store sync -/

/-- The changes that bring a release in line with what the store reports. -/
def storeSyncChanges (state : ReleaseState) (fraction : F64) (observed : StoreObservation) :
    List (ReleaseState × Option F64) :=
  match state, observed with
  | .rolling, .missing | .paused, .missing | .halted, .missing => [(.failed, none)]
  | .rolling, .completed | .paused, .completed => [(.complete, none)]
  | .halted, .completed => [(.rolling, some (.finite 1)), (.complete, none)]
  | .rolling, .halted | .paused, .halted => [(.halted, none)]
  | .rolling, .rolling store =>
    if (fraction.add (F64.ofRat (1 / 10 ^ 9))).lt store then [(.rolling, some store)] else []
  | .halted, .rolling store => [(.rolling, some (store.max fraction))]
  | _, _ => []

/-- Record the changes one after the other; only the first is held against the state that was
compared. The first error ends the sync. -/
def applySyncChanges (out : Outcomes) (id : Text) :
    List (ReleaseState × Option F64) → Option (ReleaseState × F64) → Releases →
      Except ReleaseError Unit × Releases
  | [], _, releases => (.ok (), releases)
  | (toState, toFraction) :: rest, expect, releases =>
    let transitioned := transitionRelease out releases id
      { toState, toFraction, expect, fromStore := true }
    match transitioned.result with
    | .error error => (.error error, transitioned.releases)
    | .ok () => applySyncChanges out id rest none transitioned.releases

theorem storeChecked_id (now : ℤ) (row : Release) :
    ({ row with storeCheckedAt := some now } : Release).id = row.id := rfl

/-- Read the release from its store and record any difference. The result is the release as it
now stands, or `none` where the sync failed. -/
def syncReleaseWithStore (out : Outcomes) (now : ℤ) (release : Release) (releases : Releases) :
    Option Release × Releases :=
  let releases := releases.modify release.id (fun row => { row with storeCheckedAt := some now })
    (storeChecked_id now)
  match out.observe with
  | .error _ => (none, releases)
  | .ok none => (some release, releases)
  | .ok (some observed) =>
    let changes := storeSyncChanges release.state release.rolloutFraction observed
    if changes.isEmpty then (some release, releases)
    else
      match applySyncChanges out release.id changes
          (some (release.state, release.rolloutFraction)) releases with
      | (.error _, releases) => (none, releases)
      | (.ok (), releases) => (releases.find release.id, releases)

/-! ## Rollout schedule -/

/-- Minimum seconds between crash-rate checks of one release. -/
def healthCheckIntervalSecs : ℤ := 15 * 60

/-- Whether the last check is too long ago. -/
def checkDue (checkedAt : Option ℤ) (now : ℤ) : Bool :=
  checkedAt.all fun at_ => healthCheckIntervalSecs ≤ now - at_

def maxReasonLen : ℕ := 500

def haltChange : ReleaseChange :=
  { toState := .halted, toFraction := none, expect := none, fromStore := false }

/-- The change that takes the scheduled step to a fraction. -/
def stepChange (release : Release) (fraction : F64) : ReleaseChange :=
  { toState := if (F64.finite 1).le fraction then .complete else .rolling
    toFraction := some fraction
    expect := some (.rolling, release.rolloutFraction)
    fromStore := false }

/-- What the health check leaves: the table, the recorded error, and whether the turn goes on. -/
structure HealthChecked where
  releases : Releases
  healthError : Option Text
  goesOn : Bool

/-- Read the crash rate where a threshold is set and the last check is long enough ago; record it
or the error, and halt the release on a breach. -/
def checkHealth (out : Outcomes) (now : ℤ) (release : Release) (releases : Releases) :
    HealthChecked :=
  match release.policy.crashRateThreshold with
  | none => ⟨releases, release.healthError, true⟩
  | some threshold =>
    if !checkDue release.crashRateCheckedAt now then ⟨releases, release.healthError, true⟩
    else match out.crashRate with
      | .ok rate =>
        let releases := releases.modify release.id (fun row =>
          { row with crashRate := rate.or row.crashRate, crashRateCheckedAt := some now,
                     healthError := none }) fun _ => rfl
        if rate.any fun rate => threshold.le rate then
          ⟨(transitionRelease out releases release.id haltChange).releases, none, false⟩
        else ⟨releases, none, true⟩
      | .error error =>
        let message := error.take maxReasonLen
        ⟨releases.modify release.id (fun row =>
          { row with crashRateCheckedAt := some now, healthError := some message }) fun _ => rfl,
          some message, true⟩

def takeStep (out : Outcomes) (now : ℤ) (release : Release) (healthError : Option Text)
    (releases : Releases) : Releases × List Sent :=
  if release.policy.crashRateThreshold.isSome && healthError.isSome then (releases, [])
  else if !(release.nextStepAt.any fun at_ => at_ ≤ now) || awaitingApproval release then
    (releases, [])
  else match release.policy.nextStep release.rolloutFraction with
    | none => (releases, [])
    | some fraction =>
      let transitioned := transitionRelease out releases release.id (stepChange release fraction)
      (transitioned.releases, transitioned.sent)

/-- Whether the release is rolling and its next step is due. -/
def stepDue (now : ℤ) (release : Release) : Bool :=
  release.state = .rolling && release.nextStepAt.any fun at_ => at_ ≤ now

/-- Sync with the store before a step, and where the last sync is long enough ago. The flag says
whether the turn goes on: the store has the release as it was, or could not be read while no step
is due. -/
def syncTurn (out : Outcomes) (now : ℤ) (release : Release) (releases : Releases) :
    Releases × Bool :=
  if stepDue now release || checkDue release.storeCheckedAt now then
    match syncReleaseWithStore out now release releases with
    | (some synced, releases) =>
      (releases, synced.state = release.state && synced.rolloutFraction.eq release.rolloutFraction)
    | (none, releases) => (releases, !stepDue now release)
  else (releases, true)

/-- One release's turn of the monitor, with the row read when the tick began. The list holds the
scheduled step sent to the store. -/
def releaseTurn (out : Outcomes) (now : ℤ) (release : Release) (releases : Releases) :
    Releases × List Sent :=
  let (releases, goesOn) := syncTurn out now release releases
  if !goesOn || release.state ≠ .rolling then (releases, [])
  else
    let checked := checkHealth out now release releases
    if checked.goesOn then takeStep out now release checked.healthError checked.releases
    else (checked.releases, [])

/-- One pass of the monitor: its time, the most rows it takes, and what the outside says in each
release's turn. -/
structure Tick where
  now : ℤ
  batch : ℤ
  outcomes : Text → Outcomes

/-- The rows of a pass: due steps first, then the releases checked longest ago. -/
def tickRows (tick : Tick) (releases : Releases) : List Release :=
  let key (release : Release) : ℤ × ℤ :=
    (if stepDue tick.now release then 0 else 1, release.storeCheckedAt.getD 0)
  let live := releases.rows.filter fun release => release.store = .googlePlay &&
    (release.state = .rolling || release.state = .paused || release.state = .halted)
  let sorted := live.mergeSort fun a b =>
    (key a).1 < (key b).1 || ((key a).1 = (key b).1 && (key a).2 ≤ (key b).2)
  if tick.batch < 0 then sorted else sorted.take tick.batch.toNat

/-- A turn as it was taken: the row it was given, the time and the answers, and the scheduled
step it sent. -/
structure Turn where
  release : Release
  now : ℤ
  out : Outcomes
  sent : List Sent

def runTurns (tick : Tick) : List Release → Releases → Releases × List Turn
  | [], releases => (releases, [])
  | release :: rest, releases =>
    let out := tick.outcomes release.id
    let (releases, sent) := releaseTurn out tick.now release releases
    let (releases, turns) := runTurns tick rest releases
    (releases, ⟨release, tick.now, out, sent⟩ :: turns)

/-- One pass of the rollout monitor: sync with the store, check health, halt on breach, take due
steps. -/
def runRolloutTick (tick : Tick) (releases : Releases) : Releases × List Turn :=
  runTurns tick (tickRows tick releases) releases

/-- Passes one after the other, with the turns they took. -/
def runRollout : List Tick → Releases → Releases × List Turn
  | [], releases => (releases, [])
  | tick :: ticks, releases =>
    let (releases, turns) := runRolloutTick tick releases
    let (releases, later) := runRollout ticks releases
    (releases, turns ++ later)

end OoreBuild
