import OoreBuild.Lib.Interleave
import OoreBuild.Lib.Text

/-!
# Publishing to Google Play

`publish_to_google_play` reads the version codes of the app, opens an edit, stages a release in it
and commits it, while other publishers commit to the same app. Each call to Google Play can be
answered with an error, which means that it did nothing, or be lost before or after it took effect;
the repeated attempts of one call are one step, as only the last of them takes effect.

An edit is a copy of the app that only its own run changes, so it is kept with the run. What each
run did and saw is kept in the `history`, which nothing reads.
-/

namespace OoreBuild.PlayPublish

open Text

/-! ## Version codes -/

/-- A track and the version codes of its releases, as Google Play writes them. -/
structure PlayTrack where
  track : Text
  releases : List (List Text)
  deriving DecidableEq, Repr

structure PlayVersionCodes where
  trackHighest : Option ℤ := none
  used : List ℤ := []
  deriving DecidableEq, Repr

/-- One version code of a release on a track. -/
def addVersionCode (track entry : Text) (codes : PlayVersionCodes) (raw : Text) :
    Option PlayVersionCodes :=
  (parseI64 raw).map fun code => {
    used := codes.used.insert code
    trackHighest :=
      if entry = track then some (codes.trackHighest.elim code (max code)) else codes.trackHighest }

/-- `none` where Google Play returns a version code that is no number. -/
def parsePlayVersionCodes (tracks : List PlayTrack) (bundles : List ℤ) (track : Text) :
    Option PlayVersionCodes :=
  let read (codes : PlayVersionCodes) (entry : PlayTrack) :=
    entry.releases.flatten.foldlM (addVersionCode track entry.track) codes
  (tracks.foldlM read {}).map fun codes =>
    { codes with used := bundles.foldl (fun used code => used.insert code) codes.used }

/-- The error for a version code that Google Play would reject. -/
def ensurePlayVersionCode (versionCode : ℤ) (store : PlayVersionCodes) (track : Text) :
    Except Text Unit :=
  match store.trackHighest.filter (versionCode ≤ ·) with
  | some highest => .error ("Version code " ++ ofInt versionCode ++ " is not higher than " ++
      ofInt highest ++ ", the highest version code on the Google Play " ++ track ++
      " track. Raise build_number_offset by at least " ++ ofInt (highest - versionCode + 1) ++
      " so this build gets a higher OORE_VERSION_CODE.")
  | none =>
    if store.used.contains versionCode then
      let highestUsed := store.used.foldl max versionCode
      .error ("Version code " ++ ofInt versionCode ++
        " was already uploaded to Google Play (highest uploaded is " ++ ofInt highestUsed ++
        "). Raise build_number_offset by at least " ++ ofInt (highestUsed - versionCode + 1) ++
        " so this build gets an unused OORE_VERSION_CODE.")
    else .ok ()

/-! ## Google Play and the runs -/

/-- An edit with its copy of the app. -/
structure PlayEdit where
  id : ℕ
  tracks : List PlayTrack
  bundles : List ℤ
  deriving DecidableEq, Repr

/-- The version codes on a track. -/
def codesOn (tracks : List PlayTrack) (track : Text) : List Text :=
  (tracks.filter fun entry => entry.track = track).flatMap fun entry => entry.releases.flatten

/-- Replace the releases of a track. -/
def setTrack (tracks : List PlayTrack) (track : Text) (releases : List (List Text)) :
    List PlayTrack :=
  tracks.filter (fun entry => entry.track ≠ track) ++ [⟨track, releases⟩]

/-- What one run is to publish. -/
structure PublishJob where
  id : ℕ
  versionCode : ℤ
  track : Text
  /-- A mapping file goes with the bundle. -/
  mapping : Bool
  deriving DecidableEq, Repr

inductive PlayEventKind where
  /-- An edit for the release was opened. -/
  | opened (editId : ℕ)
  /-- The build was seen to have stopped. -/
  | stopped
  | commitSent
  /-- The commit of an edit with these version codes on the run's track took effect. -/
  | committed (codes : List Text)
  | deleteSent (editId : ℕ)
  | returned (ok : Bool)
  deriving DecidableEq, Repr

structure PlayEvent where
  job : PublishJob
  kind : PlayEventKind
  deriving DecidableEq, Repr

structure PlayStore where
  tracks : List PlayTrack
  bundles : List ℤ
  nextEdit : ℕ := 0
  nextJob : ℕ := 0
  history : List PlayEvent := []

/-- What the version codes are read for. -/
inductive FetchFor where
  | check
  /-- Whether the commit of the edit went through after all. -/
  | landed (edit : PlayEdit)
  deriving DecidableEq, Repr

/-- The next call of a run. -/
inductive PublishStep where
  | accessToken
  | openRead (purpose : FetchFor)
  | listTracks (purpose : FetchFor) (copy : PlayEdit)
  | listBundles (purpose : FetchFor) (copy : PlayEdit)
  | closeRead (purpose : FetchFor) (codes : Option PlayVersionCodes)
  | insert
  | uploadBundle (edit : PlayEdit)
  | uploadMapping (edit : PlayEdit)
  | updateTrack (edit : PlayEdit)
  | stillActive (edit : PlayEdit)
  | commit (edit : PlayEdit) (changesNotSentForReview : Bool)
  | delete (edit : PlayEdit)
  deriving DecidableEq, Repr

structure PublishCall where
  job : PublishJob
  step : PublishStep
  deriving DecidableEq, Repr

inductive Reply where
  | done
  | rejected
  | lostBefore
  | lostAfter
  deriving DecidableEq, Repr

def Reply.takesEffect : Reply → Bool
  | done | lostAfter => true
  | rejected | lostBefore => false

/-- How a call goes. -/
structure PlayAnswer where
  reply : Reply := .done
  /-- The build stops while the release is staged. -/
  stopped : Bool := false
  /-- The build is still active right before the commit. -/
  active : Bool := true
  /-- The rejection of a commit asks for `changesNotSentForReview`. -/
  wantsReview : Bool := false
  deriving DecidableEq, Repr

/-! ## One call -/

/-- What a call of a run does: the events, a commit that took effect, whether an edit was opened,
and the next call; none where the run returns. -/
structure StepResult where
  events : List PlayEventKind := []
  committed : Option PlayEdit := none
  opensEdit : Bool := false
  next : Option PublishStep := none

/-- The release is dropped: the edit is deleted. -/
def StepResult.drop (edit : PlayEdit) (events : List PlayEventKind) : StepResult :=
  { events, next := some (.delete edit) }

/-- The next call of the staging, unless the build stops meanwhile or the call fails. -/
def stageStep (edit next : PlayEdit) (answer : PlayAnswer) (after : PlayEdit → PublishStep) :
    StepResult :=
  let staged := if answer.reply.takesEffect then next else edit
  if answer.stopped then .drop staged [.stopped]
  else if answer.reply = .done then { next := some (after staged) }
  else .drop staged []

/-- The edit after the release is put on the track. -/
def PlayEdit.release (edit : PlayEdit) (job : PublishJob) : PlayEdit :=
  { edit with tracks := setTrack edit.tracks job.track [[ofInt job.versionCode]] }

/-- The release has reached the track, or a higher one has. -/
def PlayVersionCodes.reaches (codes : PlayVersionCodes) (versionCode : ℤ) : Bool :=
  codes.trackHighest.any fun highest => versionCode ≤ highest

/-- What a run does when the version codes could not be read. -/
def fetchFailed : FetchFor → StepResult
  | .check => { events := [.returned false] }
  | .landed edit => .drop edit []

def publishStep (s : PlayStore) (job : PublishJob) (answer : PlayAnswer) :
    PublishStep → StepResult
  | .accessToken =>
    if answer.reply = .done then { next := some (.openRead .check) }
    else { events := [.returned false] }
  | .openRead purpose =>
    let copy : PlayEdit := ⟨s.nextEdit, s.tracks, s.bundles⟩
    if answer.reply = .done then { opensEdit := true, next := some (.listTracks purpose copy) }
    else { fetchFailed purpose with opensEdit := answer.reply.takesEffect }
  | .listTracks purpose copy =>
    { next := some (if answer.reply = .done then .listBundles purpose copy
        else .closeRead purpose none) }
  | .listBundles purpose copy =>
    { next := some (.closeRead purpose (if answer.reply = .done then
        parsePlayVersionCodes copy.tracks copy.bundles job.track else none)) }
  -- the reply to the deletion of the reading edit is not looked at
  | .closeRead purpose none => fetchFailed purpose
  | .closeRead .check (some codes) =>
    match ensurePlayVersionCode job.versionCode codes job.track with
    | .error _ => { events := [.returned false] }
    | .ok _ => { next := some .insert }
  | .closeRead (.landed edit) (some codes) =>
    if codes.reaches job.versionCode then { events := [.returned true] } else .drop edit []
  | .insert =>
    let edit : PlayEdit := ⟨s.nextEdit, s.tracks, s.bundles⟩
    let events := if answer.reply.takesEffect then [.opened edit.id] else []
    if answer.reply = .done then
      { events, opensEdit := true, next := some (.uploadBundle edit) }
    else { events := events ++ [.returned false], opensEdit := answer.reply.takesEffect }
  | .uploadBundle edit =>
    stageStep edit { edit with bundles := edit.bundles ++ [job.versionCode] } answer fun edit =>
      if job.mapping then .uploadMapping edit else .updateTrack edit
  | .uploadMapping edit => stageStep edit edit answer .updateTrack
  | .updateTrack edit => stageStep edit (edit.release job) answer .stillActive
  | .stillActive edit =>
    if answer.active then { next := some (.commit edit false) } else .drop edit [.stopped]
  | .commit edit changesNotSentForReview =>
    let events := if answer.reply.takesEffect then
        [.commitSent, .committed (codesOn edit.tracks job.track)]
      else [.commitSent]
    let committed := if answer.reply.takesEffect then some edit else none
    match answer.reply with
    | .done => { events := events ++ [.returned true], committed }
    | .rejected =>
      if !changesNotSentForReview && answer.wantsReview then
        { events, next := some (.commit edit true) }
      else .drop edit events
    | .lostBefore | .lostAfter =>
      { events, committed, next := some (.openRead (.landed edit)) }
  | .delete edit => { events := [.deleteSent edit.id, .returned false] }

/-! ## The system -/

inductive PublishInput where
  | publish (versionCode : ℤ) (track : Text) (mapping : Bool)
  /-- Another publisher changes the app. -/
  | otherCommit (tracks : List PlayTrack) (bundles : List ℤ)

def enterPublish (s : PlayStore) : PublishInput → Option (PlayStore × List PublishCall)
  | .publish versionCode track mapping =>
    some ({ s with nextJob := s.nextJob + 1 },
      [⟨⟨s.nextJob, versionCode, track, mapping⟩, .accessToken⟩])
  | .otherCommit tracks bundles => some ({ s with tracks, bundles }, [])

def advancePublish (s : PlayStore) (call : PublishCall) (answer : PlayAnswer) :
    Option (PlayStore × Option PublishCall) :=
  let result := publishStep s call.job answer call.step
  some ({ s with
      tracks := result.committed.elim s.tracks PlayEdit.tracks
      bundles := result.committed.elim s.bundles PlayEdit.bundles
      nextEdit := if result.opensEdit then s.nextEdit + 1 else s.nextEdit
      history := s.history ++ result.events.map (PlayEvent.mk call.job) },
    result.next.map (PublishCall.mk call.job))

/-- Runs of the publisher and other publishers over one app. -/
def publishing : Interleave PlayStore PublishCall PublishInput PlayAnswer where
  enter := enterPublish
  advance := advancePublish
  drop s _ := s
  restart s := s

/-! ## What a run did so far -/

/-- The events of one run. -/
def PlayStore.eventsOf (s : PlayStore) (job : PublishJob) : List PlayEventKind :=
  (s.history.filter fun event => event.job = job).map PlayEvent.kind

/-- No commit is sent after the build was seen to have stopped. -/
def CommitsBeforeStop (events : List PlayEventKind) : Prop :=
  events.Pairwise fun earlier later => earlier = .stopped → later ≠ .commitSent

/-- What is promised about the events of a run: it succeeds only when its release was committed to
the track, commits nothing once the build was seen to have stopped, and deletes its edit when it
fails without a commit. -/
structure Sound (job : PublishJob) (events : List PlayEventKind) : Prop where
  ok : .returned true ∈ events →
    ∃ codes, .committed codes ∈ events ∧ ofInt job.versionCode ∈ codes
  order : CommitsBeforeStop events
  closed : .returned false ∈ events → (∀ codes, .committed codes ∉ events) →
    ∀ editId, .opened editId ∈ events → .deleteSent editId ∈ events

def PublishStep.edit : PublishStep → Option PlayEdit
  | uploadBundle edit | uploadMapping edit | updateTrack edit | stillActive edit | commit edit _
  | delete edit => some edit
  | openRead (.landed edit) | listTracks (.landed edit) _ | listBundles (.landed edit) _
  | closeRead (.landed edit) _ => some edit
  | _ => none

/-- The edit is ready to be committed. -/
def PublishStep.committing : PublishStep → Option PlayEdit
  | stillActive edit | commit edit _ => some edit
  | _ => none

/-- The version codes say that the release reached the track. -/
def PublishStep.landed (job : PublishJob) : PublishStep → Prop
  | listTracks (.landed _) copy | listBundles (.landed _) copy =>
    ∃ codes, parsePlayVersionCodes copy.tracks copy.bundles job.track = some codes ∧
      codes.reaches job.versionCode = true
  | closeRead (.landed _) (some codes) => codes.reaches job.versionCode = true
  | _ => False

/-- The run has to delete its edit. -/
def PublishStep.isDelete : PublishStep → Bool
  | delete _ => true
  | _ => false

/-- The events of a run that is about to take the step. -/
structure Running (job : PublishJob) (step : PublishStep) (events : List PlayEventKind) : Prop where
  running : ∀ ok, .returned ok ∉ events
  opened : ∀ editId, .opened editId ∈ events → step.edit.map PlayEdit.id = some editId
  codes : ∀ codes, .committed codes ∈ events → ofInt job.versionCode ∈ codes
  order : CommitsBeforeStop events
  active : step.isDelete = false → .stopped ∉ events
  staged : ∀ edit, step.committing = some edit →
    codesOn edit.tracks job.track = [ofInt job.versionCode]
  landed : step.landed job → ∃ codes, .committed codes ∈ events

/-- The condition on a call: an edit is not opened with its reply lost, and when the version codes
are read for a commit without a reply, the track reaches the release's version code only if that
commit took effect. -/
def CallMet (s : PlayStore) (call : PublishCall) (answer : PlayAnswer) : Prop :=
  match call.step with
  | .insert => answer.reply ≠ .lostAfter
  | .openRead (.landed _) => ∀ codes,
    parsePlayVersionCodes s.tracks s.bundles call.job.track = some codes →
      codes.reaches call.job.versionCode = true →
        ∃ committed, .committed committed ∈ s.eventsOf call.job
  | _ => True

/-! ## What a call adds -/

section Events

variable {job : PublishJob} {step next : PublishStep} {events new : List PlayEventKind}

theorem CommitsBeforeStop.append (h : CommitsBeforeStop events) (hnew : CommitsBeforeStop new)
    (hactive : .stopped ∉ events ∨ .commitSent ∉ new) : CommitsBeforeStop (events ++ new) := by
  refine List.pairwise_append.mpr ⟨h, hnew, fun earlier hearlier later hlater hstop hcommit => ?_⟩
  rcases hactive with hnot | hnot
  · exact hnot (hstop ▸ hearlier)
  · exact hnot (hcommit ▸ hlater)

/-- A run that has not returned promises nothing yet but the order. -/
theorem Running.sound (h : Running job step events) : Sound job events :=
  ⟨fun hok => absurd hok (h.running true), h.order, fun hfail => absurd hfail (h.running false)⟩

theorem Running.notMem_opened (h : Running job step events) (hedit : step.edit = none)
    (editId : ℕ) : .opened editId ∉ events := by
  intro hopened
  have hsome := h.opened editId hopened
  rw [hedit] at hsome
  cases hsome

/-- The run goes on with events that are no return. -/
theorem Running.advance (h : Running job step events) (hstep : step.isDelete = false)
    (hedit : step.edit = none ∨ next.edit.map PlayEdit.id = step.edit.map PlayEdit.id)
    (hreturned : ∀ ok, .returned ok ∉ new)
    (hopened : ∀ editId, .opened editId ∈ new → next.edit.map PlayEdit.id = some editId)
    (hcodes : ∀ codes, .committed codes ∈ new → ofInt job.versionCode ∈ codes)
    (horder : CommitsBeforeStop new) (hactive : next.isDelete = false → .stopped ∉ new)
    (hstaged : ∀ edit, next.committing = some edit →
      codesOn edit.tracks job.track = [ofInt job.versionCode])
    (hlanded : next.landed job → ∃ codes, .committed codes ∈ events ++ new) :
    Running job next (events ++ new) where
  running ok hok := by
    rcases List.mem_append.mp hok with hok | hok
    · exact h.running ok hok
    · exact hreturned ok hok
  opened editId hmem := by
    rcases List.mem_append.mp hmem with hmem | hmem
    · rcases hedit with hnone | hsame
      · exact absurd hmem (h.notMem_opened hnone editId)
      · rw [hsame, h.opened editId hmem]
    · exact hopened editId hmem
  codes codes hmem := by
    rcases List.mem_append.mp hmem with hmem | hmem
    · exact h.codes codes hmem
    · exact hcodes codes hmem
  order := h.order.append horder (.inl (h.active hstep))
  active hnext hmem := by
    rcases List.mem_append.mp hmem with hmem | hmem
    · exact h.active hstep hmem
    · exact hactive hnext hmem
  staged := hstaged
  landed := hlanded

/-- A call without events. -/
theorem Running.quiet (h : Running job step events) (hstep : step.isDelete = false)
    (hedit : step.edit = none ∨ next.edit.map PlayEdit.id = step.edit.map PlayEdit.id)
    (hstaged : ∀ edit, next.committing = some edit →
      codesOn edit.tracks job.track = [ofInt job.versionCode])
    (hlanded : next.landed job → ∃ codes, .committed codes ∈ events) :
    Running job next (events ++ []) :=
  h.advance hstep hedit (by simp) (by simp) (by simp) .nil (by simp) hstaged
    fun hland => by simpa using hlanded hland

/-- The release is dropped, after the build was seen to have stopped or not. -/
theorem Running.drop (h : Running job step events) (hstep : step.isDelete = false) {edit : PlayEdit}
    (hedit : step.edit.map PlayEdit.id = some edit.id)
    (hnew : new = [] ∨ new = [.stopped] ∨ new = [.commitSent]) :
    Running job (.delete edit) (events ++ new) := by
  have hid : (PublishStep.delete edit).edit.map PlayEdit.id = step.edit.map PlayEdit.id :=
    hedit.symm
  rcases hnew with rfl | rfl | rfl
  · exact h.quiet hstep (.inr hid) (fun _ h => by cases h) False.elim
  · exact h.advance hstep (.inr hid) (by simp) (by simp) (by simp) (List.pairwise_singleton _ _)
      (fun h => by cases h) (fun _ h => by cases h) False.elim
  · exact h.advance hstep (.inr hid) (by simp) (by simp) (by simp) (List.pairwise_singleton _ _)
      (fun h => by cases h) (fun _ h => by cases h) False.elim

/-- The run fails before an edit was opened. -/
theorem Running.fail (h : Running job step events) (hedit : step.edit = none)
    (hstep : step.isDelete = false) : Sound job (events ++ [.returned false]) := by
  refine ⟨fun hok => ?_, ?_, fun _ _ editId hopened => ?_⟩
  · rcases List.mem_append.mp hok with hok | hok
    · exact absurd hok (h.running true)
    · simp at hok
  · exact h.order.append (List.pairwise_singleton _ _) (.inl (h.active hstep))
  · rcases List.mem_append.mp hopened with hopened | hopened
    · exact absurd hopened (h.notMem_opened hedit editId)
    · simp at hopened

/-- The run succeeds with a commit, its own last event or an earlier one. -/
theorem Running.succeed (h : Running job step events) (hstep : step.isDelete = false)
    (hcommitted : ∃ codes, .committed codes ∈ events ++ new ∧ ofInt job.versionCode ∈ codes)
    (horder : CommitsBeforeStop new) (hfails : .returned false ∉ new) :
    Sound job (events ++ new) := by
  refine ⟨fun _ => hcommitted, h.order.append horder (.inl (h.active hstep)), fun hfail => ?_⟩
  rcases List.mem_append.mp hfail with hfail | hfail
  · exact absurd hfail (h.running false)
  · exact absurd hfail hfails

/-- The run fails and deletes its edit. -/
theorem Running.close {edit : PlayEdit} (h : Running job (.delete edit) events) :
    Sound job (events ++ [.deleteSent edit.id, .returned false]) := by
  refine ⟨fun hok => ?_, ?_, fun _ _ editId hopened => ?_⟩
  · rcases List.mem_append.mp hok with hok | hok
    · exact absurd hok (h.running true)
    · simp at hok
  · exact h.order.append (by simp [CommitsBeforeStop]) (.inr (by simp))
  · rcases List.mem_append.mp hopened with hopened | hopened
    · obtain rfl := Option.some.inj (h.opened editId hopened)
      exact List.mem_append_right _ List.mem_cons_self
    · simp at hopened

end Events

/-- The release that a run puts on the track is the only one there. -/
theorem codesOn_release (edit : PlayEdit) (job : PublishJob) :
    codesOn (edit.release job).tracks job.track = [ofInt job.versionCode] := by
  unfold codesOn PlayEdit.release setTrack
  dsimp only
  have hnone : (edit.tracks.filter fun entry => entry.track ≠ job.track).filter
      (fun entry => entry.track = job.track) = [] := by
    rw [List.filter_filter, List.filter_eq_nil_iff]
    intro entry _
    simp
  rw [List.filter_append, hnone, List.nil_append]
  simp

/-- What a call leads to: the next call of a run, or what was promised when the run returns. -/
def Leads (job : PublishJob) (events : List PlayEventKind) (result : StepResult) : Prop :=
  match result.next with
  | some next => Running job next (events ++ result.events)
  | none => Sound job (events ++ result.events)

section Step

variable {s : PlayStore} {job : PublishJob} {answer : PlayAnswer} {step : PublishStep}
  {events : List PlayEventKind}

theorem leads_fetchFailed (purpose : FetchFor) (h : Running job step events)
    (hstep : step.isDelete = false)
    (hedit : step.edit = match purpose with
      | .check => none
      | .landed edit => some edit) :
    Leads job events (fetchFailed purpose) := by
  cases purpose with
  | check => exact h.fail hedit hstep
  | landed edit => exact h.drop hstep (by rw [hedit]; rfl) (.inl rfl)

theorem leads_stageStep {edit next : PlayEdit} {after : PlayEdit → PublishStep}
    (h : Running job step events) (hstep : step.isDelete = false)
    (hedit : step.edit.map PlayEdit.id = some edit.id) (hid : next.id = edit.id)
    (hafter : (after next).edit = some next)
    (hstaged : ∀ staged, (after next).committing = some staged →
      codesOn staged.tracks job.track = [ofInt job.versionCode])
    (hlanded : ¬ (after next).landed job) :
    Leads job events (stageStep edit next answer after) := by
  have hstagedId : (if answer.reply.takesEffect then next else edit).id = edit.id := by
    split
    · exact hid
    · rfl
  unfold stageStep
  dsimp only
  split
  · exact h.drop hstep (by rw [hedit, hstagedId]) (.inr (.inl rfl))
  · split
    · rename_i hdone
      rw [hdone]
      refine h.quiet hstep (.inr ?_) hstaged fun hland => absurd hland hlanded
      show (after next).edit.map PlayEdit.id = _
      rw [hafter, hedit, Option.map_some, hid]
    · exact h.drop hstep (by rw [hedit, hstagedId]) (.inl rfl)

/-- A call of the reading edit goes on to the next one of the same reading. -/
theorem Running.read (h : Running job step events) (hstep : step.isDelete = false)
    {next : PublishStep} (hedit : next.edit = step.edit) (hcommitting : next.committing = none)
    (hlanded : next.landed job → ∃ codes, .committed codes ∈ events) :
    Running job next (events ++ []) := by
  refine h.quiet hstep (.inr (by rw [hedit])) (fun edit hsome => ?_) hlanded
  rw [hcommitting] at hsome
  cases hsome

theorem leads_openRead (purpose : FetchFor) (h : Running job (.openRead purpose) events)
    (hown : events = s.eventsOf job) (hmet : CallMet s ⟨job, .openRead purpose⟩ answer) :
    Leads job events (publishStep s job answer (.openRead purpose)) := by
  rw [publishStep]
  dsimp only
  split
  · cases purpose with
    | check => exact h.read rfl rfl rfl False.elim
    | landed edit =>
      refine h.read rfl rfl rfl fun ⟨codes, hparse, hreaches⟩ => ?_
      rw [hown]
      exact hmet codes hparse hreaches
  · cases purpose with
    | check => exact leads_fetchFailed .check h rfl rfl
    | landed edit => exact leads_fetchFailed (.landed edit) h rfl rfl

theorem leads_closeRead (purpose : FetchFor) (codes : Option PlayVersionCodes)
    (h : Running job (.closeRead purpose codes) events) :
    Leads job events (publishStep s job answer (.closeRead purpose codes)) := by
  cases codes with
  | none =>
    rw [publishStep]
    cases purpose with
    | check => exact leads_fetchFailed .check h rfl rfl
    | landed edit => exact leads_fetchFailed (.landed edit) h rfl rfl
  | some codes =>
    cases purpose with
    | check =>
      rw [publishStep]
      split
      · exact h.fail rfl rfl
      · exact h.read rfl rfl rfl False.elim
    | landed edit =>
      rw [publishStep]
      split
      · rename_i hreaches
        obtain ⟨committed, hmem⟩ := h.landed hreaches
        exact h.succeed rfl ⟨committed, List.mem_append_left _ hmem, h.codes committed hmem⟩
          (List.pairwise_singleton _ _) (by simp)
      · exact h.drop rfl rfl (.inl rfl)

theorem leads_insert (h : Running job .insert events) (hmet : CallMet s ⟨job, .insert⟩ answer) :
    Leads job events (publishStep s job answer .insert) := by
  have hnot : answer.reply ≠ .lostAfter := hmet
  rw [publishStep]
  dsimp only
  split
  · rename_i hdone
    rw [hdone]
    exact h.advance rfl (.inl rfl) (by simp [Reply.takesEffect])
      (fun editId hmem => by simpa [Reply.takesEffect, PublishStep.edit, eq_comm] using hmem)
      (by simp [Reply.takesEffect]) (List.pairwise_singleton _ _) (by simp [Reply.takesEffect])
      (fun _ hsome => by cases hsome) False.elim
  · rename_i hfailed
    have hno : answer.reply.takesEffect = false := by
      cases hreply : answer.reply with
      | done => exact absurd hreply hfailed
      | lostAfter => exact absurd hreply hnot
      | rejected => rfl
      | lostBefore => rfl
    rw [hno]
    exact h.fail rfl rfl

theorem leads_commit (edit : PlayEdit) (changesNotSentForReview : Bool)
    (h : Running job (.commit edit changesNotSentForReview) events) :
    Leads job events (publishStep s job answer (.commit edit changesNotSentForReview)) := by
  have hcodes : codesOn edit.tracks job.track = [ofInt job.versionCode] := h.staged edit rfl
  have hown : ofInt job.versionCode ∈ codesOn edit.tracks job.track := by
    rw [hcodes]
    exact List.mem_singleton_self _
  rw [publishStep]
  cases hreply : answer.reply with
  | done =>
    exact h.succeed rfl ⟨_, List.mem_append_right _ (by simp [Reply.takesEffect]), hown⟩
      (by simp [CommitsBeforeStop, Reply.takesEffect]) (by simp [Reply.takesEffect])
  | rejected =>
    dsimp only
    split
    · exact h.advance rfl (.inr rfl) (by simp [Reply.takesEffect]) (by simp [Reply.takesEffect])
        (by simp [Reply.takesEffect]) (by simp [CommitsBeforeStop, Reply.takesEffect])
        (by simp [Reply.takesEffect])
        (fun staged hstaged => by rw [← Option.some.inj hstaged, hcodes]) False.elim
    · exact h.drop rfl rfl (.inr (.inr rfl))
  | lostBefore =>
    exact h.advance rfl (.inr rfl) (by simp [Reply.takesEffect]) (by simp [Reply.takesEffect])
      (by simp [Reply.takesEffect]) (by simp [CommitsBeforeStop, Reply.takesEffect])
      (by simp [Reply.takesEffect]) (fun _ hsome => by cases hsome) False.elim
  | lostAfter =>
    exact h.advance rfl (.inr rfl) (by simp [Reply.takesEffect]) (by simp [Reply.takesEffect])
      (by simpa [Reply.takesEffect] using hown) (by simp [CommitsBeforeStop, Reply.takesEffect])
      (by simp [Reply.takesEffect]) (fun _ hsome => by cases hsome) False.elim

/-- One call of a run. -/
theorem leads_publishStep (h : Running job step events) (hown : events = s.eventsOf job)
    (hmet : CallMet s ⟨job, step⟩ answer) : Leads job events (publishStep s job answer step) := by
  cases step with
  | accessToken =>
    rw [publishStep]
    split
    · exact h.read rfl rfl rfl False.elim
    · exact h.fail rfl rfl
  | openRead purpose => exact leads_openRead purpose h hown hmet
  | listTracks purpose copy =>
    rw [publishStep]
    cases purpose with
    | check =>
      split
      · exact h.read rfl rfl rfl False.elim
      · exact h.read rfl rfl rfl False.elim
    | landed edit =>
      split
      · exact h.read rfl rfl rfl h.landed
      · exact h.read rfl rfl rfl False.elim
  | listBundles purpose copy =>
    rw [publishStep]
    cases purpose with
    | check => exact h.read rfl rfl rfl False.elim
    | landed edit =>
      split
      · cases hparse : parsePlayVersionCodes copy.tracks copy.bundles job.track with
        | none => exact h.read rfl rfl rfl False.elim
        | some codes =>
          exact h.read rfl rfl rfl fun hreaches => h.landed ⟨codes, hparse, hreaches⟩
      · exact h.read rfl rfl rfl False.elim
  | closeRead purpose codes => exact leads_closeRead purpose codes h
  | insert => exact leads_insert h hmet
  | uploadBundle edit =>
    rw [publishStep]
    cases hmapping : job.mapping with
    | false => exact leads_stageStep h rfl rfl rfl rfl (fun _ hsome => by cases hsome) id
    | true => exact leads_stageStep h rfl rfl rfl rfl (fun _ hsome => by cases hsome) id
  | uploadMapping edit =>
    rw [publishStep]
    exact leads_stageStep h rfl rfl rfl rfl (fun _ hsome => by cases hsome) id
  | updateTrack edit =>
    rw [publishStep]
    refine leads_stageStep h rfl rfl rfl rfl (fun staged hsome => ?_) id
    rw [← Option.some.inj hsome]
    exact codesOn_release edit job
  | stillActive edit =>
    rw [publishStep]
    split
    · exact h.quiet rfl (.inr rfl) (fun staged hsome => h.staged staged hsome) False.elim
    · exact h.drop rfl rfl (.inr (.inl rfl))
  | commit edit changesNotSentForReview => exact leads_commit edit changesNotSentForReview h
  | delete edit => exact h.close

end Step

/-! ## Every run -/

/-- The store after a call. -/
def PlayStore.after (s : PlayStore) (job : PublishJob) (result : StepResult) : PlayStore :=
  { s with
    tracks := result.committed.elim s.tracks PlayEdit.tracks
    bundles := result.committed.elim s.bundles PlayEdit.bundles
    nextEdit := if result.opensEdit then s.nextEdit + 1 else s.nextEdit
    history := s.history ++ result.events.map (PlayEvent.mk job) }

theorem advancePublish_eq (s : PlayStore) (call : PublishCall) (answer : PlayAnswer) :
    advancePublish s call answer = some
      (s.after call.job (publishStep s call.job answer call.step),
        (publishStep s call.job answer call.step).next.map (PublishCall.mk call.job)) := rfl

theorem PlayStore.eventsOf_after (s : PlayStore) (job : PublishJob) (result : StepResult) :
    (s.after job result).eventsOf job = s.eventsOf job ++ result.events := by
  unfold PlayStore.eventsOf PlayStore.after
  dsimp only
  have hall : (result.events.map (PlayEvent.mk job)).filter (fun event => event.job = job) =
      result.events.map (PlayEvent.mk job) := by
    refine List.filter_eq_self.mpr fun event hevent => ?_
    obtain ⟨kind, -, rfl⟩ := List.mem_map.mp hevent
    simp
  rw [List.filter_append, List.map_append, hall, List.map_map]
  congr 1
  exact List.map_id _

theorem PlayStore.eventsOf_after_of_ne (s : PlayStore) {job other : PublishJob} (hne : other ≠ job)
    (result : StepResult) : (s.after job result).eventsOf other = s.eventsOf other := by
  unfold PlayStore.eventsOf PlayStore.after
  dsimp only
  have hnone : (result.events.map (PlayEvent.mk job)).filter (fun event => event.job = other) =
      [] := by
    refine List.filter_eq_nil_iff.mpr fun event hevent => ?_
    obtain ⟨kind, -, rfl⟩ := List.mem_map.mp hevent
    simpa using hne.symm
  rw [List.filter_append, hnone, List.append_nil]

/-- What holds between the calls: every run kept its promises so far, and only started runs have
events. -/
def AllSound (s : PlayStore) : Prop :=
  ∀ job, Sound job (s.eventsOf job) ∧ (s.eventsOf job ≠ [] → job.id < s.nextJob)

/-- What holds of a run under way. -/
def UnderWay (s : PlayStore) (call : PublishCall) : Prop :=
  Running call.job call.step (s.eventsOf call.job) ∧ call.job.id < s.nextJob

/-- Different runs. -/
def Apart (call other : PublishCall) : Prop := call.job.id ≠ other.job.id

/-- The calls whose lost replies do not mislead the run. -/
def lostSafely : Interleave.Condition PlayStore PublishCall PublishInput PlayAnswer where
  enter _ _ := True
  enterBeside _ _ _ := True
  advance := CallMet
  advanceBeside _ _ _ _ := True

theorem running_start (job : PublishJob) : Running job .accessToken [] where
  running _ h := by cases h
  opened _ h := by cases h
  codes _ h := by cases h
  order := .nil
  active _ h := by cases h
  staged _ h := by cases h
  landed := False.elim

theorem AllSound.enter {s s' : PlayStore} {input : PublishInput} {calls : List PublishCall}
    (h : AllSound s) (henter : enterPublish s input = some (s', calls)) :
    AllSound s' ∧ (∀ call ∈ calls, UnderWay s' call) ∧ calls.Pairwise Apart := by
  cases input with
  | publish versionCode track mapping =>
    cases henter
    refine ⟨fun job => ⟨(h job).1, fun hne => Nat.lt_succ_of_lt ((h job).2 hne)⟩,
      fun call hcall => ?_, List.pairwise_singleton _ _⟩
    rw [List.mem_singleton.mp hcall]
    refine ⟨?_, Nat.lt_succ_self _⟩
    -- a new run has no events yet, as its number is not used
    have hnone : s.eventsOf ⟨s.nextJob, versionCode, track, mapping⟩ = [] := by
      by_contra hne
      exact absurd ((h _).2 hne) (Nat.lt_irrefl _)
    show Running _ _ (s.eventsOf _)
    rw [hnone]
    exact running_start _
  | otherCommit tracks bundles =>
    cases henter
    exact ⟨h, fun _ hcall => (List.not_mem_nil hcall).elim, .nil⟩

theorem UnderWay.enter {s s' : PlayStore} {input : PublishInput} {calls : List PublishCall}
    {other : PublishCall} (h : UnderWay s other)
    (henter : enterPublish s input = some (s', calls)) :
    UnderWay s' other ∧ ∀ call ∈ calls, Apart other call := by
  cases input with
  | publish versionCode track mapping =>
    cases henter
    refine ⟨⟨h.1, Nat.lt_succ_of_lt h.2⟩, fun call hcall => ?_⟩
    rw [List.mem_singleton.mp hcall]
    exact Nat.ne_of_lt h.2
  | otherCommit tracks bundles =>
    cases henter
    exact ⟨h, fun _ hcall => (List.not_mem_nil hcall).elim⟩

theorem AllSound.advance {s s' : PlayStore} {call : PublishCall} {answer : PlayAnswer}
    {next : Option PublishCall} (h : AllSound s) (hcall : UnderWay s call)
    (hmet : CallMet s call answer) (hadvance : advancePublish s call answer = some (s', next)) :
    AllSound s' ∧ ∀ later ∈ next, UnderWay s' later := by
  rw [advancePublish_eq] at hadvance
  cases hadvance
  have hleads := leads_publishStep hcall.1 rfl hmet
  have hown := s.eventsOf_after call.job (publishStep s call.job answer call.step)
  refine ⟨fun job => ?_, fun later hlater => ?_⟩
  · by_cases hjob : job = call.job
    · subst hjob
      refine ⟨?_, fun _ => hcall.2⟩
      rw [hown]
      unfold Leads at hleads
      split at hleads
      · exact hleads.sound
      · exact hleads
    · rw [s.eventsOf_after_of_ne hjob]
      exact h job
  · obtain ⟨step, hstep, rfl⟩ := Option.map_eq_some_iff.mp hlater
    refine ⟨?_, hcall.2⟩
    show Running call.job step _
    rw [hown]
    simpa only [Leads, hstep] using hleads

theorem UnderWay.advance {s s' : PlayStore} {call other : PublishCall} {answer : PlayAnswer}
    {next : Option PublishCall} (hother : UnderWay s other) (hapart : Apart call other)
    (hadvance : advancePublish s call answer = some (s', next)) :
    UnderWay s' other ∧ ∀ later ∈ next, Apart other later := by
  rw [advancePublish_eq] at hadvance
  cases hadvance
  have hne : other.job ≠ call.job := fun heq => hapart (by rw [heq])
  refine ⟨⟨?_, hother.2⟩, fun later hlater => ?_⟩
  · rw [s.eventsOf_after_of_ne hne]
    exact hother.1
  · obtain ⟨step, -, rfl⟩ := Option.map_eq_some_iff.mp hlater
    exact hapart.symm

theorem stable_publishing :
    Interleave.Stable publishing lostSafely AllSound UnderWay Apart where
  symm _ _ h := h.symm
  enter _ _ _ _ hsound _ henter := hsound.enter henter
  enterBeside _ _ _ _ _ _ _ henter hother _ := hother.enter henter
  advance _ _ _ _ _ hsound hcall hmet hadvance := hsound.advance hcall hmet hadvance
  advanceBeside _ _ _ _ _ _ _ _ _ hadvance hother hapart _ := hother.advance hapart hadvance
  drop _ _ hsound _ := hsound
  dropBeside _ _ _ _ _ hother _ := hother
  restart _ hsound := hsound

theorem allSound_start {s : PlayStore} (hnew : s.history = []) : AllSound s := by
  intro job
  have hnone : s.eventsOf job = [] := by
    unfold PlayStore.eventsOf
    rw [hnew]
    rfl
  rw [hnone]
  exact ⟨(running_start job).sound, fun hne => absurd rfl hne⟩

/-- In every run whose lost replies do not mislead it, each publication succeeds only with a commit
of its own release, sends no commit once the build was seen to have stopped, and deletes its edit
when it fails without a commit. -/
theorem publishing_sound {s : PlayStore} (hnew : s.history = [])
    {es : List (Interleave.Event PublishInput PlayAnswer)}
    {c : Interleave.Config PlayStore PublishCall}
    (hmeets : publishing.Meets lostSafely ⟨s, []⟩ es) (hrun : publishing.run ⟨s, []⟩ es = some c)
    (job : PublishJob) : Sound job (c.shared.eventsOf job) :=
  ((stable_publishing.run (.start (allSound_start hnew)) hmeets hrun).shared job).1

/-! ## Runs -/

instance : DecidablePred fun kind : PlayEventKind => ∃ codes, kind = .committed codes
  | .committed codes => isTrue ⟨codes, rfl⟩
  | .opened _ | .stopped | .commitSent | .deleteSent _ | .returned _ =>
    isFalse fun ⟨_, h⟩ => by cases h

def looksSafe (c : Interleave.Config PlayStore PublishCall) :
    Interleave.Event PublishInput PlayAnswer → Bool
  | .advance i answer => (c.calls[i]?).all fun call =>
    match call.step with
    | .insert => answer.reply ≠ .lostAfter
    | .openRead (.landed _) =>
      (parsePlayVersionCodes c.shared.tracks c.shared.bundles call.job.track).all fun codes =>
        !codes.reaches call.job.versionCode ||
          (c.shared.eventsOf call.job).any fun kind => ∃ codes, kind = .committed codes
    | _ => true
  | _ => true

theorem met_of_looksSafe (c : Interleave.Config PlayStore PublishCall)
    (e : Interleave.Event PublishInput PlayAnswer) (h : looksSafe c e = true) :
    lostSafely.Met c e := by
  cases e with
  | enter input => exact ⟨trivial, fun _ _ => trivial⟩
  | drop i => trivial
  | restart => trivial
  | advance i answer =>
    intro call hcall
    refine ⟨?_, fun _ _ => trivial⟩
    obtain ⟨job, step⟩ := call
    have hsafe := (Option.all_eq_true _ _).mp h _ hcall
    show CallMet c.shared ⟨job, step⟩ answer
    cases step with
    | insert =>
      have hreply : answer.reply ≠ .lostAfter := of_decide_eq_true hsafe
      exact hreply
    | openRead purpose =>
      cases purpose with
      | check => trivial
      | landed edit =>
        intro codes hparse hreaches
        have hany := (Option.all_eq_true _ _).mp hsafe codes hparse
        rw [hreaches, Bool.not_true, Bool.false_or, List.any_eq_true] at hany
        obtain ⟨kind, hkind, hcommitted⟩ := hany
        obtain ⟨committed, rfl⟩ := of_decide_eq_true hcommitted
        exact ⟨committed, hkind⟩
    | _ => trivial

/-- Version code 9 is on the production track. -/
def releasedNine : PlayStore :=
  { tracks := [⟨"production".toList, [["9".toList]]⟩], bundles := [9] }

/-- A publication of version code 10 up to its commit, all of whose calls are answered. -/
def stagedTen : List (Interleave.Event PublishInput PlayAnswer) :=
  .enter (.publish 10 "production".toList false) :: List.replicate 9 (.advance 0 {})

def ten : PublishJob := ⟨0, 10, "production".toList, false⟩

/-- The reply to the commit is lost after it took effect; the track then shows the release. -/
def replyLost : List (Interleave.Event PublishInput PlayAnswer) :=
  stagedTen ++ [.advance 0 { reply := .lostAfter }] ++ List.replicate 4 (.advance 0 {})

theorem publishing_sound_replyLost :
    ∃ c, publishing.run ⟨releasedNine, []⟩ replyLost = some c ∧
      c.shared.eventsOf ten =
        [.opened 1, .commitSent, .committed ["10".toList], .returned true] ∧
      Sound ten (c.shared.eventsOf ten) := by
  have hevents : ((publishing.run ⟨releasedNine, []⟩ replyLost).map fun c =>
      c.shared.eventsOf ten) =
        some [.opened 1, .commitSent, .committed ["10".toList], .returned true] := by
    decide +kernel
  have hchecks : publishing.checks looksSafe ⟨releasedNine, []⟩ replyLost = true := by
    decide +kernel
  obtain ⟨c, hc, heq⟩ := Option.map_eq_some_iff.mp hevents
  exact ⟨c, hc, heq,
    publishing_sound rfl (publishing.meets_of_checks met_of_looksSafe hchecks) hc ten⟩

/-- The commit is lost before it took effect, and another publisher releases version code 11 before
the track is read. -/
def overtaken : List (Interleave.Event PublishInput PlayAnswer) :=
  stagedTen ++ [.advance 0 { reply := .lostBefore },
    .enter (.otherCommit [⟨"production".toList, [["11".toList]]⟩] [9, 11])] ++
    List.replicate 4 (.advance 0 {})

theorem overtaken_not_sound :
    ¬∀ s : PlayStore, s.history = [] → ∀ (es : List (Interleave.Event PublishInput PlayAnswer))
      (c : Interleave.Config PlayStore PublishCall),
      publishing.run ⟨s, []⟩ es = some c → ∀ job, Sound job (c.shared.eventsOf job) := by
  intro h
  have hevents : ((publishing.run ⟨releasedNine, []⟩ overtaken).map fun c =>
      c.shared.eventsOf ten) = some [.opened 1, .commitSent, .returned true] := by
    decide +kernel
  obtain ⟨c, hc, heq⟩ := Option.map_eq_some_iff.mp hevents
  have hok := (h releasedNine rfl overtaken c hc ten).ok
  rw [heq] at hok
  obtain ⟨codes, hcommitted, -⟩ := hok (by simp)
  simp at hcommitted

end OoreBuild.PlayPublish
