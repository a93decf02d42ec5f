import OoreBuild.AppStoreMonitor
import OoreBuild.Rollout

/-!
# Links that are followed to the end

A link ends only with its release, a release that is not at its end keeps being polled, and a poll
that loses a race changes neither stage nor state (`links_settle`). The first two can fail where a
poll finds the build of a rolling release expired, which takes an earlier poll that was cut short
between its two changes (`resumed_release_not_polled`).
-/

namespace OoreBuild

namespace AppStore

open Text Interleave

/-! ## What holds -/

/-- The release had the state and fraction that the poll had read. -/
def Attempt.AsRead (attempt : Attempt) (read : LinkRow) : Prop :=
  ∃ release, attempt.found = some release ∧
    movedSince (some (read.releaseState, read.rolloutFraction)) release = false

/-- The release could still move to the state. -/
def Attempt.Possible (attempt : Attempt) : Prop :=
  ∃ release, attempt.found = some release ∧ release.state.canTransitionTo attempt.toState = true

/-- A poll records a state only where the release can still move there, the first one only where
nobody has changed the release since it was read. Where a change was refused, nothing more was
recorded. -/
structure FairAttempts (read : LinkRow) (attempts : List Attempt) : Prop where
  possible : ∀ attempt ∈ attempts, attempt.recorded = true → attempt.Possible
  first : ∀ attempt ∈ attempts.getLast?, attempt.recorded = true → attempt.AsRead read
  last : ∀ attempt ∈ attempts.tail, attempt.recorded = true

/-- Where a change was refused, the stage stays too. -/
structure PollRecord.Fair (poll : PollRecord) : Prop where
  attempts : FairAttempts poll.read poll.attempts
  stage : (∃ attempt ∈ poll.attempts, attempt.recorded = false) → poll.stageAfter = poll.stageBefore

/-- What holds in every state that is reached. -/
structure Board.Settled (s : Board) : Prop where
  /-- A link has ended only where its release is complete or failed. -/
  done : ∀ link ∈ s.links.rows, link.stage = .done →
    ∃ release, s.releases.find link.releaseId = some release ∧
      (release.state = .complete ∨ release.state = .failed)
  /-- A release that is not complete, failed or halted is due again. -/
  polled : ∀ link ∈ s.links.rows, ∀ release, s.releases.find link.releaseId = some release →
    followed release.state = true → ∀ now, link.nextPollAt ≤ now → link ∈ s.dueRows now
  fair : ∀ poll ∈ s.polls, poll.Fair

/-! ## Releases only go on -/

def Board.stateOf (s : Board) (id : Text) : Option ReleaseState :=
  (s.releases.find id).map (·.state)

/-- The release is complete or failed. -/
def Board.Terminal (s : Board) (id : Text) : Prop :=
  ∃ state, s.stateOf id = some state ∧ state.isTerminal = true

/-- Every release is still there, in the same state or one it could move to. -/
def Later (s s' : Board) : Prop :=
  ∀ id state, s.stateOf id = some state → ∃ state', s'.stateOf id = some state' ∧
    (state' = state ∨ state.canTransitionTo state' = true)

theorem later_refl (s : Board) : Later s s := fun _ state h => ⟨state, h, .inl rfl⟩

theorem later_of_releases {s s' : Board} (h : s'.releases = s.releases) : Later s s' := by
  intro id state hstate
  refine ⟨state, ?_, .inl rfl⟩
  rw [Board.stateOf, h]
  exact hstate

/-- An end is never left. -/
theorem Later.terminal {s s' : Board} (h : Later s s') {id : Text} (hterminal : s.Terminal id) :
    s'.Terminal id := by
  obtain ⟨state, hstate, hend⟩ := hterminal
  obtain ⟨state', hstate', rfl | hcan⟩ := h id state hstate
  · exact ⟨_, hstate', hend⟩
  · cases state <;> cases hend <;> cases hcan

/-- The links have the same stages. -/
def SameStages (s s' : Board) : Prop := ∀ id, s'.stageOf id = s.stageOf id

theorem sameStages_modify (s : Board) (id : Text) (f : ReleaseLink → ReleaseLink)
    (hf : ∀ link, (f link).releaseId = link.releaseId)
    (hstage : ∀ link, (f link).stage = link.stage) :
    SameStages s { s with links := s.links.modify id f hf } := by
  intro k
  unfold Board.stageOf
  rw [Table.find_modify]
  split
  · rename_i hk
    rw [hk]
    cases s.links.find id with
    | none => rfl
    | some link => exact congrArg some (hstage link)
  · rfl

theorem sameStages_pollNow (s : Board) (id : Text) (now : ℤ) : SameStages s (s.pollNow id now) :=
  sameStages_modify s id _ _ fun _ => rfl

/-- What a transition does: the row is written with a state it can move to, or nothing is. Beside
it only the next poll of a link changes. -/
structure Moved.Of (s : Board) (answer : Answer) (id : Text) (change : ReleaseChange)
    (moved : Moved) : Prop where
  busy : moved.board.busy = s.busy
  polls : moved.board.polls = s.polls
  stages : SameStages s moved.board
  rows : (∃ current now, s.releases.find id = some current ∧ checkChange current change = .ok () ∧
      moved.written = true ∧ moved.board.releases = s.releases.modify id
        (fun row => { change.applyTo current now with id := row.id }) fun _ => rfl) ∨
    moved.written = false ∧ moved.board.releases = s.releases ∧ ∃ error, moved.result = .error error

theorem move_of (s : Board) (answer : Answer) (id : Text) (change : ReleaseChange) :
    (s.move answer id change).Of s answer id change := by
  have hboard : ∀ told : Bool, let t := if told then s.pollNow id answer.asc.now else s
      t.busy = s.busy ∧ t.polls = s.polls ∧ SameStages s t ∧ t.releases = s.releases := by
    intro told
    cases told with
    | false => exact ⟨rfl, rfl, fun _ => rfl, rfl⟩
    | true => exact ⟨rfl, rfl, sameStages_pollNow s id _, rfl⟩
  have hcases := transitionRelease_cases (s.outcomes answer id) s.releases id change
  unfold Board.move
  split
  · exact ⟨rfl, rfl, fun _ => rfl, .inr ⟨rfl, rfl, _, rfl⟩⟩
  · dsimp only
    generalize transitionRelease (s.outcomes answer id) s.releases id change = moved at hcases ⊢
    generalize moved.sent.any _ = told
    obtain ⟨hbusy, hpolls, hstages, hreleases⟩ := hboard told
    rcases hcases with ⟨current, hfind, hcheck, hresult, hmodify⟩ | ⟨⟨error, hresult⟩, -⟩
    · rw [hresult]
      split
      · rename_i heq
        cases heq
      · exact ⟨hbusy, hpolls, hstages, .inr ⟨rfl, hreleases, _, rfl⟩⟩
      · exact ⟨hbusy, hpolls, hstages, .inl ⟨current, _, hfind, hcheck, rfl, hmodify⟩⟩
      · exact ⟨hbusy, hpolls, hstages, .inl ⟨current, _, hfind, hcheck, rfl, hmodify⟩⟩
    · rw [hresult]
      exact ⟨hbusy, hpolls, hstages, .inr ⟨rfl, hreleases, _, rfl⟩⟩

/-- What `checkChange` lets through is a valid transition. -/
theorem canTransitionTo_of_checkChange {current : Release} {change : ReleaseChange}
    (h : checkChange current change = .ok ()) :
    current.state.canTransitionTo change.toState = true := by
  unfold checkChange at h
  split at h
  · cases h
  · split at h
    · cases h
    · rename_i hcan
      simpa using hcan

theorem stateOf_modify {s s' : Board} {id : Text} {f : Release → Release}
    {hf : ∀ row, (f row).id = row.id} (h : s'.releases = s.releases.modify id f hf) (k : Text) :
    s'.stateOf k = if k = id then (s.releases.find id).map fun row => (f row).state
      else s.stateOf k := by
  unfold Board.stateOf
  rw [h, Table.find_modify]
  split
  · rw [Option.map_map]
    rfl
  · rfl

variable {s : Board} {answer : Answer} {id : Text} {change : ReleaseChange} {moved : Moved}

theorem Moved.Of.later (h : moved.Of s answer id change) : Later s moved.board := by
  rcases h.rows with ⟨current, now, hfind, hcheck, -, hmodify⟩ | ⟨-, hsame, -⟩
  · intro k state hstate
    rw [stateOf_modify hmodify]
    split
    · rename_i hk
      rw [hk, Board.stateOf, hfind] at hstate
      cases hstate
      rw [hfind]
      exact ⟨_, rfl, .inr (canTransitionTo_of_checkChange hcheck)⟩
    · exact ⟨state, hstate, .inl rfl⟩
  · exact later_of_releases hsame

/-- A recorded change was possible, and leads to its state. -/
theorem Moved.Of.recorded (h : moved.Of s answer id change) (hok : moved.result = .ok ()) :
    moved.board.stateOf id = some change.toState ∧ ∃ current, s.releases.find id = some current ∧
      current.state.canTransitionTo change.toState = true ∧
      movedSince change.expect current = false := by
  rcases h.rows with ⟨current, now, hfind, hcheck, -, hmodify⟩ | ⟨-, -, error, herror⟩
  · refine ⟨?_, current, hfind, canTransitionTo_of_checkChange hcheck, (checkChange_ok hcheck).1⟩
    rw [stateOf_modify hmodify, if_pos rfl, hfind]
    rfl
  · rw [hok] at herror
    cases herror

/-! ## What a step keeps -/

/-- Releases only went on, every link that has ended did so with its release, and every poll was
fair. -/
structure Kept (s s' : Board) : Prop where
  later : Later s s'
  done : ∀ id, s'.stageOf id = some .done → s.stageOf id = some .done ∨ s'.Terminal id
  polls : ∀ poll ∈ s'.polls, poll ∈ s.polls ∨ poll.Fair

theorem kept_refl (s : Board) : Kept s s := ⟨later_refl s, fun _ => .inl, fun _ => .inl⟩

theorem Moved.Of.kept (h : moved.Of s answer id change) : Kept s moved.board where
  later := h.later
  done k hk := .inl ((h.stages k).symm.trans hk)
  polls _ hpoll := .inl (h.polls ▸ hpoll)

theorem ne_terminal_of_followed {state : ReleaseState} (h : followed state = true) :
    state.isTerminal = false := by
  cases state with
  | complete => cases h
  | failed => cases h
  | _ => rfl

/-- What the reached tables have in common. -/
structure Board.Sound (s : Board) : Prop where
  done : ∀ id, s.stageOf id = some .done → s.Terminal id
  fair : ∀ poll ∈ s.polls, poll.Fair

theorem Board.Sound.kept {s' : Board} (h : s.Sound) (hkept : Kept s s') : s'.Sound where
  done k hk := (hkept.done k hk).elim (fun hdone => hkept.later.terminal (h.done k hdone)) id
  fair poll hpoll := (hkept.polls poll hpoll).elim (h.fair poll) id

theorem Board.Sound.settled (h : s.Sound) : s.Settled := by
  have hend : ∀ link ∈ s.links.rows, link.stage = .done →
      ∃ release, s.releases.find link.releaseId = some release ∧
        release.state.isTerminal = true := by
    intro link hlink hdone
    have hstage : s.stageOf link.releaseId = some .done := by
      rw [Board.stageOf, Table.find_of_mem hlink, Option.map_some, hdone]
    obtain ⟨state, hstate, hterminal⟩ := h.done _ hstage
    obtain ⟨release, hfind, rfl⟩ := Option.map_eq_some_iff.mp hstate
    exact ⟨release, hfind, hterminal⟩
  refine ⟨fun link hlink hdone => ?_, fun link hlink release hfind hfollowed now hdue => ?_, h.fair⟩
  · obtain ⟨release, hfind, hterminal⟩ := hend link hlink hdone
    refine ⟨release, hfind, ?_⟩
    cases hstate : release.state <;> rw [hstate] at hterminal <;> cases hterminal <;> simp
  · refine List.mem_filter.mpr ⟨hlink, ?_⟩
    have hstage : link.stage ≠ .done := by
      intro hdone
      obtain ⟨release', hfind', hterminal⟩ := hend link hlink hdone
      rw [hfind, Option.some.injEq] at hfind'
      rw [← hfind', ne_terminal_of_followed hfollowed] at hterminal
      cases hterminal
    simp [hstage, hdue, hfind, hfollowed]

/-! ## What the calls keep -/

/-- The state that the changes lead to is an end. -/
def LeadsToEnd (changes : List (ReleaseState × Option F64)) : Prop :=
  ∃ change ∈ changes.getLast?, change.1.isTerminal = true

/-- The changes so far were possible and recorded, the first one as it was read. -/
structure Poll.Clean (poll : Poll) : Prop where
  recorded : ∀ attempt ∈ poll.attempts, attempt.recorded = true
  fair : FairAttempts poll.current poll.attempts

/-- The rows that a pass took were followed. -/
def Followed (rows : List LinkRow) : Prop := ∀ row ∈ rows, followed row.releaseState = true

def Poll.Followed (poll : Poll) : Prop :=
  followed poll.current.releaseState = true ∧ AppStore.Followed poll.rest

/-- What the monitor knows at a point of its pass. -/
def PointOk (s : Board) : MonitorPoint → Prop
  | .next rest => Followed rest
  | .look current _ rest => followed current.releaseState = true ∧ Followed rest
  | .change poll toState toFraction others => poll.Followed ∧ poll.Clean ∧
    (poll.step.stage = some .done → LeadsToEnd ((toState, toFraction) :: others))
  | .update poll stage _ => poll.Followed ∧ FairAttempts poll.current poll.attempts ∧
    (stage = some .done → s.Terminal poll.current.releaseId) ∧
    ((∃ attempt ∈ poll.attempts, attempt.recorded = false) → stage = none)
  | .failed _ _ rest => Followed rest
  | .giveUp _ rest => Followed rest
  | .giveUpChange releaseId path rest => Followed rest ∧
    match path.getLast? with
    | none => s.Terminal releaseId
    | some state => state.isTerminal = true

theorem PointOk.later {s s' : Board} (h : Later s s') {point : MonitorPoint}
    (hpoint : PointOk s point) : PointOk s' point := by
  cases point with
  | update poll stage _ =>
    obtain ⟨hfollowed, hfair, hdone, hrefused⟩ := hpoint
    exact ⟨hfollowed, hfair, fun hstage => h.terminal (hdone hstage), hrefused⟩
  | giveUpChange releaseId path rest =>
    obtain ⟨hfollowed, hpath⟩ := hpoint
    refine ⟨hfollowed, ?_⟩
    cases hlast : path.getLast? with
    | none =>
      rw [hlast] at hpath
      exact h.terminal hpath
    | some state =>
      rw [hlast] at hpath
      exact hpath
  | _ => exact hpoint

/-- The point after the changes so far, where those still to come lead to an end. -/
theorem pointOk_goOn {poll : Poll} {changes : List (ReleaseState × Option F64)}
    (hfollowed : poll.Followed) (hclean : poll.Clean)
    (hdone : poll.step.stage = some .done →
      if changes = [] then s.Terminal poll.current.releaseId else LeadsToEnd changes) :
    PointOk s (poll.goOn changes) := by
  cases changes with
  | nil =>
    refine ⟨hfollowed, hclean.fair, hdone, ?_⟩
    rintro ⟨attempt, hattempt, hrefused⟩
    rw [hclean.recorded attempt hattempt] at hrefused
    cases hrefused
  | cons change others => exact ⟨hfollowed, hclean, hdone⟩

/-- A look ends the link only where its changes lead to an end, unless Apple withdrew a release
that is rolling or paused. -/
theorem leadsToEnd_of_advance {asc : AscAnswers} {current : LinkRow} {step : Step}
    (hstep : advance asc current = .ok step) (hfollowed : followed current.releaseState = true)
    (hcond : Withdrawn asc current →
      current.releaseState ≠ .rolling ∧ current.releaseState ≠ .paused)
    (hdone : step.stage = some .done) : LeadsToEnd (stepChanges current step) := by
  cases decided_of_advance hstep with
  | nothing _ hstage _ =>
    rw [hstage] at hdone
    cases hdone
  | goesOn next _ hstage horder =>
    rw [hstage] at hdone
    cases hdone
    rcases horder with ⟨-, h⟩ | ⟨-, h⟩ <;> cases h
  | inReview _ _ _ hstage _ _ =>
    rw [hdone] at hstage
    rcases hstage with h | h | h <;> cases h
  | live _ _ _ _ _ hstage _ _ =>
    rw [hstage] at hdone
    cases hdone
  | ends state fraction reason htransition hend _ _ =>
    have hterminal : state.isTerminal = true := by
      rcases hend with rfl | rfl <;> rfl
    obtain hchanges | ⟨-, -, hchanges⟩ := stepChanges_of_end htransition hend hfollowed
    · rw [hchanges]
      exact ⟨_, rfl, hterminal⟩
    · rw [hchanges]
      exact ⟨_, rfl, hterminal⟩
  | withdrawn fraction reason htransition _ hwithdrawn _ =>
    obtain ⟨hrolling, hpaused⟩ := hcond hwithdrawn
    have hearly : isEarlyState current.releaseState = true := by
      cases hstate : current.releaseState <;> simp_all [followed, isEarlyState]
    rw [stepChanges_of_withdrawn htransition hearly]
    exact ⟨_, rfl, rfl⟩

/-! ## The monitor's steps -/

/-- A link ends where its release is at its end. -/
theorem kept_of_modify {s : Board} {id : Text} {f : ReleaseLink → ReleaseLink}
    {hf : ∀ link, (f link).releaseId = link.releaseId} {polls : List PollRecord}
    (hdone : ∀ link, (f link).stage = .done → link.stage = .done ∨ s.Terminal id)
    (hpolls : ∀ poll ∈ polls, poll ∈ s.polls ∨ poll.Fair) :
    Kept s { s with links := s.links.modify id f hf, polls } where
  later := later_of_releases rfl
  done k hk := by
    unfold Board.stageOf at hk ⊢
    rw [Table.find_modify] at hk
    split at hk
    · rename_i heq
      rw [heq]
      cases hfind : s.links.find id with
      | none =>
        rw [hfind] at hk
        cases hk
      | some link =>
        rw [hfind] at hk
        rcases hdone link (Option.some.inj hk) with hstage | hterminal
        · exact .inl (congrArg some hstage)
        · exact .inr hterminal
    · exact .inl hk
  polls := hpolls

variable (answer) in
/-- One change of a poll. -/
theorem recordChange_ok {poll : Poll} {toState : ReleaseState} {toFraction : Option F64}
    {others : List (ReleaseState × Option F64)}
    (h : PointOk s (.change poll toState toFraction others)) :
    Kept s (s.recordChange answer poll toState toFraction others).1 ∧
      (s.recordChange answer poll toState toFraction others).1.busy = s.busy ∧
      PointOk (s.recordChange answer poll toState toFraction others).1
        (s.recordChange answer poll toState toFraction others).2 := by
  obtain ⟨hfollowed, hclean, hdone⟩ := h
  have hmoved := move_of s answer poll.current.releaseId
    (storeMade toState toFraction poll.expect)
  have hkept := hmoved.kept
  unfold Board.recordChange
  dsimp only
  generalize s.move answer poll.current.releaseId (storeMade toState toFraction poll.expect) =
    moved at hmoved hkept ⊢
  split
  · rename_i hok
    obtain ⟨hstate, current, hfind, hcan, hread⟩ := hmoved.recorded hok
    refine ⟨⟨hkept.later, hkept.done, hkept.polls⟩, hmoved.busy,
      pointOk_goOn ⟨hfollowed.1, hfollowed.2⟩ ⟨?_, ⟨?_, ?_, hclean.recorded⟩⟩ fun hstage => ?_⟩
    · exact List.forall_mem_cons.mpr ⟨rfl, hclean.recorded⟩
    · exact List.forall_mem_cons.mpr ⟨fun _ => ⟨current, hfind, hcan⟩, hclean.fair.possible⟩
    · intro attempt hattempt
      cases hattempts : poll.attempts with
      | nil =>
        rw [hattempts] at hattempt
        cases hattempt
        rw [Poll.expect, if_pos hattempts] at hread
        exact fun _ => ⟨current, hfind, hread⟩
      | cons first rest =>
        rw [hattempts, List.getLast?_cons_cons, ← hattempts] at hattempt
        exact hclean.fair.first attempt hattempt
    · obtain ⟨change, hlast, hterminal⟩ := hdone hstage
      split
      · rename_i hothers
        rw [hothers] at hlast
        cases hlast
        exact ⟨toState, hstate, hterminal⟩
      · rename_i hothers
        obtain ⟨second, rest, rfl⟩ := List.exists_cons_of_ne_nil hothers
        rw [List.getLast?_cons_cons] at hlast
        exact ⟨change, hlast, hterminal⟩
  · refine ⟨⟨hkept.later, hkept.done, hkept.polls⟩, hmoved.busy, ⟨hfollowed.1, hfollowed.2⟩,
      ⟨?_, ?_, hclean.recorded⟩, (fun h => by cases h), fun _ => rfl⟩
    · exact List.forall_mem_cons.mpr ⟨(fun h => by cases h), hclean.fair.possible⟩
    · intro attempt hattempt hrecorded
      cases hattempts : poll.attempts with
      | nil =>
        rw [hattempts] at hattempt
        cases hattempt
        cases hrecorded
      | cons first rest =>
        rw [hattempts, List.getLast?_cons_cons, ← hattempts] at hattempt
        exact hclean.fair.first attempt hattempt hrecorded
  · exact ⟨⟨hkept.later, hkept.done, hkept.polls⟩, hmoved.busy, hfollowed.2⟩

theorem kept_writeLink {poll : Poll} {stage : Option Stage} {nextPollIn nextPollAt : ℤ}
    (h : PointOk s (.update poll stage nextPollIn)) :
    Kept s (s.writeLink poll stage nextPollAt) := by
  obtain ⟨-, hfair, hdone, hrefused⟩ := h
  refine kept_of_modify (fun link hstage => ?_) (List.forall_mem_cons.mpr
    ⟨.inr ⟨hfair, fun hex => ?_⟩, fun _ => .inl⟩)
  · cases stage with
    | none => exact .inl hstage
    | some stage => exact .inr (hdone (congrArg some hstage))
  · have hstage := hrefused hex
    subst hstage
    exact sameStages_modify s poll.current.releaseId (·.updateFrom poll.step none nextPollAt)
      (fun _ => rfl) (fun _ => rfl) poll.current.releaseId

variable (answer) in
theorem updateLink_ok {poll : Poll} {stage : Option Stage} {nextPollIn : ℤ}
    (h : PointOk s (.update poll stage nextPollIn)) :
    Kept s (s.updateLink answer poll stage nextPollIn).1 ∧
      (s.updateLink answer poll stage nextPollIn).1.busy = s.busy ∧
      PointOk (s.updateLink answer poll stage nextPollIn).1
        (s.updateLink answer poll stage nextPollIn).2 := by
  have hfollowed := h.1
  unfold Board.updateLink
  cases answer.db with
  | ok =>
    refine ⟨kept_writeLink h, rfl, ?_⟩
    unfold Poll.afterwards
    dsimp only
    split
    · exact hfollowed
    · exact hfollowed.2
  | failsReadBack => exact ⟨kept_writeLink h, rfl, hfollowed.2⟩
  | failsRead => exact ⟨kept_refl s, rfl, hfollowed.2⟩
  | failsWrite => exact ⟨kept_refl s, rfl, hfollowed.2⟩

variable (s answer) in
theorem recordError_ok (releaseId message : Text) {rest : List LinkRow} (h : Followed rest) :
    Kept s (s.recordError answer releaseId message rest).1 ∧
      (s.recordError answer releaseId message rest).1.busy = s.busy ∧
      PointOk (s.recordError answer releaseId message rest).1
        (s.recordError answer releaseId message rest).2 := by
  unfold Board.recordError
  dsimp only
  split
  · refine ⟨kept_of_modify (fun _ hstage => .inl hstage) fun _ => .inl, rfl, ?_⟩
    dsimp only
    split
    · exact h
    · exact h
  · exact ⟨kept_refl s, rfl, h⟩

/-- The way to `failed` ends there; only an end has none. -/
theorem getLast?_transitionPath_failed (state : ReleaseState) :
    (transitionPath state .failed).getLast? = some .failed ∨
      transitionPath state .failed = [] ∧ state.isTerminal = true := by
  cases state <;> decide

variable (answer) in
/-- A pass goes on with what it knows. -/
theorem monitorStep_ok {point : MonitorPoint} (h : PointOk s point)
    (hcond : ∀ current again rest, point = .look current again rest →
      Withdrawn answer.asc current → current.releaseState ≠ .rolling ∧
        current.releaseState ≠ .paused) :
    Kept s (monitorStep s answer point).1 ∧
      ∀ next ∈ (monitorStep s answer point).2, (monitorStep s answer point).1.busy = s.busy ∧
        PointOk (monitorStep s answer point).1 next := by
  cases point with
  | next rest =>
    cases rest with
    | nil => exact ⟨⟨later_refl s, fun _ => .inl, fun _ => .inl⟩, by simp [monitorStep]⟩
    | cons row rest =>
      obtain ⟨hrow, hrest⟩ := List.forall_mem_cons.mp h
      simp only [monitorStep]
      split
      · exact ⟨kept_refl s, fun next hnext => by cases hnext; exact ⟨rfl, hrest⟩⟩
      · exact ⟨kept_refl s, fun next hnext => by cases hnext; exact ⟨rfl, hrow, hrest⟩⟩
  | look current again rest =>
    refine ⟨kept_refl s, fun next hnext => ?_⟩
    cases hnext
    refine ⟨rfl, ?_⟩
    unfold lookPoint
    split
    · exact h.2
    · rename_i step hstep
      refine pointOk_goOn h ⟨by simp, ⟨by simp, by simp, by simp⟩⟩ fun hdone => ?_
      have hend := leadsToEnd_of_advance hstep h.1 (hcond current again rest rfl) hdone
      rw [if_neg]
      · exact hend
      · intro hnil
        rw [hnil] at hend
        obtain ⟨change, hlast, -⟩ := hend
        cases hlast
  | change poll toState toFraction others =>
    obtain ⟨hkept, hbusy, hpoint⟩ := recordChange_ok answer h
    exact ⟨hkept, fun next hnext => by cases hnext; exact ⟨hbusy, hpoint⟩⟩
  | update poll stage nextPollIn =>
    obtain ⟨hkept, hbusy, hpoint⟩ := updateLink_ok answer h
    exact ⟨hkept, fun next hnext => by cases hnext; exact ⟨hbusy, hpoint⟩⟩
  | failed releaseId message rest =>
    obtain ⟨hkept, hbusy, hpoint⟩ := recordError_ok s answer releaseId message h
    exact ⟨hkept, fun next hnext => by cases hnext; exact ⟨hbusy, hpoint⟩⟩
  | giveUp releaseId rest =>
    simp only [monitorStep]
    split
    · rename_i release _ hfind
      refine ⟨kept_refl s, fun next hnext => ?_⟩
      cases hnext
      refine ⟨rfl, h, ?_⟩
      obtain hlast | ⟨hnil, hterminal⟩ := getLast?_transitionPath_failed release.state
      · rw [hlast]
        rfl
      · rw [hnil]
        exact ⟨release.state, by rw [Board.stateOf, hfind]; rfl, hterminal⟩
    · exact ⟨kept_refl s, fun next hnext => by cases hnext; exact ⟨rfl, h⟩⟩
  | giveUpChange releaseId path rest =>
    obtain ⟨hfollowed, hpath⟩ := h
    cases path with
    | nil =>
      simp only [monitorStep]
      refine ⟨?_, fun next hnext => ?_⟩
      · split
        · exact kept_of_modify (fun _ _ => .inr hpath) fun _ => .inl
        · exact kept_refl s
      · cases hnext
        split <;> exact ⟨rfl, hfollowed⟩
    | cons toState path =>
      have hmoved := move_of s answer releaseId (storeMade toState none none)
      simp only [monitorStep]
      generalize s.move answer releaseId (storeMade toState none none) = moved at hmoved ⊢
      split
      · rename_i hok
        refine ⟨hmoved.kept, fun next hnext => ?_⟩
        cases hnext
        refine ⟨hmoved.busy, hfollowed, ?_⟩
        cases path with
        | nil => exact ⟨toState, (hmoved.recorded hok).1, hpath⟩
        | cons second path =>
          rw [List.getLast?_cons_cons] at hpath
          exact hpath
      · exact ⟨hmoved.kept, fun next hnext => by cases hnext; exact ⟨hmoved.busy, hfollowed⟩⟩

/-! ## The other calls -/

theorem kept_approve (s : Board) (id : Text) (now : ℤ) :
    Kept s (s.approve id now) ∧ (s.approve id now).busy = s.busy := by
  unfold Board.approve
  split
  · exact ⟨kept_refl s, rfl⟩
  · split
    · refine ⟨⟨fun k state hstate => ⟨state, ?_, .inl rfl⟩, fun _ => .inl, fun _ => .inl⟩, rfl⟩
      rw [stateOf_modify rfl]
      · split
        · rename_i hk
          rw [hk] at hstate
          exact hstate
        · exact hstate
      · exact fun _ => rfl
    · exact ⟨kept_refl s, rfl⟩

/-- A new link waits, or its release is at its end. -/
theorem kept_insert {s' : Board} {release : Release} {origin : ReleaseOrigin}
    {link : Option ReleaseLink} (h : s.insert release origin link = some s')
    (hlink : ∀ row ∈ link, row.stage = .done →
      row.releaseId = release.id ∧ release.state.isTerminal = true) :
    Kept s s' ∧ s'.busy = s.busy := by
  unfold Board.insert at h
  split at h
  · rename_i hrelease
    split at h
    · rename_i horigin
      have hstate : ∀ (origins : Table ReleaseOrigin.releaseId)
          (links : Table ReleaseLink.releaseId) (k : Text),
          Board.stateOf { s with releases := s.releases.insert release hrelease, origins, links }
            k = if k = release.id then some release.state else s.stateOf k := by
        intro origins links k
        unfold Board.stateOf
        rw [Table.find_insert]
        split
        · rfl
        · rfl
      have hlater : ∀ (origins : Table ReleaseOrigin.releaseId)
          (links : Table ReleaseLink.releaseId), Later s
            { s with releases := s.releases.insert release hrelease, origins, links } := by
        intro origins links k state hfound
        refine ⟨state, ?_, .inl rfl⟩
        rw [hstate, if_neg]
        · exact hfound
        · rintro rfl
          obtain ⟨row, hfind, -⟩ := Option.map_eq_some_iff.mp hfound
          exact hrelease (List.mem_map.mpr
            ⟨row, Table.mem_of_find hfind, Table.key_of_find hfind⟩)
      cases link with
      | none =>
        cases h
        exact ⟨⟨hlater _ _, fun _ => .inl, fun _ => .inl⟩, rfl⟩
      | some row =>
        dsimp only at h
        split at h
        · cases h
          refine ⟨⟨hlater _ _, fun k hk => ?_, fun _ => .inl⟩, rfl⟩
          unfold Board.stageOf at hk ⊢
          rw [Table.find_insert] at hk
          split at hk
          · rename_i heq
            obtain ⟨hid, hterminal⟩ := hlink row rfl (Option.some.inj hk)
            refine .inr ⟨release.state, ?_, hterminal⟩
            rw [hstate, if_pos (heq.trans hid)]
          · exact .inl hk
        · cases h
    · cases h
  · cases h

theorem kept_recordUpload {s' : Board} {upload : Upload} {releaseId : Text} {now : ℤ}
    (h : s.recordUpload upload releaseId now = some s') : Kept s s' ∧ s'.busy = s.busy := by
  unfold Board.recordUpload at h
  dsimp only at h
  split at h
  · cases h
  · split at h
    · cases h
    · exact kept_insert h fun row hrow hdone => by cases hrow; cases hdone

/-- What a promotion that is about to be recorded knows. -/
def Promoted.Sound (promoted : Promoted) : Prop :=
  promoted.stage = .done → promoted.state.isTerminal = true

theorem sound_of_promoteWith {asc : AscAnswers} {sourceTrack : Text} {link : Option ReleaseLink}
    {held : Text → Option (Text × Text)} {target : PromotionTarget} {promoted : Promoted}
    (h : promoteWith asc sourceTrack link held target = .ok promoted) : promoted.Sound := by
  intro hdone
  obtain ⟨-, hearly⟩ | ⟨hstate, -⟩ := promoteWith_ok h
  · rw [hdone] at hearly
    cases hearly
  · rw [hstate]
    rfl

theorem kept_recordPromotion {s' : Board} {promotion : Promotion} {link : ReleaseLink}
    {promoted : Promoted} {releaseId : Text} {now : ℤ} (hsound : promoted.Sound)
    (h : s.recordPromotion promotion link promoted releaseId now = some s') :
    Kept s s' ∧ s'.busy = s.busy := by
  unfold Board.recordPromotion at h
  dsimp only at h
  split at h
  · cases h
  · exact kept_insert h fun row hrow hdone => by cases hrow; exact ⟨rfl, hsound hdone⟩

/-! ## Runs -/

/-- Whenever a poll finds the build expired or the version gone, the release it read is neither
rolling nor paused. -/
def neverWithdrawnLate : Condition Board Call Input Answer where
  enter _ _ := True
  enterBeside _ _ _ := True
  advance _ call answer := ∀ current again rest, call = .monitor (.look current again rest) →
    Withdrawn answer.asc current →
      current.releaseState ≠ .rolling ∧ current.releaseState ≠ .paused
  advanceBeside _ _ _ _ := True

/-- What a call knows. -/
def CallOk (s : Board) : Call → Prop
  | .monitor point => s.busy = true ∧ PointOk s point
  | .recordPromotion _ _ promoted => promoted.Sound
  | .action _ _ | .promote _ => True

def Call.isMonitor : Call → Bool
  | monitor _ => true
  | _ => false

/-- There is one monitor. -/
def Apart (t u : Call) : Prop := t.isMonitor = true → u.isMonitor = false

theorem CallOk.busy {call : Call} (h : CallOk s call) (hmonitor : call.isMonitor = true) :
    s.busy = true := by
  cases call with
  | monitor point => exact h.1
  | _ => cases hmonitor

theorem CallOk.kept {s' : Board} {call : Call} (h : CallOk s call) (hkept : Kept s s')
    (hbusy : call.isMonitor = true → s'.busy = s.busy) : CallOk s' call := by
  cases call with
  | monitor point => exact ⟨(hbusy rfl).trans h.1, h.2.later hkept.later⟩
  | _ => exact h

theorem followed_dueLinks (s : Board) (now : ℤ) : Followed (s.dueLinks now) := by
  intro row hrow
  obtain ⟨link, hlink, hrow⟩ := List.mem_filterMap.mp hrow
  obtain ⟨release, hfind, rfl⟩ := Option.map_eq_some_iff.mp hrow
  have hdue := List.mem_mergeSort.mp (List.mem_of_mem_take hlink)
  have hcond := (List.mem_filter.mp hdue).2
  rw [hfind] at hcond
  simp only [Bool.and_eq_true, Option.any_some] at hcond
  exact hcond.2

/-- What a request writes, and the call it starts. A pass only starts where there is none. -/
theorem enter_ok {input : Input} {s' : Board} {calls : List Call}
    (h : enter s input = some (s', calls)) :
    Kept s s' ∧ (∀ call ∈ calls, CallOk s' call) ∧ calls.length ≤ 1 ∧
      (s.busy = true → s'.busy = true ∧ ∀ call ∈ calls, call.isMonitor = false) := by
  cases input with
  | pass now =>
    simp only [enter] at h
    split at h
    · cases h
    · rename_i hbusy
      cases h
      refine ⟨⟨later_refl s, fun _ => .inl, fun _ => .inl⟩, ?_, le_refl 1, fun h => absurd h hbusy⟩
      exact List.forall_mem_singleton.mpr ⟨rfl, followed_dueLinks s now⟩
  | upload upload releaseId now =>
    obtain ⟨board, hboard, heq⟩ := Option.map_eq_some_iff.mp h
    cases heq
    obtain ⟨hkept, hbusy⟩ := kept_recordUpload hboard
    exact ⟨hkept, by simp, by simp, fun h => ⟨hbusy.trans h, by simp⟩⟩
  | create release buildId =>
    simp only [enter] at h
    split at h
    · obtain ⟨board, hboard, heq⟩ := Option.map_eq_some_iff.mp h
      cases heq
      obtain ⟨hkept, hbusy⟩ := kept_insert hboard (by simp)
      exact ⟨hkept, by simp, by simp, fun h => ⟨hbusy.trans h, by simp⟩⟩
    · cases h
  | act releaseId role action fraction =>
    obtain ⟨current, -, h⟩ := Option.bind_eq_some_iff.mp h
    split at h
    · obtain ⟨requested, -, h⟩ := Option.bind_eq_some_iff.mp h
      cases h
      exact ⟨kept_refl s, by simp [CallOk], le_refl 1, fun h => ⟨h, by simp [Call.isMonitor]⟩⟩
    · cases h
  | promote releaseId target policy =>
    obtain ⟨source, -, h⟩ := Option.bind_eq_some_iff.mp h
    obtain ⟨origin, -, h⟩ := Option.bind_eq_some_iff.mp h
    cases h
    exact ⟨kept_refl s, by simp [CallOk], le_refl 1, fun h => ⟨h, by simp [Call.isMonitor]⟩⟩

/-- What a statement writes. Only the monitor's last one ends the pass. -/
theorem step_ok {call : Call} {s' : Board} {next : Option Call} (hcall : CallOk s call)
    (hcond : neverWithdrawnLate.advance s call answer)
    (h : step s call answer = some (s', next)) :
    Kept s s' ∧ (∀ call' ∈ next, CallOk s' call') ∧ (call.isMonitor = false →
      s'.busy = s.busy ∧ ∀ call' ∈ next, call'.isMonitor = false) := by
  cases call with
  | monitor point =>
    obtain ⟨hkept, hnext⟩ := monitorStep_ok answer hcall.2 fun current again rest heq =>
      hcond current again rest (congrArg Call.monitor heq)
    cases h
    refine ⟨hkept, fun call' hcall' => ?_, nofun⟩
    obtain ⟨point', hpoint', rfl⟩ := Option.map_eq_some_iff.mp hcall'
    obtain ⟨hbusy, hok⟩ := hnext point' hpoint'
    exact ⟨hbusy.trans hcall.1, hok⟩
  | action releaseId requested =>
    cases requested with
    | approve =>
      cases h
      split
      · obtain ⟨hkept, hbusy⟩ := kept_approve s releaseId answer.asc.now
        exact ⟨hkept, by simp, fun _ => ⟨hbusy, by simp⟩⟩
      · exact ⟨kept_refl s, by simp, fun _ => ⟨rfl, by simp⟩⟩
    | change change =>
      cases h
      have hmoved := move_of s answer releaseId change
      exact ⟨hmoved.kept, by simp, fun _ => ⟨hmoved.busy, by simp⟩⟩
  | promote promotion =>
    simp only [step] at h
    split at h
    · rename_i promoted _ _ hpromoted
      cases h
      refine ⟨kept_refl s, fun call' hcall' => ?_, fun _ => ⟨rfl, fun call' hcall' => ?_⟩⟩
      · cases hcall'
        exact sound_of_promoteWith hpromoted
      · cases hcall'
        rfl
    · cases h
      exact ⟨kept_refl s, by simp, fun _ => ⟨rfl, by simp⟩⟩
  | recordPromotion promotion link promoted =>
    simp only [step] at h
    split at h
    · rename_i hrecorded
      cases h
      obtain ⟨hkept, hbusy⟩ := kept_recordPromotion hcall hrecorded
      exact ⟨hkept, by simp, fun _ => ⟨hbusy, by simp⟩⟩
    · cases h
      exact ⟨kept_refl s, by simp, fun _ => ⟨rfl, by simp⟩⟩

theorem appStore_stable : Stable appStore neverWithdrawnLate Board.Sound CallOk Apart where
  symm t u h hmonitor := by
    by_contra hnot
    rw [h (Bool.eq_true_of_not_eq_false hnot)] at hmonitor
    cases hmonitor
  enter s input s' calls hs _ h := by
    obtain ⟨hkept, hok, hlength, -⟩ := enter_ok h
    refine ⟨hs.kept hkept, hok, ?_⟩
    cases calls with
    | nil => exact List.Pairwise.nil
    | cons call calls =>
      rw [List.eq_nil_of_length_eq_zero (Nat.le_zero.mp (Nat.le_of_succ_le_succ hlength))]
      exact List.pairwise_singleton _ _
  enterBeside s input s' calls u hs _ h hu _ := by
    obtain ⟨hkept, -, -, hbusy⟩ := enter_ok h
    refine ⟨hu.kept hkept fun hmonitor => ?_, fun call hcall hmonitor => ?_⟩
    · rw [hu.busy hmonitor, (hbusy (hu.busy hmonitor)).1]
    · exact (hbusy (hu.busy hmonitor)).2 call hcall
  advance s call answer s' next hs hcall hcond h := by
    obtain ⟨hkept, hnext, -⟩ := step_ok hcall hcond h
    exact ⟨hs.kept hkept, hnext⟩
  advanceBeside s call answer s' next u hs hcall hcond h hu hapart _ := by
    obtain ⟨hkept, -, hothers⟩ := step_ok hcall hcond h
    have hidle : u.isMonitor = true → call.isMonitor = false := by
      intro hmonitor
      by_contra hnot
      rw [hapart (Bool.eq_true_of_not_eq_false hnot)] at hmonitor
      cases hmonitor
    exact ⟨hu.kept hkept fun hmonitor => (hothers (hidle hmonitor)).1,
      fun v hv hmonitor => (hothers (hidle hmonitor)).2 v hv⟩
  drop s call hs _ := by
    cases call <;> exact ⟨hs.done, hs.fair⟩
  dropBeside s call u _ _ hu hapart := by
    cases call with
    | monitor _ => cases u with
      | monitor _ => cases hapart rfl
      | _ => exact hu
    | _ => exact hu
  restart s hs := ⟨hs.done, hs.fair⟩

/-- In every run in which no poll finds a rolling or paused release withdrawn, a link has ended
only with its release, a release that goes on is due again, and every poll is fair. -/
theorem links_settle {events : List (Event Input Answer)} {c : Config Board Call}
    (hmeets : appStore.Meets neverWithdrawnLate ⟨.new, []⟩ events)
    (hrun : appStore.run ⟨.new, []⟩ events = some c) : c.shared.Settled := by
  have hnew : Board.new.Sound := ⟨(fun _ h => by cases h), fun _ h => by cases h⟩
  exact (appStore_stable.run (.start hnew) hmeets hrun).shared.settled

/-! ## Runs on fixed answers -/

/-- App Store Connect with nothing but a processed build and one group. -/
def readyAnswers (group : AscBetaGroup) (external : Option Text) : AscAnswers where
  findAppId := .ok (some "app")
  findBuild := .ok (some ⟨"build", .valid, some false⟩)
  setExportCompliance := .ok ()
  betaDetail := .ok ⟨some "IN_BETA_TESTING", external⟩
  setBetaWhatsNew _ := .ok ()
  listBetaGroups := .ok [group]
  addBuildToGroups := .ok ()
  submitForBetaReview := .ok ()
  findOrCreateVersion := .error "unavailable"
  findVersion := .ok none
  findEditableVersion := .ok none
  attachBuildToVersion := .error "unavailable"
  setVersionWhatsNew _ := .error "unavailable"
  enablePhasedRelease := .error "unavailable"
  disablePhasedRelease := .error "unavailable"
  submitForReview := .error "unavailable"
  versionState := .error "unavailable"
  phasedRelease := .ok none
  setPhasedReleaseState := .error "unavailable"
  now := 0

def testers (isInternal : Bool) : AscBetaGroup := ⟨"group", "Testers", isInternal, false⟩

def testersUpload : Upload where
  pipelineId := "p1"
  buildId := "b1"
  bundleId := "dev.app"
  version := "1.0.0"
  buildNumber := "1"
  config := { enabled := true, testflightGroups := ["Testers"] }
  reported := ⟨"Testers", some ["Testers"]⟩

/-- The monitor's next statement. -/
def tick (asc : AscAnswers) (db : DbOutcome := .ok) : Event Input Answer :=
  .advance 0 ⟨asc, .ok (), db, []⟩

/-- An upload, and the pass in which an internal group gets its build. -/
def internalRun : List (Event Input Answer) :=
  [.enter (.upload testersUpload "r1" 0), .enter (.pass 0)] ++
    List.replicate 8 (tick (readyAnswers (testers true) none))

/-- The looks of a run see no release that is rolling or paused. -/
def looksEarly (c : Config Board Call) : Event Input Answer → Bool
  | .advance i _ => (c.calls[i]?).all fun
    | .monitor (.look current _ _) =>
      current.releaseState ≠ .rolling && current.releaseState ≠ .paused
    | _ => true
  | _ => true

theorem met_of_looksEarly (c : Config Board Call) (event : Event Input Answer)
    (h : looksEarly c event = true) : neverWithdrawnLate.Met c event := by
  cases event with
  | enter => exact ⟨trivial, fun _ _ => trivial⟩
  | advance i answer =>
    refine fun call hcall => ⟨?_, fun _ _ => trivial⟩
    rintro current again rest rfl -
    simpa [looksEarly, hcall] using h
  | drop => trivial
  | restart => trivial

theorem internalRun_settles : ∃ c, appStore.run ⟨.new, []⟩ internalRun = some c ∧
    c.shared.stageOf "r1" = some .done ∧ c.shared.stateOf "r1" = some .complete ∧
    c.shared.Settled := by
  have hrun : (appStore.run ⟨.new, []⟩ internalRun).any (fun c =>
      c.shared.stageOf "r1" = some .done && c.shared.stateOf "r1" = some .complete) = true := by
    decide +kernel
  obtain ⟨c, hc, hstate⟩ := Option.any_eq_true _ _ |>.mp hrun
  simp only [Bool.and_eq_true, decide_eq_true_eq] at hstate
  exact ⟨c, hc, hstate.1, hstate.2, links_settle
    (meets_of_checks _ met_of_looksEarly (by decide +kernel)) hc⟩

/-- A poll is cut off between the two changes that its approval asks for; the next one sees the
build expire, and the user resumes the release. -/
def expiredRun : List (Event Input Answer) :=
  let waiting := readyAnswers (testers false) none
  let approved := { readyAnswers (testers false) (some "BETA_APPROVED") with now := 300 }
  let expired := { readyAnswers (testers false) (some "EXPIRED") with now := 600 }
  [.enter (.upload testersUpload "r1" 0), .enter (.pass 0)] ++ List.replicate 7 (tick waiting) ++
  [.enter (.pass 300), tick approved, tick approved, tick approved,
    tick approved (.failsRead "database is locked"), tick approved, tick approved] ++
  [.enter (.pass 600)] ++ List.replicate 5 (tick expired) ++
  [.enter (.act "r1" .instanceAdmin .resume none), tick expired]

/-- The release is rolling again and its link has ended. -/
theorem resumed_release_not_polled : ¬ ∀ events c,
    appStore.run ⟨.new, []⟩ events = some c → c.shared.Settled := by
  intro hall
  have hrun : (appStore.run ⟨.new, []⟩ expiredRun).any (fun c =>
      c.shared.stageOf "r1" = some .done && c.shared.stateOf "r1" = some .rolling) = true := by
    decide +kernel
  obtain ⟨c, hc, hstate⟩ := Option.any_eq_true _ _ |>.mp hrun
  simp only [Bool.and_eq_true, decide_eq_true_eq] at hstate
  obtain ⟨link, hlink, hstage⟩ := Option.map_eq_some_iff.mp hstate.1
  obtain ⟨release, hrelease, hrolling⟩ := Option.map_eq_some_iff.mp hstate.2
  obtain ⟨release', hfind, hend⟩ :=
    (hall expiredRun c hc).done link (Table.mem_of_find hlink) hstage
  rw [Table.key_of_find hlink, hrelease, Option.some.injEq] at hfind
  rw [← hfind, hrolling] at hend
  rcases hend with h | h <;> cases h

end AppStore

end OoreBuild
