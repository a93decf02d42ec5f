import OoreBuild.JobLimits
import OoreBuild.JobHolders

/-!
# The runner claim barrier

An update holds back the runners' claims while it waits for the builds they run and replaces the
daemon. The daemon keeps a lease, and a trigger on `builds` aborts every claim while the lease is
live. The client holds the lease by a token: it renews it beside its work, asks which builds are
still held, and pauses the renewals for a planned outage of the daemon.

The barrier runs over the job table, with any statements of other calls in between. The clocks of
the daemon, its database and the client are one clock here.
-/

namespace OoreBuild

open Text Interleave

namespace ClaimBarrier

/-! ## The lease -/

def barrierLeaseSecs : ℤ := 300

/-- The row of `runner_service_transition_lease`. -/
structure Lease where
  token : Text
  expiresAt : ℤ
  deriving DecidableEq, Repr

/-- The condition of the trigger on `builds`. -/
def Lease.live (lease : Lease) (now : ℤ) : Bool := now ≤ lease.expiresAt

def acquireBarrier (lease : Option Lease) (token : Text) (now : ℤ) : Except Text Lease :=
  if lease.any (·.live now) then
    .error "another runner service transition is already in progress"
  else .ok ⟨token, now + barrierLeaseSecs⟩

def renewBarrier (lease : Option Lease) (token : Text) (now : ℤ) : Except Text Lease :=
  if lease.any fun lease => lease.token = token && lease.live now then
    .ok ⟨token, now + barrierLeaseSecs⟩
  else .error "runner service transition lease was lost"

/-- The lease goes, live or not. -/
def releaseBarrier (lease : Option Lease) (token : Text) : Except Text (Option Lease) :=
  if lease.any (·.token = token) then .ok none
  else .error "runner service transition lease was lost"

/-- A runner holds a build, or the runner if one is named. -/
def waitForWork (builds : Table Build.id) : Option Text → Bool
  | some runnerId => builds.rows.any fun row =>
      (row.runnerId = some runnerId && row.status.isHeld) ||
        (row.runnerId.isNone && row.status = .assigned)
  | none => builds.rows.any fun row => row.status.isHeld

/-! ## The client -/

def plannedOutageLimit : ℤ := 4 * 60

/-- `RunnerClaimBarrier`. The last two fields are not the client's: the claims there had been when
the barrier was acquired, and what the client waited for until nothing was held. -/
structure Handle where
  /-- The deadline of a planned outage. -/
  renewalPause : Option ℤ := none
  renewalFailure : Option Text := none
  /-- The renewal task has ended. -/
  isFinished : Bool := false
  released : Bool := false
  claimed : List Claim
  drained : List (Option Text) := []

def Handle.ensureRenewalTaskHealthy (handle : Handle) : Except Text Unit :=
  match handle.renewalFailure with
  | some error => .error error
  | none =>
    if handle.isFinished then .error "runner claim barrier renewal stopped unexpectedly" else .ok ()

/-- `ensure_healthy`: what the lease is after it. -/
def Handle.ensureHealthy (handle : Handle) (lease : Option Lease) (token : Text) (now : ℤ) :
    Except Text (Option Lease) := do
  handle.ensureRenewalTaskHealthy
  match handle.renewalPause with
  | some deadline =>
    if now ≤ deadline then return lease
    else throw ("the planned daemon outage exceeded the runner claim barrier safety window" : Text)
  | none => return some (← renewBarrier lease token now)

/-! ## The system -/

/-- The tables of the daemon, and the clients by the token of their barrier. -/
structure Site where
  jobs : JobStore
  lease : Option Lease := none
  /-- The latest time that anyone read. -/
  clock : ℤ
  /-- The tokens drawn so far. -/
  drawn : List Text := []
  handles : Text → Option Handle := fun _ => none

def Site.setHandle (s : Site) (token : Text) (handle : Handle) : Site :=
  { s with handles := Function.update s.handles token (some handle) }

inductive Input where
  /-- Any request to the job table; `clock` is what the trigger reads. -/
  | job (input : JobInput) (clock : ℤ)
  | acquire (token : Text) (now : ℤ)
  /-- The renewal task, which may not reach the daemon. -/
  | renewal (token : Text) (now : ℤ) (unreachable : Option Text)
  | ensureHealthy (token : Text) (now : ℤ)
  /-- The daemon renews at `now`, and its answer arrives at `answered`. -/
  | beginOutage (token : Text) (now answered : ℤ)
  | endOutage (token : Text) (now : ℤ)
  | wait (token : Text) (runnerId : Option Text) (now : ℤ)
  | release (token : Text) (now : ℤ)

/-- A call under way: the second statement of a wait and of a release is still to come. -/
inductive Call where
  | job (job : Job)
  | wait (token : Text) (runnerId : Option Text)
  | release (token : Text)

/-- The trigger aborts the statement, or the request is not one of its own. -/
def Site.refuses (s : Site) (clock : ℤ) : JobInput → Bool
  | .claim .. => s.lease.any (·.live clock)
  -- the drain is a part of `acquire_barrier`
  | .drain _ => true
  | _ => false

/-- A client takes the lease with a new token. -/
def Site.acquired (s : Site) (lease : Lease) (now : ℤ) : Site :=
  { s with lease := some lease, clock := now, drawn := lease.token :: s.drawn
           handles := Function.update s.handles lease.token
             (some { claimed := s.jobs.history.claims }) }

/-- The client of the token checks the barrier at `now`. -/
def Site.ensureHealthy (s : Site) (token : Text) (now : ℤ) : Option (Handle × Site) :=
  (s.handles token).bind fun handle =>
    match handle.ensureHealthy s.lease token now with
    | .error _ => none
    | .ok lease => some (handle, { s with lease, clock := now })

/-- The renewal task's turn. One that was under way when the renewals were paused still ends. -/
def Site.renewal (s : Site) (token : Text) (now : ℤ) (unreachable : Option Text) : Option Site :=
  (s.handles token).bind fun handle =>
    if handle.isFinished then none
    else
      let answer : Except Text Lease := match unreachable with
        | some error => .error error
        | none => renewBarrier s.lease token now
      match answer with
      | .ok lease => some { s with lease := some lease, clock := now }
      | .error error => some ({ s with clock := now }.setHandle token { handle with
          renewalFailure := some ("runner claim barrier renewal failed: " ++ error)
          isFinished := true })

/-- `begin_planned_daemon_outage`. -/
def Site.beginOutage (s : Site) (token : Text) (now answered : ℤ) : Option Site :=
  (s.ensureHealthy token now).map fun (handle, s') =>
    match handle.renewalPause with
    | some _ => s'
    | none => s'.setHandle token
        { handle with renewalPause := some (answered + plannedOutageLimit) }

/-- `end_planned_daemon_outage`; it fails after its deadline, with the same effects. -/
def Site.endOutage (s : Site) (token : Text) (now : ℤ) : Option Site :=
  (s.handles token).bind fun handle =>
    if handle.renewalPause.isNone then none
    else
      match renewBarrier s.lease token now with
      | .error _ => none
      | .ok lease => some ({ s with lease := some lease, clock := now }.setHandle token
          { handle with renewalPause := none })

def enter (s : Site) : Input → Option (Site × List Call)
  | .job input clock =>
    if s.refuses clock input then none
    else (enterJob s.jobs input).map fun r => ({ s with jobs := r.1, clock }, r.2.map .job)
  | .acquire token now =>
    if token ∈ s.drawn then none
    else
      match acquireBarrier s.lease token now with
      | .error _ => none
      | .ok lease => (enterJob s.jobs (.drain now)).map fun r =>
          ({ s.acquired lease now with jobs := r.1 }, [])
  | .renewal token now unreachable => (s.renewal token now unreachable).map (·, [])
  | .ensureHealthy token now => (s.ensureHealthy token now).map fun r => (r.2, [])
  | .beginOutage token now answered => (s.beginOutage token now answered).map (·, [])
  | .endOutage token now => (s.endOutage token now).map (·, [])
  | .wait token runnerId now =>
    match renewBarrier s.lease token now with
    | .error _ => none
    | .ok lease => some ({ s with lease := some lease, clock := now }, [.wait token runnerId])
  | .release token now =>
    (s.ensureHealthy token now).bind fun (handle, s') =>
      if handle.released || handle.renewalPause.isSome then none else some (s', [.release token])

/-- The next statement of a call. -/
def advance (s : Site) (call : Call) (answer : JobAnswer) : Site × Option Call :=
  match call with
  | .job job =>
    let r := advanceJob s.jobs job answer
    ({ s with jobs := r.1 }, r.2.map .job)
  | .wait token runnerId =>
    match s.handles token with
    | none => (s, none)
    | some handle =>
      if waitForWork s.jobs.db.builds runnerId then (s, none)
      else (s.setHandle token { handle with drained := runnerId :: handle.drained }, none)
  | .release token =>
    match s.handles token, releaseBarrier s.lease token with
    | some handle, .ok lease =>
      ({ s with lease }.setHandle token { handle with released := true, isFinished := true }, none)
    | _, _ => (s, none)

/-- Leases and clients outlive the daemon's process. -/
def barrier : Interleave Site Call Input JobAnswer where
  enter := enter
  advance s call answer := some (advance s call answer)
  drop s _ := s
  restart s := s

/-! ## The clients' side of the protocol -/

/-- The time that is read with an input. -/
def Input.clock : Input → ℤ
  | .job _ clock => clock
  | .acquire _ now | .renewal _ now _ | .ensureHealthy _ now | .beginOutage _ now _ |
    .endOutage _ now | .wait _ _ now | .release _ now => now

/-- The client that makes the request; its renewal task works beside it. -/
def Input.client : Input → Option Text
  | .ensureHealthy token _ | .beginOutage token _ _ | .endOutage token _ | .wait token _ _ |
    .release token _ => some token
  | _ => none

def Call.client : Call → Option Text
  | .job _ => none
  | .wait token _ | .release token => some token

/-- The answer that opens an outage takes a minute at most. -/
def Input.isPrompt : Input → Bool
  | .beginOutage _ now answered => answered ≤ now + 60
  | _ => true

/-- The clock goes forward, and a client awaits each answer before it makes a request. -/
def orderly : Condition Site Call Input JobAnswer where
  enter s input := s.clock ≤ input.clock ∧ input.isPrompt = true
  enterBeside _ input call := ∀ token, input.client = some token → call.client ≠ some token
  advance _ _ _ := True
  advanceBeside _ _ _ _ := True

/-! ## Builds that no runner holds -/

theorem waitForWork_eq_false {builds : Table Build.id} {runnerId : Option Text} :
    waitForWork builds runnerId = false ↔ ∀ row ∈ builds.rows, row.status.isHeld = true →
      (runnerId.all fun runnerId => row.runnerId = some runnerId ||
        (row.runnerId.isNone && row.status = .assigned)) = false := by
  cases runnerId with
  | none => simp [waitForWork]
  | some runnerId =>
    unfold waitForWork
    rw [List.any_eq_false]
    refine forall₂_congr fun row _ => ?_
    by_cases hheld : row.status.isHeld = true
    · simp [hheld]
    · have hassigned : row.status ≠ .assigned := fun h => hheld (h ▸ rfl)
      simp [hheld, hassigned]

/-- Only a claim gives a build to a runner. -/
theorem slots_of_claims {s s' : JobStore} (h : Step s s')
    (hclaims : s'.history.claims = s.history.claims) : SlotsKept s s' [] := by
  intro row' hmem hactive _
  rcases h.row (Table.find_of_mem hmem) with ⟨row, hrow, hto⟩ | ⟨binds, rfl, -⟩
  · have hslot := hto.active hactive fun runnerId hash now hclaim => by
      obtain ⟨_, _, -, -, -, -, -, -, -, hhistory⟩ := claim_eq_some hclaim
      rw [hhistory] at hclaims
      exact absurd hclaims (by simp)
    exact ⟨row, Table.mem_of_find hrow, Table.key_of_find hrow, hslot⟩
  · cases hactive

/-- What no runner holds stays so until the next claim. -/
theorem waitForWork_step {s s' : JobStore} (hholders : HoldersOk s) (h : Step s s')
    (hclaims : s'.history.claims = s.history.claims) {runnerId : Option Text}
    (hidle : waitForWork s.db.builds runnerId = false) :
    waitForWork s'.db.builds runnerId = false := by
  rw [waitForWork_eq_false] at hidle ⊢
  intro row' hmem hheld'
  obtain ⟨row, hrow, -, hactive, hheld, -, hrunner⟩ :=
    slots_of_claims h hclaims row' hmem (isActive_of_isHeld hheld') List.not_mem_nil
  have hbefore := hidle row hrow (hheld hheld')
  have hsome := hholders.held row hrow hactive
  cases runnerId with
  | none => cases hbefore
  | some runnerId =>
    rw [← hrunner]
    rw [Option.isSome_iff_exists] at hsome
    obtain ⟨holder, hholder⟩ := hsome
    simpa [hholder] using hbefore

/-! ## Leases -/

/-- The client of the token holds the lease. -/
def Site.Holds (s : Site) (token : Text) (now : ℤ) : Prop :=
  ∃ lease, s.lease = some lease ∧ lease.token = token ∧ now ≤ lease.expiresAt

theorem Site.Holds.mono {s : Site} {token : Text} {now earlier : ℤ} (h : s.Holds token now)
    (hle : earlier ≤ now) : s.Holds token earlier := by
  obtain ⟨lease, hlease, htoken, hnow⟩ := h
  exact ⟨lease, hlease, htoken, hle.trans hnow⟩

theorem Site.Holds.unique {s : Site} {token other : Text} {now now' : ℤ} (h : s.Holds token now)
    (h' : s.Holds other now') : other = token := by
  obtain ⟨lease, hlease, rfl, -⟩ := h
  obtain ⟨lease', hlease', rfl, -⟩ := h'
  rw [hlease] at hlease'
  cases hlease'
  rfl

theorem renewBarrier_eq_ok {s : Site} {token : Text} {now : ℤ} {lease : Lease}
    (h : renewBarrier s.lease token now = .ok lease) :
    s.Holds token now ∧ lease = ⟨token, now + barrierLeaseSecs⟩ := by
  unfold renewBarrier at h
  split_ifs at h with hheld
  cases h
  rw [Option.any_eq_true] at hheld
  obtain ⟨old, hold, hheld⟩ := hheld
  rw [Bool.and_eq_true, decide_eq_true_eq] at hheld
  exact ⟨⟨old, hold, hheld.1, of_decide_eq_true hheld.2⟩, rfl⟩

/-- A check renews the lease, or only looks at the deadline of an outage. -/
theorem ensureHealthy_eq_some {s s' : Site} {token : Text} {now : ℤ} {handle : Handle}
    (h : s.ensureHealthy token now = some (handle, s')) : s.handles token = some handle ∧
      ((∃ deadline, handle.renewalPause = some deadline ∧ now ≤ deadline ∧
          s' = { s with clock := now }) ∨
        handle.renewalPause = none ∧ s.Holds token now ∧
          s' = { s with lease := some ⟨token, now + barrierLeaseSecs⟩, clock := now }) := by
  obtain ⟨found, hfound, h⟩ := Option.bind_eq_some_iff.mp h
  split at h
  · cases h
  · rename_i lease hcheck
    cases h
    refine ⟨hfound, ?_⟩
    unfold Handle.ensureHealthy at hcheck
    obtain ⟨_, -, hcheck⟩ := bind_eq_ok.mp hcheck
    split at hcheck
    · rename_i deadline hpause
      split_ifs at hcheck with hnow
      · cases hcheck
        exact Or.inl ⟨deadline, hpause, hnow, rfl⟩
    · rename_i hpause
      obtain ⟨renewed, hrenew, hcheck⟩ := bind_eq_ok.mp hcheck
      cases hcheck
      obtain ⟨hholds, rfl⟩ := renewBarrier_eq_ok hrenew
      exact Or.inr ⟨hpause, hholds, rfl⟩

theorem handles_ensureHealthy {s s' : Site} {token : Text} {now : ℤ} {handle : Handle}
    (h : s.ensureHealthy token now = some (handle, s')) : s'.handles = s.handles := by
  obtain ⟨-, ⟨_, -, -, rfl⟩ | ⟨-, -, rfl⟩⟩ := ensureHealthy_eq_some h
  · rfl
  · rfl

/-! ## What every statement keeps -/

/-- There was no claim since the barrier was acquired, and what the client waited for is not
held. -/
structure Quiet (jobs : JobStore) (handle : Handle) : Prop where
  claims : jobs.history.claims = handle.claimed
  drained : ∀ runnerId ∈ handle.drained, waitForWork jobs.db.builds runnerId = false

/-- A live lease keeps what its client knows, and outlives an outage that the client planned. -/
structure Kept (s : Site) : Prop where
  holders : HoldersOk s.jobs
  lease : ∀ lease, s.lease = some lease →
    lease.token ∈ s.drawn ∧ lease.expiresAt ≤ s.clock + barrierLeaseSecs
  handles : ∀ token handle, s.handles token = some handle → token ∈ s.drawn
  quiet : ∀ token handle, s.handles token = some handle → s.Holds token s.clock →
    Quiet s.jobs handle
  outage : ∀ token handle deadline, s.handles token = some handle →
    handle.renewalPause = some deadline → s.clock ≤ deadline → s.Holds token deadline

/-- A lease that is live in the later state was so in the earlier one, and what the calls on the
job table know still holds. -/
structure Follows (s s' : Site) : Prop where
  drawn : s.drawn ⊆ s'.drawn
  clock : s.clock ≤ s'.clock
  holds : ∀ token ∈ s.drawn, s'.Holds token s'.clock → s.Holds token s.clock
  sound : ∀ job : Job, job.Sound s.jobs → job.Sound s'.jobs

theorem follows_refl (s : Site) : Follows s s :=
  ⟨List.Subset.refl _, le_rfl, fun _ _ h => h, fun _ h => h⟩

theorem Follows.trans {s mid s' : Site} (h : Follows s mid) (h' : Follows mid s') :
    Follows s s' where
  drawn := List.Subset.trans h.drawn h'.drawn
  clock := h.clock.trans h'.clock
  holds token hdrawn hholds := h.holds token hdrawn (h'.holds token (h.drawn hdrawn) hholds)
  sound job hjob := h'.sound job (h.sound job hjob)

theorem Follows.work {s s' : Site} (h : Follows s s') {jobs : JobStore}
    (hstep : Step s'.jobs jobs) :
    Follows s { s' with jobs } :=
  ⟨h.drawn, h.clock, h.holds, fun job hjob => (h.sound job hjob).step hstep⟩

theorem Follows.setHandle {s s' : Site} (h : Follows s s') (token : Text) (handle : Handle) :
    Follows s (s'.setHandle token handle) := ⟨h.drawn, h.clock, h.holds, h.sound⟩

theorem handles_setHandle {s : Site} {token other : Text} {handle found : Handle}
    (h : (s.setHandle token handle).handles other = some found) :
    other = token ∧ found = handle ∨ s.handles other = some found := by
  by_cases heq : other = token
  · subst heq
    rw [show (s.setHandle other handle).handles other = some handle from
      Function.update_self ..] at h
    cases h
    exact Or.inl ⟨rfl, rfl⟩
  · exact Or.inr ((Function.update_of_ne heq ..).symm.trans h)

section Steps

variable {s : Site} {token : Text} {now : ℤ}

theorem Kept.tick (h : Kept s) (hclock : s.clock ≤ now) :
    Kept { s with clock := now } ∧ Follows s { s with clock := now } := by
  refine ⟨⟨h.holders, fun lease hlease => ?_, h.handles, fun token handle hhandle hholds => ?_,
    fun token handle deadline hhandle hpause hle => ?_⟩, List.Subset.refl _, hclock, ?_,
    fun _ h => h⟩
  · obtain ⟨hdrawn, hexpires⟩ := h.lease lease hlease
    exact ⟨hdrawn, hexpires.trans (Int.add_le_add_right hclock _)⟩
  · exact h.quiet token handle hhandle (Site.Holds.mono (s := s) hholds hclock)
  · exact h.outage token handle deadline hhandle hpause (hclock.trans hle)
  · exact fun token _ hholds => Site.Holds.mono (s := s) hholds hclock

/-- A statement on the job table that claims nothing, or that no live lease stands against. -/
theorem Kept.work (h : Kept s) {jobs : JobStore} (hstep : Step s.jobs jobs)
    (hclaims : jobs.history.claims = s.jobs.history.claims ∨ ∀ token, ¬ s.Holds token s.clock) :
    Kept { s with jobs } := by
  refine ⟨h.holders.step hstep, h.lease, h.handles, fun token handle hhandle hholds => ?_,
    h.outage⟩
  have hsame := hclaims.resolve_right fun hnone => hnone token hholds
  obtain ⟨hclaimed, hdrained⟩ := h.quiet token handle hhandle hholds
  exact ⟨hsame.trans hclaimed, fun runnerId hmem =>
    waitForWork_step h.holders hstep hsame (hdrained runnerId hmem)⟩

/-- The lease after a renewal. -/
def Site.renewed (s : Site) (token : Text) (now : ℤ) : Site :=
  { s with lease := some ⟨token, now + barrierLeaseSecs⟩, clock := now }

theorem holds_renewed {other : Text} {deadline : ℤ} :
    (s.renewed token now).Holds other deadline ↔
      other = token ∧ deadline ≤ now + barrierLeaseSecs := by
  constructor
  · rintro ⟨lease, hlease, rfl, hle⟩
    cases hlease
    exact ⟨rfl, hle⟩
  · rintro ⟨rfl, hle⟩
    exact ⟨_, rfl, rfl, hle⟩

theorem Kept.renewed (h : Kept s) (hclock : s.clock ≤ now) (hholds : s.Holds token now) :
    Kept (s.renewed token now) ∧ Follows s (s.renewed token now) := by
  obtain ⟨lease, hlease, rfl, hlive⟩ := hholds
  have hholds : s.Holds lease.token now := ⟨lease, hlease, rfl, hlive⟩
  refine ⟨⟨h.holders, ?_, h.handles, fun other handle hhandle hother => ?_,
    fun other handle deadline hhandle hpause hle => ?_⟩, List.Subset.refl _, hclock, ?_,
    fun _ h => h⟩
  · intro lease' hlease'
    cases hlease'
    exact ⟨(h.lease lease hlease).1, le_rfl⟩
  · obtain ⟨rfl, -⟩ := holds_renewed.mp hother
    exact h.quiet _ handle hhandle (hholds.mono hclock)
  · -- the lease outlived the outage before, and a renewal never shortens it
    have hbefore := h.outage other handle deadline hhandle hpause (hclock.trans hle)
    obtain rfl := hholds.unique hbefore
    obtain ⟨lease', hlease', -, hdeadline⟩ := hbefore
    obtain ⟨-, hexpires⟩ := h.lease lease' hlease'
    refine holds_renewed.mpr ⟨rfl, ?_⟩
    linarith
  · intro other _ hother
    obtain ⟨rfl, -⟩ := holds_renewed.mp hother
    exact hholds.mono hclock

/-- A client learns that something is not held, and changes its deadline to one before which its
lease does not expire. -/
theorem Kept.setHandle (h : Kept s) {old handle : Handle} (hold : s.handles token = some old)
    (hclaimed : handle.claimed = old.claimed)
    (hdrained : ∀ runnerId ∈ handle.drained, runnerId ∈ old.drained ∨
      waitForWork s.jobs.db.builds runnerId = false)
    (hpause : ∀ deadline, handle.renewalPause = some deadline → s.clock ≤ deadline →
      s.Holds token deadline) : Kept (s.setHandle token handle) := by
  have hdrawn := h.handles token old hold
  refine ⟨h.holders, h.lease, fun other found hother => ?_, fun other found hother hholds => ?_,
    fun other found deadline hother hdeadline hle => ?_⟩
  · rcases handles_setHandle hother with ⟨rfl, -⟩ | hother
    · exact hdrawn
    · exact h.handles other found hother
  · rcases handles_setHandle hother with ⟨rfl, rfl⟩ | hother
    · have hquiet := h.quiet other old hold hholds
      exact ⟨hquiet.claims.trans hclaimed.symm, fun runnerId hmem =>
        (hdrained runnerId hmem).elim (hquiet.drained runnerId) id⟩
    · exact h.quiet other found hother hholds
  · rcases handles_setHandle hother with ⟨rfl, rfl⟩ | hother
    · exact hpause deadline hdeadline hle
    · exact h.outage other found deadline hother hdeadline hle

theorem Kept.acquired (h : Kept s) (hclock : s.clock ≤ now) (hfresh : token ∉ s.drawn)
    (hfree : ∀ other, ¬ s.Holds other now) :
    Kept (s.acquired ⟨token, now + barrierLeaseSecs⟩ now) ∧
      Follows s (s.acquired ⟨token, now + barrierLeaseSecs⟩ now) := by
  have hfound : ∀ other found,
      (s.acquired ⟨token, now + barrierLeaseSecs⟩ now).handles other = some found →
        other = token ∧ found = { claimed := s.jobs.history.claims } ∨
          s.handles other = some found := by
    intro other found hother
    by_cases heq : other = token
    · subst heq
      rw [show (s.acquired ⟨other, _⟩ now).handles other = _ from Function.update_self ..] at hother
      cases hother
      exact Or.inl ⟨rfl, rfl⟩
    · exact Or.inr ((Function.update_of_ne heq ..).symm.trans hother)
  refine ⟨⟨h.holders, ?_, fun other found hother => ?_, fun other found hother hholds => ?_,
    fun other found deadline hother hpause hle => ?_⟩, List.subset_cons_self _ _, hclock,
    fun other hdrawn hholds => ?_, fun _ h => h⟩
  · intro lease hlease
    cases hlease
    exact ⟨List.mem_cons_self, le_rfl⟩
  · rcases hfound other found hother with ⟨rfl, -⟩ | hother
    · exact List.mem_cons_self
    · exact List.mem_cons_of_mem _ (h.handles other found hother)
  · rcases hfound other found hother with ⟨-, rfl⟩ | hknown
    · exact ⟨rfl, nofun⟩
    · obtain ⟨rfl, -⟩ := (holds_renewed (s := s)).mp hholds
      exact (hfresh (h.handles _ found hknown)).elim
  · rcases hfound other found hother with ⟨-, rfl⟩ | hother
    · cases hpause
    · have hbefore := h.outage other found deadline hother hpause (hclock.trans hle)
      exact (hfree other (hbefore.mono hle)).elim
  · obtain ⟨rfl, -⟩ := (holds_renewed (s := s)).mp hholds
    exact (hfresh hdrawn).elim

/-- A client that is in no outage gives its lease back. -/
theorem Kept.release (h : Kept s) {lease : Option Lease}
    (hrelease : releaseBarrier s.lease token = .ok lease)
    (hrunning : ∀ handle, s.handles token = some handle → handle.renewalPause = none) :
    Kept { s with lease } ∧ Follows s { s with lease } := by
  unfold releaseBarrier at hrelease
  split_ifs at hrelease with hheld
  cases hrelease
  obtain ⟨held, hlease, htoken⟩ := (Option.any_eq_true ..).mp hheld
  have htoken : held.token = token := of_decide_eq_true htoken
  refine ⟨⟨h.holders, nofun, h.handles, ?_, fun other handle deadline hhandle hpause hle => ?_⟩,
    List.Subset.refl _, le_rfl, ?_, fun _ h => h⟩
  · rintro other handle - ⟨_, hnone, -⟩
    cases hnone
  · obtain ⟨lease, hlease', hother, -⟩ := h.outage other handle deadline hhandle hpause hle
    rw [hlease] at hlease'
    cases hlease'
    have hnone := hrunning handle (htoken ▸ hother ▸ hhandle)
    rw [hpause] at hnone
    cases hnone
  · rintro other - ⟨_, hnone, -⟩
    cases hnone

theorem Kept.ensureHealthy (h : Kept s) (hclock : s.clock ≤ now) {handle : Handle} {s' : Site}
    (hcheck : s.ensureHealthy token now = some (handle, s')) : Kept s' ∧ Follows s s' := by
  obtain ⟨-, ⟨deadline, -, -, rfl⟩ | ⟨-, hholds, rfl⟩⟩ := ensureHealthy_eq_some hcheck
  · exact h.tick hclock
  · exact h.renewed hclock hholds

/-- A client whose check succeeds holds the lease. -/
theorem Kept.holds_of_healthy (h : Kept s) (hclock : s.clock ≤ now) {handle : Handle} {s' : Site}
    (hcheck : s.ensureHealthy token now = some (handle, s')) : s.Holds token now := by
  obtain ⟨hhandle, ⟨deadline, hpause, hle, -⟩ | ⟨-, hholds, -⟩⟩ := ensureHealthy_eq_some hcheck
  · exact (h.outage token handle deadline hhandle hpause (hclock.trans hle)).mono hle
  · exact hholds

theorem Kept.renewal (h : Kept s) (hclock : s.clock ≤ now) {unreachable : Option Text} {s' : Site}
    (hrenewal : s.renewal token now unreachable = some s') : Kept s' ∧ Follows s s' := by
  obtain ⟨handle, hhandle, hrenewal⟩ := Option.bind_eq_some_iff.mp hrenewal
  split_ifs at hrenewal
  cases unreachable with
  | none =>
    cases hrenew : renewBarrier s.lease token now with
    | ok lease =>
      rw [hrenew] at hrenewal
      cases hrenewal
      obtain ⟨hholds, rfl⟩ := renewBarrier_eq_ok hrenew
      exact h.renewed hclock hholds
    | error error =>
      rw [hrenew] at hrenewal
      cases hrenewal
      obtain ⟨hkept, hfollows⟩ := h.tick hclock
      exact ⟨hkept.setHandle hhandle rfl (fun _ => Or.inl)
        (hkept.outage token handle · hhandle), hfollows.setHandle _ _⟩
  | some error =>
    cases hrenewal
    obtain ⟨hkept, hfollows⟩ := h.tick hclock
    exact ⟨hkept.setHandle hhandle rfl (fun _ => Or.inl)
      (hkept.outage token handle · hhandle), hfollows.setHandle _ _⟩

theorem Kept.beginOutage (h : Kept s) (hclock : s.clock ≤ now) {answered : ℤ}
    (hprompt : answered ≤ now + 60) {s' : Site}
    (hbegin : s.beginOutage token now answered = some s') : Kept s' ∧ Follows s s' := by
  obtain ⟨⟨handle, mid⟩, hcheck, rfl⟩ := Option.map_eq_some_iff.mp hbegin
  obtain ⟨hkept, hfollows⟩ := h.ensureHealthy hclock hcheck
  obtain ⟨hhandle, ⟨deadline, hpause, -, -⟩ | ⟨hpause, -, rfl⟩⟩ := ensureHealthy_eq_some hcheck
  · simp only [hpause]
    exact ⟨hkept, hfollows⟩
  · simp only [hpause]
    refine ⟨hkept.setHandle hhandle rfl (fun _ => Or.inl) ?_, hfollows.setHandle _ _⟩
    -- the outage and the delay of the answer fit into the lease
    intro deadline hdeadline _
    cases hdeadline
    refine holds_renewed.mpr ⟨rfl, ?_⟩
    unfold plannedOutageLimit barrierLeaseSecs
    linarith

theorem Kept.endOutage (h : Kept s) (hclock : s.clock ≤ now) {s' : Site}
    (hend : s.endOutage token now = some s') : Kept s' ∧ Follows s s' := by
  obtain ⟨handle, hhandle, hend⟩ := Option.bind_eq_some_iff.mp hend
  split_ifs at hend
  split at hend
  · cases hend
  · rename_i lease hrenew
    cases hend
    obtain ⟨hholds, rfl⟩ := renewBarrier_eq_ok hrenew
    obtain ⟨hkept, hfollows⟩ := h.renewed hclock hholds
    exact ⟨hkept.setHandle hhandle rfl (fun _ => Or.inl) nofun, hfollows.setHandle _ _⟩

end Steps

/-! ## Runs -/

theorem claims_of_enterJob {s : Site} {clock : ℤ} {input : JobInput} {jobs' : JobStore}
    {calls : List Job} (hrefuses : ¬ s.refuses clock input = true)
    (henter : enterJob s.jobs input = some (jobs', calls)) :
    jobs'.history.claims = s.jobs.history.claims ∨ ∀ token, ¬ s.Holds token clock := by
  obtain ⟨claims, changes, uploads, hhistory, hclaims⟩ := history_of_enter henter
  rw [hhistory]
  rcases hclaims with hsame | ⟨buildId, runnerId, hash, now, claim, rfl, -, -⟩
  · exact Or.inl hsame
  · refine Or.inr fun token hholds => hrefuses ?_
    obtain ⟨lease, hlease, -, hlive⟩ := hholds
    exact (Option.any_eq_true ..).mpr ⟨lease, hlease, decide_eq_true hlive⟩

theorem kept_enter {s s' : Site} {input : Input} {calls : List Call} (h : Kept s)
    (hclock : s.clock ≤ input.clock) (hprompt : input.isPrompt = true)
    (henter : enter s input = some (s', calls)) : Kept s' ∧ Follows s s' := by
  cases input with
  | job input clock =>
    simp only [enter] at henter
    split_ifs at henter with hrefuses
    obtain ⟨⟨jobs', jobCalls⟩, hjobs, heq⟩ := Option.map_eq_some_iff.mp henter
    cases heq
    obtain ⟨hkept, hfollows⟩ := h.tick hclock
    exact ⟨hkept.work (step_of_enter hjobs) (claims_of_enterJob hrefuses hjobs),
      hfollows.work (step_of_enter hjobs)⟩
  | acquire token now =>
    simp only [enter] at henter
    split_ifs at henter with hdrawn
    split at henter
    · cases henter
    · rename_i lease hacquire
      obtain ⟨⟨jobs', jobCalls⟩, hjobs, heq⟩ := Option.map_eq_some_iff.mp henter
      cases heq
      have hdrain : jobs.enter s.jobs (.drain now) = some (jobs', jobCalls) := hjobs
      unfold acquireBarrier at hacquire
      split_ifs at hacquire with hlive
      cases hacquire
      have hfree : ∀ other, ¬ s.Holds other now := fun other hholds => hlive <| by
        obtain ⟨lease, hlease, -, hle⟩ := hholds
        exact (Option.any_eq_true ..).mpr ⟨lease, hlease, decide_eq_true hle⟩
      obtain ⟨hkept, hfollows⟩ := h.acquired hclock hdrawn hfree
      refine ⟨hkept.work (step_of_enter hdrain) (Or.inl ?_), hfollows.work (step_of_enter hdrain)⟩
      obtain ⟨claims, changes, uploads, hhistory, hclaims⟩ := history_of_enter hdrain
      rw [hhistory]
      exact hclaims.resolve_right (by rintro ⟨_, _, _, _, _, hclaim, -⟩; cases hclaim)
  | renewal token now unreachable =>
    obtain ⟨_, hrenewal, heq⟩ := Option.map_eq_some_iff.mp henter
    cases heq
    exact h.renewal hclock hrenewal
  | ensureHealthy token now =>
    obtain ⟨_, hcheck, heq⟩ := Option.map_eq_some_iff.mp henter
    cases heq
    exact h.ensureHealthy hclock hcheck
  | beginOutage token now answered =>
    obtain ⟨_, hbegin, heq⟩ := Option.map_eq_some_iff.mp henter
    cases heq
    exact h.beginOutage hclock (of_decide_eq_true hprompt) hbegin
  | endOutage token now =>
    obtain ⟨_, hend, heq⟩ := Option.map_eq_some_iff.mp henter
    cases heq
    exact h.endOutage hclock hend
  | wait token runnerId now =>
    simp only [enter] at henter
    split at henter
    · cases henter
    · rename_i lease hrenew
      cases henter
      obtain ⟨hholds, rfl⟩ := renewBarrier_eq_ok hrenew
      exact h.renewed hclock hholds
  | release token now =>
    obtain ⟨⟨handle, mid⟩, hcheck, hrelease⟩ := Option.bind_eq_some_iff.mp henter
    dsimp only at hrelease
    split_ifs at hrelease
    cases hrelease
    exact h.ensureHealthy hclock hcheck

/-- What the calls under way know: a client that releases its barrier is in no outage. -/
def Call.Sound (s : Site) : Call → Prop
  | .job task => task.Sound s.jobs
  | .wait _ _ => True
  | .release token => ∀ handle, s.handles token = some handle → handle.renewalPause = none

theorem kept_advance {s s' : Site} {call : Call} {call' : Option Call} {answer : JobAnswer}
    (h : Kept s) (hsound : call.Sound s) (hadvance : advance s call answer = (s', call')) :
    Kept s' ∧ Follows s s' := by
  cases call with
  | job job =>
    cases hadvance
    have hstep : Step s.jobs (advanceJob s.jobs job answer).1 := step_of_advance hsound rfl
    exact ⟨h.work hstep (Or.inl (claims_of_advance rfl)), (follows_refl s).work hstep⟩
  | wait token runnerId =>
    simp only [advance] at hadvance
    split at hadvance
    · cases hadvance
      exact ⟨h, follows_refl s⟩
    · rename_i handle hhandle
      split at hadvance
      · cases hadvance
        exact ⟨h, follows_refl s⟩
      · rename_i hidle
        cases hadvance
        refine ⟨h.setHandle hhandle rfl (fun other hmem => ?_) (h.outage token handle · hhandle),
          (follows_refl s).setHandle _ _⟩
        rcases List.mem_cons.mp hmem with rfl | hold
        · exact Or.inr (Bool.eq_false_iff.mpr hidle)
        · exact Or.inl hold
  | release token =>
    simp only [advance] at hadvance
    split at hadvance
    · rename_i handle lease hhandle hrelease
      cases hadvance
      obtain ⟨hkept, hfollows⟩ := h.release hrelease hsound
      exact ⟨hkept.setHandle hhandle rfl (fun _ => Or.inl)
        (hkept.outage token handle · hhandle), hfollows.setHandle _ _⟩
    · cases hadvance
      exact ⟨h, follows_refl s⟩

/-- Only its client plans an outage of a barrier. -/
theorem pause_of_enter {s s' : Site} {input : Input} {calls : List Call}
    (henter : enter s input = some (s', calls)) {token : Text} (hclient : input.client ≠ some token)
    {handle' : Handle} (hhandle' : s'.handles token = some handle') :
    handle'.renewalPause = none ∨ ∃ handle, s.handles token = some handle ∧
      handle.renewalPause = handle'.renewalPause := by
  cases input with
  | job input clock =>
    simp only [enter] at henter
    split_ifs at henter
    obtain ⟨_, -, heq⟩ := Option.map_eq_some_iff.mp henter
    cases heq
    exact Or.inr ⟨handle', hhandle', rfl⟩
  | acquire other now =>
    simp only [enter] at henter
    split_ifs at henter
    split at henter
    · cases henter
    · rename_i lease hacquire
      obtain ⟨_, -, heq⟩ := Option.map_eq_some_iff.mp henter
      cases heq
      by_cases heq : token = lease.token
      · subst heq
        rw [show (s.acquired lease now).handles lease.token = _ from Function.update_self ..]
          at hhandle'
        cases hhandle'
        exact Or.inl rfl
      · exact Or.inr ⟨handle', (Function.update_of_ne heq ..).symm.trans hhandle', rfl⟩
  | renewal other now unreachable =>
    obtain ⟨_, hrenewal, heq⟩ := Option.map_eq_some_iff.mp henter
    cases heq
    obtain ⟨handle, hhandle, hrenewal⟩ := Option.bind_eq_some_iff.mp hrenewal
    split_ifs at hrenewal
    dsimp only at hrenewal
    split at hrenewal <;> cases hrenewal
    · exact Or.inr ⟨handle', hhandle', rfl⟩
    · rcases handles_setHandle hhandle' with ⟨rfl, rfl⟩ | hhandle'
      · exact Or.inr ⟨handle, hhandle, rfl⟩
      · exact Or.inr ⟨handle', hhandle', rfl⟩
  | wait other runnerId now =>
    simp only [enter] at henter
    split at henter <;> cases henter
    exact Or.inr ⟨handle', hhandle', rfl⟩
  | ensureHealthy other now =>
    obtain ⟨⟨handle, mid⟩, hcheck, heq⟩ := Option.map_eq_some_iff.mp henter
    cases heq
    exact Or.inr ⟨handle', handles_ensureHealthy hcheck ▸ hhandle', rfl⟩
  | beginOutage other now answered =>
    obtain ⟨_, hbegin, heq⟩ := Option.map_eq_some_iff.mp henter
    cases heq
    obtain ⟨⟨handle, mid⟩, hcheck, rfl⟩ := Option.map_eq_some_iff.mp hbegin
    rw [← handles_ensureHealthy hcheck]
    dsimp only at hhandle'
    split at hhandle'
    · exact Or.inr ⟨handle', hhandle', rfl⟩
    · rcases handles_setHandle hhandle' with ⟨rfl, -⟩ | hhandle'
      · exact (hclient rfl).elim
      · exact Or.inr ⟨handle', hhandle', rfl⟩
  | endOutage other now =>
    obtain ⟨_, hend, heq⟩ := Option.map_eq_some_iff.mp henter
    cases heq
    obtain ⟨handle, hhandle, hend⟩ := Option.bind_eq_some_iff.mp hend
    split_ifs at hend
    split at hend <;> cases hend
    rcases handles_setHandle hhandle' with ⟨rfl, -⟩ | hhandle'
    · exact (hclient rfl).elim
    · exact Or.inr ⟨handle', hhandle', rfl⟩
  | release other now =>
    obtain ⟨⟨handle, mid⟩, hcheck, hrelease⟩ := Option.bind_eq_some_iff.mp henter
    dsimp only at hrelease
    split_ifs at hrelease
    cases hrelease
    exact Or.inr ⟨handle', handles_ensureHealthy hcheck ▸ hhandle', rfl⟩

/-- No answer to a call changes an outage. -/
theorem pause_of_advance {s s' : Site} {call : Call} {call' : Option Call} {answer : JobAnswer}
    (hadvance : advance s call answer = (s', call')) {token : Text} {handle' : Handle}
    (hhandle' : s'.handles token = some handle') :
    ∃ handle, s.handles token = some handle ∧ handle.renewalPause = handle'.renewalPause := by
  cases call with
  | job job =>
    cases hadvance
    exact ⟨handle', hhandle', rfl⟩
  | wait other runnerId =>
    simp only [advance] at hadvance
    split at hadvance
    · cases hadvance
      exact ⟨handle', hhandle', rfl⟩
    · rename_i handle hhandle
      split at hadvance <;> cases hadvance
      · exact ⟨handle', hhandle', rfl⟩
      · rcases handles_setHandle hhandle' with ⟨rfl, rfl⟩ | hhandle'
        · exact ⟨handle, hhandle, rfl⟩
        · exact ⟨handle', hhandle', rfl⟩
  | release other =>
    simp only [advance] at hadvance
    split at hadvance
    · rename_i handle lease hhandle hrelease
      cases hadvance
      rcases handles_setHandle hhandle' with ⟨rfl, rfl⟩ | hhandle'
      · exact ⟨handle, hhandle, rfl⟩
      · exact ⟨handle', hhandle', rfl⟩
    · cases hadvance
      exact ⟨handle', hhandle', rfl⟩

theorem Call.Sound.beside {s s' : Site} {call : Call} (h : call.Sound s) (hfollows : Follows s s')
    (hpause : ∀ token handle', call.client = some token → s'.handles token = some handle' →
      handle'.renewalPause = none ∨ ∃ handle, s.handles token = some handle ∧
        handle.renewalPause = handle'.renewalPause) : call.Sound s' := by
  cases call with
  | job task => exact hfollows.sound task h
  | wait token runnerId => trivial
  | release token =>
    intro handle' hhandle'
    rcases hpause token handle' rfl hhandle' with hnone | ⟨handle, hhandle, hsame⟩
    · exact hnone
    · exact hsame ▸ h handle hhandle

theorem sound_of_enter {s s' : Site} {input : Input} {calls : List Call}
    (henter : enter s input = some (s', calls)) : ∀ call ∈ calls, call.Sound s' := by
  cases input with
  | job input clock =>
    simp only [enter] at henter
    split_ifs at henter
    obtain ⟨⟨jobs', jobCalls⟩, hjobs, heq⟩ := Option.map_eq_some_iff.mp henter
    cases heq
    intro call hcall
    obtain ⟨job, hjob, rfl⟩ := List.mem_map.mp hcall
    exact OoreBuild.sound_of_enter hjobs job hjob
  | release token now =>
    obtain ⟨⟨handle, mid⟩, hcheck, hrelease⟩ := Option.bind_eq_some_iff.mp henter
    dsimp only at hrelease
    split_ifs at hrelease with hstays
    cases hrelease
    intro call hcall
    rw [List.mem_singleton.mp hcall]
    intro found hfound
    rw [handles_ensureHealthy hcheck, (ensureHealthy_eq_some hcheck).1] at hfound
    cases hfound
    rw [Bool.or_eq_true, not_or] at hstays
    exact Option.not_isSome_iff_eq_none.mp hstays.2
  | wait token runnerId now =>
    simp only [enter] at henter
    split at henter <;> cases henter
    intro call hcall
    rw [List.mem_singleton.mp hcall]
    trivial
  | acquire token now =>
    simp only [enter] at henter
    split_ifs at henter
    split at henter
    · cases henter
    · obtain ⟨_, -, heq⟩ := Option.map_eq_some_iff.mp henter
      obtain ⟨-, rfl⟩ := Prod.mk.inj heq
      simp
  | renewal | ensureHealthy | beginOutage | endOutage =>
    obtain ⟨_, -, heq⟩ := Option.map_eq_some_iff.mp henter
    obtain ⟨-, rfl⟩ := Prod.mk.inj heq
    simp

theorem sound_of_advance {s s' : Site} {call : Call} {call' : Option Call} {answer : JobAnswer}
    (hsound : call.Sound s) (hadvance : advance s call answer = (s', call')) :
    ∀ next ∈ call', next.Sound s' := by
  cases call with
  | job job =>
    cases hadvance
    intro next hnext
    obtain ⟨task, htask, rfl⟩ := Option.map_eq_some_iff.mp (Option.mem_def.mp hnext)
    exact OoreBuild.sound_of_advance hsound rfl task htask
  | wait token runnerId =>
    simp only [advance] at hadvance
    split at hadvance
    · cases hadvance
      simp
    · split at hadvance <;> cases hadvance <;> simp
  | release token =>
    simp only [advance] at hadvance
    split at hadvance <;> cases hadvance <;> simp

theorem barrier_stable : Stable barrier orderly Kept Call.Sound fun _ _ => True where
  symm _ _ _ := trivial
  enter _ _ _ _ h hcond henter :=
    ⟨(kept_enter h hcond.1 hcond.2 henter).1, sound_of_enter henter,
      List.pairwise_of_forall fun _ _ => trivial⟩
  enterBeside _ _ _ _ _ h hcond henter hcall hbeside :=
    ⟨hcall.beside (kept_enter h hcond.1 hcond.2 henter).2 fun token _ hclient hhandle' =>
      pause_of_enter henter (fun hinput => hbeside token hinput hclient) hhandle',
      fun _ _ => trivial⟩
  advance _ _ _ _ _ h hcall _ hadvance :=
    ⟨(kept_advance h hcall (Option.some.inj hadvance)).1,
      sound_of_advance hcall (Option.some.inj hadvance)⟩
  advanceBeside _ _ _ _ _ _ h hcall _ hadvance hother _ _ :=
    ⟨hother.beside (kept_advance h hcall (Option.some.inj hadvance)).2 fun _ _ _ hhandle' =>
      Or.inr (pause_of_advance (Option.some.inj hadvance) hhandle'), fun _ _ => trivial⟩
  drop _ _ h _ := h
  dropBeside _ _ _ _ _ hother _ := hother
  restart _ h := h

theorem follows_next {c c' : Config Site Call} {event : Event Input JobAnswer}
    (h : Interleave.Holds Kept Call.Sound (fun _ _ => True) c) (hmet : orderly.Met c event)
    (hnext : barrier.next c event = some c') : Follows c.shared c'.shared := by
  cases event with
  | enter input =>
    obtain ⟨_, henter, rfl⟩ := Option.map_eq_some_iff.mp hnext
    exact (kept_enter h.shared hmet.1.1 hmet.1.2 henter).2
  | advance i answer =>
    obtain ⟨call, hcall, hmap⟩ := Option.bind_eq_some_iff.mp hnext
    obtain ⟨_, hadvance, rfl⟩ := Option.map_eq_some_iff.mp hmap
    exact (kept_advance h.shared (h.calls call (List.mem_of_getElem? hcall))
      (Option.some.inj hadvance)).2
  | drop i =>
    obtain ⟨_, -, rfl⟩ := Option.map_eq_some_iff.mp hnext
    exact follows_refl _
  | restart =>
    cases hnext
    exact follows_refl _

theorem kept_new {jobs : JobStore} (hfresh : jobs.Fresh) (start : ℤ) :
    Kept { jobs, clock := start } where
  holders := ⟨by simp [hfresh.1], by simp [hfresh.1]⟩
  lease := nofun
  handles := nofun
  quiet := nofun
  outage := nofun

/-- Where a client's check of its barrier succeeds, no build was claimed since it acquired the
barrier, and no runner held what it had waited for at any time since: in any run of clients that
plan outages, daemons that stop, and other statements on the job table. Another client's check
fails at that time. -/
theorem healthy_barrier_is_quiet {jobs : JobStore} (hfresh : jobs.Fresh) {start : ℤ}
    {before after : List (Event Input JobAnswer)} {c c' : Config Site Call}
    (hmeets : barrier.Meets orderly ⟨{ jobs, clock := start }, []⟩ before)
    (hbefore : barrier.run ⟨{ jobs, clock := start }, []⟩ before = some c)
    (hmeets' : barrier.Meets orderly c after) (hafter : barrier.run c after = some c')
    {token : Text} {handle : Handle} (hhandle : c.shared.handles token = some handle) {now : ℤ}
    (hclock : c'.shared.clock ≤ now)
    (hhealthy : (c'.shared.ensureHealthy token now).isSome = true) :
    c.shared.jobs.history.claims = handle.claimed ∧
      (∀ runnerId ∈ handle.drained, waitForWork c.shared.jobs.db.builds runnerId = false) ∧
        ∀ other, (c'.shared.ensureHealthy other now).isSome = true → other = token := by
  have hholds := barrier_stable.run (.start (kept_new hfresh start)) hmeets hbefore
  have hfollows := barrier_stable.run_rel follows_refl (fun _ _ _ h h' => h.trans h')
    (fun _ _ _ => follows_next) hholds hmeets' hafter
  have hlater := (barrier_stable.run hholds hmeets' hafter).shared
  obtain ⟨_, hcheck⟩ := Option.isSome_iff_exists.mp hhealthy
  have hlease := hlater.holds_of_healthy hclock hcheck
  have hdrawn := hholds.shared.handles token handle hhandle
  obtain ⟨hclaims, hdrained⟩ := hholds.shared.quiet token handle hhandle
    (hfollows.holds token hdrawn (hlease.mono hclock))
  refine ⟨hclaims, hdrained, fun other hother => ?_⟩
  obtain ⟨_, hcheck'⟩ := Option.isSome_iff_exists.mp hother
  exact hlease.unique (hlater.holds_of_healthy hclock hcheck')

/-- Decides `orderly` for an event. -/
def looksOrderly (c : Config Site Call) : Event Input JobAnswer → Bool
  | .enter input => c.shared.clock ≤ input.clock && input.isPrompt &&
      c.calls.all fun call => input.client.isNone || call.client ≠ input.client
  | _ => true

theorem met_of_looksOrderly (c : Config Site Call) (event : Event Input JobAnswer)
    (h : looksOrderly c event = true) : orderly.Met c event := by
  cases event with
  | enter input =>
    simp only [looksOrderly, Bool.and_eq_true, decide_eq_true_eq, List.all_eq_true] at h
    obtain ⟨⟨hclock, hprompt⟩, hcalls⟩ := h
    refine ⟨⟨hclock, hprompt⟩, fun call hcall token hinput hclient => ?_⟩
    have hbeside := hcalls call hcall
    rw [hinput, hclient] at hbeside
    simp at hbeside
  | advance => exact fun _ _ => ⟨trivial, fun _ _ => trivial⟩
  | drop => trivial
  | restart => trivial

/-- A client waits for a build that a runner finishes. -/
def waitForBuild : List (Event Input JobAnswer) :=
  [.enter (.job (.create plainBinds) 1), .enter (.job (.claim 1 "one" "hash" 2) 2),
    .enter (.acquire "t" 3), .enter (.wait "t" none 4), .advance 0 { now := 4 },
    .enter (.job (.report "one" 1 .running none) 5), .advance 0 { now := 5 },
    .advance 0 { now := 5 }, .enter (.job (.report "one" 1 .succeeded none) 6),
    .advance 0 { now := 6 }, .advance 0 { now := 6 }, .enter (.job (.create plainBinds) 7),
    .enter (.wait "t" none 8), .advance 0 { now := 8 }]

/-- The outage in which the daemon restarts. -/
def restartInOutage : List (Event Input JobAnswer) := [.enter (.beginOutage "t" 9 10), .restart]

theorem healthy_barrier_is_quiet_outage : ∃ c c' handle,
    barrier.run ⟨{ jobs := twoRunners, clock := 0 }, []⟩ waitForBuild = some c ∧
      barrier.run c restartInOutage = some c' ∧ c.shared.handles "t" = some handle ∧
        handle.drained = [none] ∧ c.shared.jobs.history.claims = handle.claimed ∧
          ∀ runnerId ∈ handle.drained, waitForWork c.shared.jobs.db.builds runnerId = false := by
  have hmeets : barrier.Meets orderly ⟨{ jobs := twoRunners, clock := 0 }, []⟩ waitForBuild :=
    meets_of_checks barrier met_of_looksOrderly (by decide +kernel)
  have hrun : ((barrier.run ⟨{ jobs := twoRunners, clock := 0 }, []⟩ waitForBuild).bind fun c =>
      (barrier.run c restartInOutage).map fun c' => ((c.shared.handles "t").map (·.drained),
        barrier.checks looksOrderly c restartInOutage,
        (c'.shared.ensureHealthy "t" 200).isSome && c'.shared.clock ≤ 200)) =
          some (some [none], true, true) := by decide +kernel
  obtain ⟨c, hbefore, hrun⟩ := Option.bind_eq_some_iff.mp hrun
  obtain ⟨c', hafter, hfacts⟩ := Option.map_eq_some_iff.mp hrun
  obtain ⟨hdrained, hfacts⟩ := Prod.mk.inj hfacts
  obtain ⟨hchecks, hhealthy⟩ := Prod.mk.inj hfacts
  obtain ⟨handle, hhandle, hdrained⟩ := Option.map_eq_some_iff.mp hdrained
  rw [Bool.and_eq_true, decide_eq_true_eq] at hhealthy
  obtain ⟨hclaims, hidle, -⟩ := healthy_barrier_is_quiet ⟨rfl, rfl⟩ hmeets hbefore
    (meets_of_checks barrier met_of_looksOrderly hchecks) hafter hhandle hhealthy.2 hhealthy.1
  exact ⟨c, c', handle, hbefore, hafter, hhandle, hdrained, hclaims, hidle⟩

end ClaimBarrier

end OoreBuild
