import OoreBuild.Lib.F64Order
import OoreBuild.ReleaseSchedule

/-!
# A rollout from its start to everyone

What the monitor sends for one release over many passes, with any other releases beside it. While
every call succeeds, nobody intervenes and the crash rate stays below the threshold, each pass that
finds the next step due sends it: the policy's steps above the start, and completion last
(`schedule_walked`).
-/

namespace OoreBuild

open Text

/-! ## What a run sends -/

/-- The scheduled changes sent for a release. -/
def sentFor (id : Text) (turns : List Turn) : List StoreChange :=
  turns.flatMap fun turn => if turn.release.id = id then turn.sent.map Sent.change else []

/-- One rollout for each step between the start and everyone, then completion. -/
def rolloutSchedule (policy : ReleasePolicy) (start : F64) : List StoreChange :=
  ((policy.steps.filter fun step => start.lt step && step.lt (.finite 1)).map .rollout) ++
    [.complete]

/-- The calls for a release succeed, and the store has it as it is recorded. -/
structure Outcomes.Succeeds (out : Outcomes) (row : Release) : Prop where
  observe : out.observe = .ok none ∨ out.observe = .ok (some (.rolling row.rolloutFraction))
  crashRate : ∃ rate, out.crashRate = .ok rate
  apply : ∀ change, out.apply change = .ok ()

/-- No crash rate at or above the threshold is reported. -/
def Outcomes.Healthy (out : Outcomes) (row : Release) : Prop :=
  ∀ rate threshold, out.crashRate = .ok (some rate) →
    row.policy.crashRateThreshold = some threshold → threshold.le rate = false

/-- The steps that are due fit into one pass. -/
def Tick.HasRoom (tick : Tick) (releases : Releases) : Prop :=
  tick.batch < 0 ∨ ((releases.rows.countP fun row =>
    row.store = .googlePlay && stepDue tick.now row : ℕ) : ℤ) ≤ tick.batch

/-- In every pass of a run the calls for a release succeed while it rolls out. -/
def Undisturbed (id : Text) : List Tick → Releases → Prop
  | [], _ => True
  | tick :: ticks, releases =>
    (∀ row, releases.find id = some row → row.state = .rolling → (tick.outcomes id).Succeeds row) ∧
      Undisturbed id ticks (runRolloutTick tick releases).1

def HaveRoom : List Tick → Releases → Prop
  | [], _ => True
  | tick :: ticks, releases =>
    tick.HasRoom releases ∧ HaveRoom ticks (runRolloutTick tick releases).1

def StaysHealthy (id : Text) : List Tick → Releases → Prop
  | [], _ => True
  | tick :: ticks, releases =>
    (∀ row, releases.find id = some row → (tick.outcomes id).Healthy row) ∧
      StaysHealthy id ticks (runRolloutTick tick releases).1

/-- The passes that come when the next step of the release is due. -/
def dueTicks (id : Text) : List Tick → Releases → ℕ
  | [], _ => 0
  | tick :: ticks, releases =>
    (if (releases.find id).any (stepDue tick.now) then 1 else 0) +
      dueTicks id ticks (runRolloutTick tick releases).1

/-- The passes send the schedule of the release, one change at each due time, and there is a due
time as long as something is left of it. -/
structure WalksSchedule (row : Release) (ticks : List Tick) (releases : Releases) : Prop where
  sends : sentFor row.id (runRollout ticks releases).2 =
    (rolloutSchedule row.policy row.rolloutFraction).take (dueTicks row.id ticks releases)
  scheduled : ∀ after, (runRollout ticks releases).1.find row.id = some after →
    (after.nextStepAt.isSome = true ↔ dueTicks row.id ticks releases <
      (rolloutSchedule row.policy row.rolloutFraction).length)

/-- No releases yet. -/
def noReleases : Releases := ⟨[], List.nodup_nil⟩

/-- A driven Google Play release. -/
structure Release.Starts (row : Release) : Prop where
  store : row.store = .googlePlay
  state : row.state = .rolling
  approved : awaitingApproval row = false

/-- No failed crash-rate check is on record. -/
def Release.Checked (row : Release) : Prop := row.healthError = none

/-- The release is not yet out to everyone. -/
def Release.Below (row : Release) : Prop := row.rolloutFraction.lt (.finite 1) = true

/-- Whatever passes drive a release that was reached, they send its schedule, under a condition. -/
def AlwaysWalks (condition : Release → List Tick → Releases → Prop) : Prop :=
  ∀ releases, Reaches noReleases releases → ∀ row ∈ releases.rows, row.Starts → ∀ ticks,
    Undisturbed row.id ticks releases → condition row ticks releases →
      WalksSchedule row ticks releases

/-! ## The steps of a policy -/

variable {row : Release} {policy : ReleasePolicy} {fraction step : F64}

/-- Consecutive elements of an ascending list of numbers, and so all. -/
theorem pairwise_of_ascending {steps : List ℚ}
    (h : ((steps.map F64.finite).zip (steps.map F64.finite).tail).any
      (fun pair => pair.2.le pair.1) = false) : steps.Pairwise (· < ·) := by
  rw [← List.isChain_iff_pairwise]
  induction steps with
  | nil => exact .nil
  | cons first rest ih =>
    cases rest with
    | nil => exact .singleton first
    | cons second rest =>
      simp only [List.map_cons, List.tail_cons, List.zip_cons_cons, List.any_cons,
        Bool.or_eq_false_iff, F64.le_finite, decide_eq_false_iff_not, not_le] at h
      exact .cons_cons h.1 (ih (by simpa using h.2))

/-- The steps of a valid policy. -/
structure Ascending (steps : List ℚ) : Prop where
  sorted : steps.Pairwise (· < ·)
  fractions : ∀ step ∈ steps, 0 < step ∧ step ≤ 1
  last : steps.getLast? = some 1

theorem isStep_iff : ReleasePolicy.isStep step = true ↔
    ∃ q : ℚ, step = .finite q ∧ 0 < q ∧ q ≤ 1 := by
  unfold ReleasePolicy.isStep
  constructor
  · intro h
    rw [Bool.and_eq_true, Bool.and_eq_true] at h
    obtain ⟨q, rfl⟩ := F64.exists_of_isFinite h.1.1
    simp only [F64.lt_finite, F64.le_finite, decide_eq_true_eq] at h
    exact ⟨q, rfl, h.1.2, h.2⟩
  · rintro ⟨q, rfl, hpos, hle⟩
    simp [hpos, hle, F64.isFinite]

theorem steps_of_validate (h : policy.validate = .ok ()) :
    ∃ steps : List ℚ, policy.steps = steps.map .finite ∧ Ascending steps := by
  unfold ReleasePolicy.validate at h
  split_ifs at h with hempty hsteps hascending hlast hinterval hthreshold
  rw [Bool.not_eq_true', Bool.not_eq_false, List.all_eq_true] at hsteps
  rw [Bool.not_eq_true', Bool.not_eq_false] at hlast
  have hfinite : policy.steps ∈ Set.range (List.map F64.finite) := by
    rw [Set.range_list_map]
    intro step hstep
    obtain ⟨q, rfl, -⟩ := isStep_iff.mp (hsteps step hstep)
    exact ⟨q, rfl⟩
  obtain ⟨steps, heq⟩ := hfinite
  rw [← heq] at hsteps hascending hlast
  refine ⟨steps, heq.symm, pairwise_of_ascending (Bool.eq_false_of_not_eq_true hascending), ?_, ?_⟩
  · intro step hstep
    obtain ⟨q, hq, hfraction⟩ := isStep_iff.mp (hsteps _ (List.mem_map_of_mem hstep))
    obtain rfl := F64.finite.inj hq
    exact hfraction
  · rw [List.getLast?_map, Option.any_map] at hlast
    obtain ⟨last, hsome, hone⟩ := (Option.any_eq_true ..).mp hlast
    rw [F64.eq_finite, decide_eq_true_eq] at hone
    rw [hsome, ← hone]

theorem schedule_of_steps {steps : List ℚ} (h : policy.steps = steps.map .finite) (start : ℚ) :
    rolloutSchedule policy (.finite start) =
      ((steps.filter fun step => start < step && step < 1).map fun step =>
        .rollout (.finite step)) ++ [.complete] := by
  unfold rolloutSchedule
  rw [h, List.filter_map, List.map_map]
  rfl

/-- The next step, and the schedule from there. -/
theorem schedule_step {steps : List ℚ} (hsteps : Ascending steps)
    (h : policy.steps = steps.map .finite) {start : ℚ} (hbelow : start < 1) :
    ∃ step : ℚ, policy.nextStep (.finite start) = some (.finite step) ∧ start < step ∧ step ≤ 1 ∧
      rolloutSchedule policy (.finite start) =
        if step < 1 then .rollout (.finite step) :: rolloutSchedule policy (.finite step)
        else [.complete] := by
  have hlast : (1 : ℚ) ∈ steps := List.mem_of_getLast? hsteps.last
  have hsome : (steps.find? fun step => start < step).isSome = true := by
    rw [List.find?_isSome]
    exact ⟨1, hlast, decide_eq_true hbelow⟩
  obtain ⟨step, hfind⟩ := Option.isSome_iff_exists.mp hsome
  obtain ⟨habove, before, after, heq, hbefore⟩ := List.find?_eq_some_iff_append.mp hfind
  have habove : start < step := of_decide_eq_true habove
  have hsorted := hsteps.sorted
  rw [heq, List.pairwise_append, List.pairwise_cons] at hsorted
  have hmem : step ∈ steps := heq ▸ by simp
  refine ⟨step, ?_, habove, (hsteps.fractions step hmem).2, ?_⟩
  · unfold ReleasePolicy.nextStep
    rw [h, List.find?_map, Option.map_eq_some_iff]
    exact ⟨step, hfind, rfl⟩
  · have hbefore : ∀ t ∈ before, t ≤ start := fun t ht => by simpa using hbefore t ht
    have hafter : ∀ t ∈ after, step < t := hsorted.2.1.1
    rw [schedule_of_steps h, schedule_of_steps h, heq, List.filter_append, List.filter_append]
    have hskip : before.filter (fun t => start < t && t < 1) = [] :=
      List.filter_eq_nil_iff.mpr fun t ht => by simp [hbefore t ht]
    have hskip' : before.filter (fun t => step < t && t < 1) = [] :=
      List.filter_eq_nil_iff.mpr fun t ht => by
        have hle := hbefore t ht
        simp [hle.trans habove.le]
    rw [hskip, hskip', List.nil_append, List.nil_append, List.filter_cons, List.filter_cons]
    have hself : (decide (step < step) && decide (step < 1)) = false := by simp
    rw [hself, if_neg Bool.false_ne_true]
    split_ifs with hstart hone hone
    · -- both leave the later steps below 1
      have hrest : after.filter (fun t => start < t && t < 1) =
          after.filter (fun t => step < t && t < 1) := by
        refine List.filter_congr fun t ht => ?_
        simp [hafter t ht, habove.trans (hafter t ht)]
      rw [hrest, List.map_cons, List.cons_append]
    · simp [hone] at hstart
    · simp [hone, habove] at hstart
    · have hnone : after.filter (fun t => start < t && t < 1) = [] := by
        refine List.filter_eq_nil_iff.mpr fun t ht => ?_
        have hlt := (not_lt.mp hone).trans_lt (hafter t ht)
        simp [hlt.le]
      rw [hnone]
      rfl

/-! ## A turn of the release -/

/-- The columns that decide the schedule are the same. -/
structure SameSchedule (row row' : Release) : Prop where
  store : row'.store = row.store
  track : row'.track = row.track
  state : row'.state = row.state
  fraction : row'.rolloutFraction = row.rolloutFraction
  nextStepAt : row'.nextStepAt = row.nextStepAt
  policy : row'.policy = row.policy
  approvedAt : row'.approvedAt = row.approvedAt

theorem SameSchedule.refl (row : Release) : SameSchedule row row :=
  ⟨rfl, rfl, rfl, rfl, rfl, rfl, rfl⟩

theorem SameSchedule.trans {a b c : Release} (hab : SameSchedule a b) (hbc : SameSchedule b c) :
    SameSchedule a c where
  store := hbc.store.trans hab.store
  track := hbc.track.trans hab.track
  state := hbc.state.trans hab.state
  fraction := hbc.fraction.trans hab.fraction
  nextStepAt := hbc.nextStepAt.trans hab.nextStepAt
  policy := hbc.policy.trans hab.policy
  approvedAt := hbc.approvedAt.trans hab.approvedAt

theorem SameSchedule.awaitingApproval {row row' : Release} (h : SameSchedule row row') :
    awaitingApproval row' = awaitingApproval row := by
  unfold OoreBuild.awaitingApproval
  rw [h.approvedAt, h.state, h.policy, h.track]

theorem SameSchedule.starts {row row' : Release} (h : SameSchedule row row')
    (hstarts : row.Starts) : row'.Starts where
  store := h.store.trans hstarts.store
  state := h.state.trans hstarts.state
  approved := h.awaitingApproval.trans hstarts.approved

variable {releases : Releases} {out : Outcomes} {now : ℤ}

/-- The fraction of a row, as a rational. -/
theorem fraction_of_valid (h : validateFraction row.rolloutFraction = .ok ()) :
    ∃ q : ℚ, row.rolloutFraction = .finite q ∧ 0 ≤ q ∧ q ≤ 1 := by
  unfold validateFraction at h
  split_ifs at h with hin
  rw [Bool.and_eq_true, Bool.and_eq_true] at hin
  obtain ⟨q, hq⟩ := F64.exists_of_isFinite hin.1.1
  rw [hq] at hin ⊢
  simp only [F64.le_finite, decide_eq_true_eq] at hin
  exact ⟨q, rfl, hin.1.2, hin.2⟩

/-- A store that has the fraction on record reports no change. -/
theorem storeSyncChanges_same {q : ℚ} (hpos : 0 ≤ q) (hle : q ≤ 1) :
    storeSyncChanges .rolling (.finite q) (.rolling (.finite q)) = [] := by
  have hsmall : ∃ ε : ℚ, F64.ofRat (1 / 10 ^ 9) = .finite ε ∧ 1 / 2 ^ 52 ≤ ε ∧ ε ≤ 1 :=
    ⟨4835703278458517 / 4835703278458516698824704, by decide +kernel, by norm_num, by norm_num⟩
  obtain ⟨ε, hε, hlow, hhigh⟩ := hsmall
  have hadd : (F64.finite q).add (F64.ofRat (1 / 10 ^ 9)) = F64.ofRat (q + ε) := by
    rw [hε]
    rfl
  have hlt : (F64.ofRat (q + ε)).lt (.finite q) = false := by
    refine F64.not_lt_ofRat ?_ (by linarith) (by linarith)
    have : (0 : ℚ) < 1 / 2 ^ 52 := by norm_num
    linarith
  show (if ((F64.finite q).add (F64.ofRat (1 / 10 ^ 9))).lt (.finite q) then _ else []) = _
  rw [hadd, hlt, if_neg Bool.false_ne_true]

/-- Afterwards the row is there with the same schedule. -/
def KeptAt (releases : Releases) (row : Release) (healthError : Option Text) : Prop :=
  ∃ row', releases.find row.id = some row' ∧ SameSchedule row row' ∧ row'.healthError = healthError

theorem syncTurn_same (now : ℤ) (hfind : releases.find row.id = some row)
    (hstate : row.state = .rolling) (hfraction : validateFraction row.rolloutFraction = .ok ()) (hout : out.Succeeds row) :
    (syncTurn out now row releases).2 = true ∧
      KeptAt (syncTurn out now row releases).1 row row.healthError := by
  obtain ⟨q, hq, hpos, hle⟩ := fraction_of_valid hfraction
  have hsynced : syncReleaseWithStore out now row releases = (some row, releases.modify row.id
      (fun row => { row with storeCheckedAt := some now }) fun _ => rfl) := by
    unfold syncReleaseWithStore
    rcases hout.observe with hnone | hsome
    · rw [hnone]
    · rw [hsome]
      dsimp only
      rw [hstate, hq, storeSyncChanges_same hpos hle]
      rfl
  unfold syncTurn
  rw [hsynced]
  split_ifs
  · constructor
    · simp [hq]
    · refine ⟨{ row with storeCheckedAt := some now }, ?_, ⟨rfl, rfl, rfl, rfl, rfl, rfl, rfl⟩, rfl⟩
      dsimp only
      rw [Table.find_modify_self, hfind, Option.map_some]
  · exact ⟨rfl, row, hfind, .refl row, rfl⟩

theorem checkHealth_same (now : ℤ) (hrow : KeptAt releases row none)
    (herror : row.healthError = none) (hout : out.Succeeds row) (hhealthy : out.Healthy row) :
    (checkHealth out now row releases).goesOn = true ∧
      (checkHealth out now row releases).healthError = none ∧
      KeptAt (checkHealth out now row releases).releases row none := by
  unfold checkHealth
  cases hthreshold : row.policy.crashRateThreshold with
  | none => exact ⟨rfl, herror, hrow⟩
  | some threshold =>
    dsimp only
    split_ifs
    · exact ⟨rfl, herror, hrow⟩
    · obtain ⟨rate, hrate⟩ := hout.crashRate
      rw [hrate]
      have hbelow : rate.any (fun rate => threshold.le rate) = false := by
        cases rate with
        | none => rfl
        | some rate => exact hhealthy rate threshold hrate hthreshold
      dsimp only
      rw [hbelow, if_neg Bool.false_ne_true]
      obtain ⟨row', hfind, hsame, -⟩ := hrow
      refine ⟨rfl, rfl, { row' with
        crashRate := rate.or row'.crashRate, crashRateCheckedAt := some now, healthError := none },
        ?_, hsame.trans ⟨rfl, rfl, rfl, rfl, rfl, rfl, rfl⟩, rfl⟩
      rw [Table.find_modify_self, hfind, Option.map_some]

/-- What is left to send for a release. -/
def remaining (row : Release) : List StoreChange :=
  if row.state = .rolling then rolloutSchedule row.policy row.rolloutFraction else []

/-- A release on the way to everyone, or there. -/
def Release.OnSchedule (row : Release) : Prop :=
  row.Starts ∧ row.Checked ∧ row.Below ∨ row.state = .complete

theorem movedSince_self {current : Release} (h : current.rolloutFraction.isFinite = true) :
    movedSince (some (current.state, current.rolloutFraction)) current = false := by
  have hclose : (F64.ofRat (1 / 10 ^ 9)).lt (F64.finite 0).abs = false := by decide +kernel
  show (decide (current.state ≠ current.state) || _) = false
  rw [F64.sub_self_of_isFinite h, hclose]
  simp

/-- The next step passes every check, and is sent. -/
theorem transition_step {current : Release} {step : ℚ} {change : ReleaseChange}
    (hfind : releases.find row.id = some current) (hstarts : current.Starts)
    (hchecked : current.Checked) (hok : validateFraction current.rolloutFraction = .ok ())
    (hchange : change = stepChange current (.finite step))
    (habove : current.rolloutFraction.lt (.finite step) = true) (hle : step ≤ 1)
    (hout : ∀ change, out.apply change = .ok ()) :
    (transitionRelease out releases row.id change).sent.map Sent.change =
        [if step < 1 then .rollout (.finite step) else .complete] ∧
      ∃ row', (transitionRelease out releases row.id change).releases.find row.id = some row' ∧
        row'.policy = current.policy ∧
        if step < 1 then row'.Starts ∧ row'.Checked ∧ row'.rolloutFraction = .finite step
        else row'.state = .complete := by
  obtain ⟨q, hq, hpos, -⟩ := fraction_of_valid hok
  have hfinite : current.rolloutFraction.isFinite = true := by
    rw [hq]
    rfl
  rw [hq, F64.lt_finite, decide_eq_true_eq] at habove
  have hto : change.toState = if step < 1 then .rolling else .complete := by
    rw [hchange]
    show (if (F64.finite 1).le (.finite step) then _ else _) = _
    rw [F64.le_finite]
    by_cases hone : step < 1
    · simp [hone]
    · simp [hone, not_lt.mp hone]
  have hfraction : change.fractionOf current = .finite step := by
    unfold ReleaseChange.fractionOf
    rw [hto]
    by_cases hone : step < 1
    · rw [if_pos hone, hchange]
      rfl
    · rw [if_neg hone, le_antisymm hle (not_lt.mp hone)]
  have hvalid : validateFraction (.finite step) = .ok () := by
    simp [validateFraction, F64.isFinite, (hpos.trans_lt habove).le, hle]
  have hexpect : movedSince change.expect current = false := by
    rw [hchange]
    show movedSince (some (.rolling, current.rolloutFraction)) current = false
    rw [← hstarts.state]
    exact movedSince_self hfinite
  have htransition : current.state.canTransitionTo change.toState = true := by
    rw [hstarts.state, hto]
    split_ifs <;> rfl
  have hcheck : checkChange current change = .ok () := by
    unfold checkChange
    rw [hexpect, if_neg Bool.false_ne_true, htransition]
    simp [hfraction, hvalid, hstarts.approved, hq, habove.not_ge]
  have hfromStore : change.fromStore = false := by
    rw [hchange]
    rfl
  have hsends : change.sends current =
      some (if step < 1 then .rollout (.finite step) else .complete) := by
    unfold ReleaseChange.sends
    rw [hfromStore, if_neg Bool.false_ne_true, hstarts.state, hto, hfraction]
    split_ifs <;> rfl
  have heq : current.rolloutFraction.eq current.rolloutFraction = true :=
    F64.eq_self_of_isFinite hfinite
  unfold transitionRelease
  rw [hfind]
  dsimp only
  rw [hcheck]
  dsimp only
  rw [hsends, Option.elim_some, hout]
  dsimp only
  rw [if_pos heq]
  refine ⟨rfl, change.applyTo current (out.clock change.toState), ?_, rfl, ?_⟩
  · dsimp only
    rw [Table.find_modify_self, hfind, Option.map_some]
    rfl
  · split_ifs with hone
    · rw [if_pos hone] at hto
      refine ⟨⟨hstarts.store, hto, ?_⟩, hchecked, hfraction⟩
      have happroved := hstarts.approved
      have hstate : (change.applyTo current (out.clock change.toState)).state = current.state :=
        hto.trans hstarts.state.symm
      unfold awaitingApproval at happroved ⊢
      rw [hstate]
      exact happroved
    · exact hto.trans (if_neg hone)

/-- A turn whose step is due sends the next change. -/
theorem takeStep_due (hok : row.Ok) (hstarts : row.Starts) (hrow : KeptAt releases row none)
    (hdue : stepDue now row = true) (hout : out.Succeeds row) :
    (takeStep out now row none releases).2.length = 1 ∧
      ∃ row', (takeStep out now row none releases).1.find row.id = some row' ∧
        row'.OnSchedule ∧ remaining row =
          (takeStep out now row none releases).2.map Sent.change ++ remaining row' := by
  obtain ⟨current, hfind, hsame, herror⟩ := hrow
  obtain ⟨q, hq, hpos, hle⟩ := fraction_of_valid hok.fraction
  obtain ⟨steps, hsteps, hascending⟩ := steps_of_validate hok.policy
  simp only [stepDue, Bool.and_eq_true, decide_eq_true_eq] at hdue
  have hdriven : row.driven = true := by
    rw [← hok.scheduled]
    obtain ⟨at_, hat, -⟩ := (Option.any_eq_true ..).mp hdue.2
    rw [hat]
    rfl
  have hbelow : q < 1 := by
    simp only [Release.driven, Bool.and_eq_true, ReleasePolicy.nextStep,
      List.find?_isSome] at hdriven
    obtain ⟨step, hstep, hlt⟩ := hdriven.2
    rw [hsteps] at hstep
    obtain ⟨p, hp, rfl⟩ := List.mem_map.mp hstep
    rw [hq, F64.lt_finite, decide_eq_true_eq] at hlt
    exact hlt.trans_le (hascending.fractions p hp).2
  obtain ⟨step, hnext, habove, hstep, hschedule⟩ := schedule_step hascending hsteps hbelow
  have hcurrent : current.Starts := hsame.starts hstarts
  have hchange : stepChange row (.finite step) = stepChange current (.finite step) := by
    unfold stepChange
    rw [hsame.fraction]
  obtain ⟨hsent, row', hrow', hpolicy, hphase⟩ := transition_step hfind hcurrent herror
    (hsame.fraction ▸ hok.fraction) hchange (by simpa [hsame.fraction, hq] using habove) hstep
    hout.apply
  have htake : takeStep out now row none releases =
      ((transitionRelease out releases row.id (stepChange row (.finite step))).releases,
        (transitionRelease out releases row.id (stepChange row (.finite step))).sent) := by
    unfold takeStep
    rw [Option.isSome_none, Bool.and_false, if_neg Bool.false_ne_true, hdue.2, hstarts.approved,
      if_neg (by decide), hq, hnext]
  rw [htake]
  refine ⟨?_, row', hrow', ?_, ?_⟩
  · have hlength := congrArg List.length hsent
    rwa [List.length_map] at hlength
  · split_ifs at hphase
    · refine .inl ⟨hphase.1, hphase.2.1, ?_⟩
      rw [Release.Below, hphase.2.2, F64.lt_finite]
      exact decide_eq_true ‹step < 1›
    · exact .inr hphase
  · unfold remaining
    rw [hsent, if_pos hstarts.state, hq, hschedule, hpolicy, hsame.policy]
    split_ifs at hphase ⊢ with hone hrolling hrolling
    · rw [hphase.2.2]
      rfl
    · exact absurd hphase.1.state hrolling
    · rw [hphase] at hrolling
      cases hrolling
    · rfl

theorem takeStep_not_due (out : Outcomes) (hrow : KeptAt releases row none)
    (hdue : (row.nextStepAt.any fun at_ => at_ ≤ now) = false) :
    (takeStep out now row none releases).2 = [] ∧
      KeptAt (takeStep out now row none releases).1 row none := by
  have htake : takeStep out now row none releases = (releases, []) := by
    unfold takeStep
    rw [Option.isSome_none, Bool.and_false, if_neg Bool.false_ne_true, hdue, Bool.not_false,
      Bool.true_or, if_pos rfl]
  rw [htake]
  exact ⟨rfl, hrow⟩

theorem remaining_same {row row' : Release} (h : SameSchedule row row') :
    remaining row' = remaining row := by
  unfold remaining
  rw [h.state, h.policy, h.fraction]

/-- What a pass does to a release: it sends one change when the step is due, and none otherwise. -/
structure Advances (row : Release) (now : ℤ) (sent : List StoreChange) (after : Releases) :
    Prop where
  length : sent.length = if stepDue now row then 1 else 0
  row : ∃ row', after.find row.id = some row' ∧ row'.OnSchedule ∧
    remaining row = sent ++ remaining row'

/-- A turn of a release on its schedule. -/
theorem releaseTurn_advances (hfind : releases.find row.id = some row) (hok : row.Ok)
    (hstarts : row.Starts) (hclean : row.Checked) (hbelow : row.Below)
    (hout : out.Succeeds row) (hhealthy : out.Healthy row) :
    Advances row now ((releaseTurn out now row releases).2.map Sent.change)
      (releaseTurn out now row releases).1 := by
  obtain ⟨hgo, hsynced⟩ := syncTurn_same now hfind hstarts.state hok.fraction hout
  rw [hclean] at hsynced
  obtain ⟨hgoes, herror, hchecked⟩ := checkHealth_same now hsynced hclean hout hhealthy
  have hturn : releaseTurn out now row releases = takeStep out now row none
      (checkHealth out now row (syncTurn out now row releases).1).releases := by
    unfold releaseTurn
    dsimp only
    rw [hgo, hgoes, herror, hstarts.state]
    rfl
  rw [hturn]
  cases hdue : stepDue now row with
  | true =>
    obtain ⟨hlength, hrow⟩ := takeStep_due hok hstarts hchecked hdue hout
    refine ⟨?_, hrow⟩
    rw [List.length_map, hlength, hdue]
    rfl
  | false =>
    have hnot : (row.nextStepAt.any fun at_ => at_ ≤ now) = false := by
      simpa [stepDue, hstarts.state] using hdue
    obtain ⟨hsent, row', hrow', hsame, herror'⟩ := takeStep_not_due out hchecked hnot
    have hbelow' : row'.Below := by
      rw [Release.Below, hsame.fraction]
      exact hbelow
    refine ⟨?_, row', hrow', .inl ⟨hsame.starts hstarts, herror', hbelow'⟩, ?_⟩
    · rw [hsent, hdue]
      rfl
    · rw [hsent, remaining_same hsame]
      rfl

/-! ## Passes -/

theorem sentFor_append (id : Text) (first second : List Turn) :
    sentFor id (first ++ second) = sentFor id first ++ sentFor id second :=
  List.flatMap_append

/-- The turns of other releases leave the row alone. -/
theorem runTurns_of_notMem (tick : Tick) {rows : List Release} {id : Text}
    (h : id ∉ rows.map Release.id) (releases : Releases) :
    (runTurns tick rows releases).1.find id = releases.find id ∧
      sentFor id (runTurns tick rows releases).2 = [] := by
  induction rows generalizing releases with
  | nil => exact ⟨rfl, rfl⟩
  | cons release rest ih =>
    rw [List.map_cons, List.mem_cons, not_or] at h
    rw [runTurns_cons]
    dsimp only
    obtain ⟨hfind, hsent⟩ :=
      ih h.2 (releaseTurn (tick.outcomes release.id) tick.now release releases).1
    constructor
    · rw [hfind, sameElsewhere_releaseTurn _ _ _ _ _ h.1]
    · show (if release.id = id then _ else []) ++ sentFor id _ = []
      rw [if_neg (Ne.symm h.1), hsent]
      rfl

/-- Among the turns of a pass there is one of each row it takes. -/
theorem runTurns_of_mem (tick : Tick) {rows : List Release} {releases : Releases}
    (hnodup : (rows.map Release.id).Nodup)
    (hfind : ∀ row ∈ rows, releases.find row.id = some row) (hrow : row ∈ rows) :
    ∃ before : Releases, before.find row.id = some row ∧
      (runTurns tick rows releases).1.find row.id =
        (releaseTurn (tick.outcomes row.id) tick.now row before).1.find row.id ∧
      sentFor row.id (runTurns tick rows releases).2 =
        (releaseTurn (tick.outcomes row.id) tick.now row before).2.map Sent.change := by
  induction rows generalizing releases with
  | nil => cases hrow
  | cons release rest ih =>
    rw [List.map_cons, List.nodup_cons] at hnodup
    rw [runTurns_cons]
    dsimp only
    rcases List.mem_cons.mp hrow with rfl | hrest
    · obtain ⟨hlater, hsent⟩ := runTurns_of_notMem tick hnodup.1
        (releaseTurn (tick.outcomes row.id) tick.now row releases).1
      refine ⟨releases, hfind row hrow, hlater, ?_⟩
      show (if row.id = row.id then _ else []) ++ sentFor row.id _ = _
      rw [if_pos rfl, hsent, List.append_nil]
    · have hne : release.id ≠ row.id := fun heq =>
        hnodup.1 (heq ▸ List.mem_map_of_mem hrest)
      obtain ⟨before, hbefore, hafter, hsent⟩ := ih hnodup.2
        (find_after_turn (List.nodup_cons.mpr hnodup) hfind) hrest
      refine ⟨before, hbefore, hafter, ?_⟩
      show (if release.id = row.id then _ else []) ++ sentFor row.id _ = _
      rw [if_neg hne, hsent, List.nil_append]

/-- The order in which a pass takes rows. -/
def tickKey (now : ℤ) (release : Release) : ℤ × ℤ :=
  (if stepDue now release then 0 else 1, release.storeCheckedAt.getD 0)

def tickOrder (now : ℤ) (a b : Release) : Bool :=
  (tickKey now a).1 < (tickKey now b).1 ||
    ((tickKey now a).1 = (tickKey now b).1 && (tickKey now a).2 ≤ (tickKey now b).2)

theorem pairwise_tickOrder (now : ℤ) (rows : List Release) :
    (rows.mergeSort (tickOrder now)).Pairwise fun a b => tickOrder now a b = true := by
  have htrans (a b c : Release) (hab : tickOrder now a b = true) (hbc : tickOrder now b c = true) :
      tickOrder now a c = true := by
    simp only [tickOrder, Bool.or_eq_true, Bool.and_eq_true, decide_eq_true_eq] at hab hbc ⊢
    omega
  have htotal (a b : Release) : (tickOrder now a b || tickOrder now b a) = true := by
    simp only [tickOrder, Bool.or_eq_true, Bool.and_eq_true, decide_eq_true_eq]
    omega
  exact List.pairwise_mergeSort htrans htotal rows

/-- Rows that come before a due one are due. -/
theorem stepDue_of_tickOrder {a b : Release} (h : tickOrder now a b = true)
    (hdue : stepDue now b = true) : stepDue now a = true := by
  by_contra hnot
  simp only [tickOrder, tickKey, hdue, hnot] at h
  simp at h

/-- The rows of Google Play releases that are not over. -/
def liveRows (releases : Releases) : List Release :=
  releases.rows.filter fun release => release.store = .googlePlay &&
    (release.state = .rolling || release.state = .paused || release.state = .halted)

theorem tickRows_eq (tick : Tick) (releases : Releases) : tickRows tick releases =
    if tick.batch < 0 then (liveRows releases).mergeSort (tickOrder tick.now)
    else ((liveRows releases).mergeSort (tickOrder tick.now)).take tick.batch.toNat := rfl

/-- A pass takes the steps that are due, if it has room for them. -/
theorem mem_tickRows {tick : Tick} {releases : Releases} (hrow : row ∈ releases.rows)
    (hstore : row.store = .googlePlay) (hdue : stepDue tick.now row = true)
    (hroom : tick.HasRoom releases) : row ∈ tickRows tick releases := by
  have hstate : row.state = .rolling := by
    simp only [stepDue, Bool.and_eq_true, decide_eq_true_eq] at hdue
    exact hdue.1
  have hlive : row ∈ liveRows releases := List.mem_filter.mpr ⟨hrow, by simp [hstore, hstate]⟩
  have hsorted : row ∈ (liveRows releases).mergeSort (tickOrder tick.now) :=
    List.mem_mergeSort.mpr hlive
  rw [tickRows_eq]
  split_ifs with hbatch
  · exact hsorted
  · have hcount := hroom.resolve_left hbatch
    by_contra hcut
    set sorted := (liveRows releases).mergeSort (tickOrder tick.now)
    rw [← List.take_append_drop tick.batch.toNat sorted, List.mem_append] at hsorted
    have hdrop := hsorted.resolve_left hcut
    -- so the pass is full of rows whose steps are due
    have hpairwise : sorted.Pairwise fun a b => tickOrder tick.now a b = true :=
      pairwise_tickOrder tick.now (liveRows releases)
    rw [← List.take_append_drop tick.batch.toNat sorted, List.pairwise_append] at hpairwise
    have hall : ∀ other ∈ sorted.take tick.batch.toNat, stepDue tick.now other = true :=
      fun other hother => stepDue_of_tickOrder (hpairwise.2.2 other hother row hdrop) hdue
    have htake : (sorted.take tick.batch.toNat).countP (stepDue tick.now) = tick.batch.toNat := by
      rw [List.countP_eq_length.mpr hall, List.length_take]
      have := List.length_pos_of_mem hdrop
      rw [List.length_drop] at this
      omega
    have hone : 0 < (sorted.drop tick.batch.toNat).countP (stepDue tick.now) :=
      List.countP_pos_iff.mpr ⟨row, hdrop, hdue⟩
    have hperm : sorted.countP (stepDue tick.now) = (liveRows releases).countP (stepDue tick.now) :=
      (List.mergeSort_perm ..).countP_eq _
    have hfilter : (liveRows releases).countP (stepDue tick.now) ≤ releases.rows.countP fun row =>
        row.store = .googlePlay && stepDue tick.now row := by
      unfold liveRows
      rw [List.countP_filter]
      refine List.countP_mono_left fun release _ h => ?_
      simp only [Bool.and_eq_true] at h ⊢
      exact ⟨h.2.1, h.1⟩
    rw [← List.take_append_drop tick.batch.toNat sorted, List.countP_append] at hperm
    omega

theorem not_mem_tickRows_of_complete {tick : Tick} (h : row.state = .complete) :
    row ∉ tickRows tick releases := by
  intro hmem
  have hlive : row ∈ liveRows releases := by
    rw [tickRows_eq] at hmem
    split_ifs at hmem
    · exact List.mem_mergeSort.mp hmem
    · exact List.mem_mergeSort.mp (List.mem_of_mem_take hmem)
  have hstate := (List.mem_filter.mp hlive).2
  simp [h] at hstate

/-- A pass over a release on its schedule. -/
theorem runRolloutTick_advances {tick : Tick} (hfind : releases.find row.id = some row)
    (hok : row.Ok) (hphase : row.OnSchedule)
    (hout : row.state = .rolling → (tick.outcomes row.id).Succeeds row)
    (hhealthy : (tick.outcomes row.id).Healthy row) (hroom : tick.HasRoom releases) :
    Advances row tick.now (sentFor row.id (runRolloutTick tick releases).2)
      (runRolloutTick tick releases).1 := by
  obtain ⟨hnodup, hrows⟩ := tickRows_spec tick releases
  unfold runRolloutTick
  by_cases hmem : row ∈ tickRows tick releases
  · obtain ⟨before, hbefore, hafter, hsent⟩ := runTurns_of_mem tick hnodup hrows hmem
    obtain ⟨hstarts, hclean, hbelow⟩ := hphase.resolve_right fun hcomplete =>
      not_mem_tickRows_of_complete hcomplete hmem
    obtain ⟨hlength, row', hrow', hphase', hremaining⟩ := releaseTurn_advances hbefore hok hstarts
      hclean hbelow (hout hstarts.state) hhealthy
    rw [hsent]
    exact ⟨hlength, row', hafter.trans hrow', hphase', hremaining⟩
  · have hnot : row.id ∉ (tickRows tick releases).map Release.id := by
      intro hid
      obtain ⟨other, hother, heq⟩ := List.mem_map.mp hid
      have hsame := hrows other hother
      rw [heq, hfind] at hsame
      exact hmem (Option.some.inj hsame ▸ hother)
    obtain ⟨hafter, hsent⟩ := runTurns_of_notMem tick hnot releases
    rw [hsent]
    refine ⟨?_, row, hafter.trans hfind, hphase, rfl⟩
    rw [if_neg]
    · rfl
    · intro hdue
      obtain ⟨hstarts, -⟩ := hphase.resolve_right fun hcomplete => by
        simp [stepDue, hcomplete] at hdue
      exact hmem (mem_tickRows (Table.mem_of_find hfind) hstarts.store hdue hroom)

/-- What a run leaves of a release. -/
theorem runRollout_advances {ticks : List Tick} (hok : ReleasesOk releases)
    (hfind : releases.find row.id = some row) (hphase : row.OnSchedule)
    (hundisturbed : Undisturbed row.id ticks releases)
    (hhealthy : StaysHealthy row.id ticks releases) (hroom : HaveRoom ticks releases) :
    (sentFor row.id (runRollout ticks releases).2).length = dueTicks row.id ticks releases ∧
      ∃ row', (runRollout ticks releases).1.find row.id = some row' ∧ row'.Ok ∧ row'.OnSchedule ∧
        remaining row = sentFor row.id (runRollout ticks releases).2 ++ remaining row' := by
  induction ticks generalizing releases row with
  | nil => exact ⟨rfl, row, hfind, releasesOk_iff.mp hok _ row hfind, hphase, rfl⟩
  | cons tick ticks ih =>
    obtain ⟨hout, hundisturbed⟩ := hundisturbed
    obtain ⟨hrate, hhealthy⟩ := hhealthy
    obtain ⟨hroom, hrooms⟩ := hroom
    obtain ⟨hlength, row₁, hrow₁, hphase₁, hremaining₁⟩ := runRolloutTick_advances hfind
      (releasesOk_iff.mp hok _ row hfind) hphase (hout row hfind) (hrate row hfind) hroom
    have hid : row₁.id = row.id := Table.key_of_find hrow₁
    rw [← hid] at hundisturbed hhealthy
    have hrest := ih (reached_ok hok (reaches_runRolloutTick tick releases)) (hid ▸ hrow₁) hphase₁
      hundisturbed hhealthy hrooms
    rw [hid] at hrest
    obtain ⟨hlater, row₂, hrow₂, hok₂, hphase₂, hremaining₂⟩ := hrest
    rw [runRollout_cons]
    dsimp only
    rw [sentFor_append]
    refine ⟨?_, row₂, hrow₂, hok₂, hphase₂, ?_⟩
    · rw [List.length_append, hlength, hlater, dueTicks, hfind, Option.any_some]
    · rw [hremaining₁, hremaining₂, List.append_assoc]

theorem nextStepAt_iff_remaining (hok : row.Ok) (hphase : row.OnSchedule) :
    row.nextStepAt.isSome = true ↔ remaining row ≠ [] := by
  rw [hok.scheduled]
  rcases hphase with ⟨hstarts, -, hbelow⟩ | hcomplete
  · obtain ⟨q, hq, -, -⟩ := fraction_of_valid hok.fraction
    obtain ⟨steps, hsteps, hascending⟩ := steps_of_validate hok.policy
    rw [Release.Below, hq, F64.lt_finite, decide_eq_true_eq] at hbelow
    obtain ⟨step, hnext, -⟩ := schedule_step hascending hsteps hbelow
    refine iff_of_true ?_ ?_
    · simp [Release.driven, hstarts.store, hstarts.state, hstarts.approved, hq, hnext]
    · simp [remaining, hstarts.state, rolloutSchedule]
  · refine iff_of_false ?_ ?_
    · simp [Release.driven, hcomplete]
    · simp [remaining, hcomplete]

/-- In every table that is reached, a release has a next step exactly when the monitor drives it;
and passes over one that is driven from below everyone send its schedule. -/
theorem schedule_walked :
    (∀ releases, Reaches noReleases releases → ∀ row ∈ releases.rows,
      row.nextStepAt.isSome = row.driven) ∧
    AlwaysWalks fun row ticks releases => row.Below ∧ row.Checked ∧
      StaysHealthy row.id ticks releases ∧ HaveRoom ticks releases := by
  have hreached (releases : Releases) (h : Reaches noReleases releases) : ReleasesOk releases :=
    reached_ok (by simp [ReleasesOk, noReleases]) h
  refine ⟨fun releases h row hrow => (hreached releases h row hrow).scheduled, ?_⟩
  rintro releases h row hrow hstarts ticks hundisturbed ⟨hbelow, hchecked, hhealthy, hroom⟩
  obtain ⟨hlength, row', hrow', hok', hphase, hremaining⟩ := runRollout_advances
    (hreached releases h) (Table.find_of_mem hrow) (.inl ⟨hstarts, hchecked, hbelow⟩) hundisturbed
    hhealthy hroom
  have hschedule : remaining row = rolloutSchedule row.policy row.rolloutFraction :=
    if_pos hstarts.state
  rw [hschedule] at hremaining
  constructor
  · rw [hremaining, ← hlength, List.take_left]
  · intro after hafter
    obtain rfl := Option.some.inj (hrow'.symm.trans hafter)
    rw [nextStepAt_iff_remaining hok' hphase, hremaining, List.length_append, hlength,
      ← List.length_pos_iff]
    omega

/-- A Google Play release of half of the users and then everyone, halted above a crash rate. -/
def twoSteps (start : ℚ) : NewRelease where
  projectId := "p"
  buildId := 1
  store := .googlePlay
  track := "production"
  versionCode := none
  state := .rolling
  rolloutFraction := .finite start
  policy := { steps := [.finite (1 / 2), .finite 1], intervalHours := .finite 24
              crashRateThreshold := some (.finite (1 / 32)), approval := .none }
  environmentId := none
  promotedFromReleaseId := none

/-- The table with that release only. -/
def oneRelease (start : ℚ) : Releases :=
  writeRelease noReleases (.insert "r" (twoSteps start) 0)

/-- A pass that reads a crash rate and is answered well. -/
def dailyTick (day : ℕ) (rate : Option F64) : Tick where
  now := 86400 * day
  batch := 100
  outcomes _ := { observe := .ok none, crashRate := .ok rate, apply := fun _ => .ok ()
                  clock := fun _ => 86400 * day }

theorem dailyTick_succeeds (day : ℕ) (rate : Option F64) (row : Release) :
    ((dailyTick day rate).outcomes row.id).Succeeds row := ⟨.inl rfl, ⟨rate, rfl⟩, fun _ => rfl⟩

theorem dailyTick_healthy (day : ℕ) (row : Release) :
    ((dailyTick day none).outcomes row.id).Healthy row := by
  intro rate threshold hrate
  cases hrate

/-- Two days take the release to everyone. -/
theorem schedule_walked_daily :
    sentFor "r" (runRollout [dailyTick 1 none, dailyTick 2 none] (oneRelease (1 / 4))).2 =
        [.rollout (.finite (1 / 2)), .complete] ∧
      WalksSchedule (insertedRelease "r" (twoSteps (1 / 4)) 0) [dailyTick 1 none, dailyTick 2 none]
        (oneRelease (1 / 4)) := by
  refine ⟨by decide +kernel, ?_⟩
  refine schedule_walked.2 _ (reaches_write noReleases _) _ (by decide +kernel) ⟨rfl, rfl, rfl⟩ _
    ?_ ⟨?_, ?_, ?_, ?_⟩
  · exact ⟨fun row _ _ => dailyTick_succeeds 1 none row,
      fun row _ _ => dailyTick_succeeds 2 none row, trivial⟩
  · exact (by decide +kernel : (F64.finite (1 / 4)).lt (.finite 1) = true)
  · rfl
  · exact ⟨fun row _ => dailyTick_healthy 1 row, fun row _ => dailyTick_healthy 2 row, trivial⟩
  · exact ⟨.inr (by decide +kernel), .inr (by decide +kernel), trivial⟩

/-- A release that is out to everyone from its start is never completed. -/
theorem full_release_stays : ¬AlwaysWalks fun row ticks releases => row.Checked ∧
    StaysHealthy row.id ticks releases ∧ HaveRoom ticks releases := by
  intro h
  have hwalks := h (oneRelease 1) (reaches_write noReleases _) (insertedRelease "r" (twoSteps 1) 0)
    (by decide +kernel) ⟨rfl, rfl, rfl⟩ [dailyTick 1 none]
    ⟨fun row _ _ => dailyTick_succeeds 1 none row, trivial⟩
    ⟨rfl, ⟨fun row _ => dailyTick_healthy 1 row, trivial⟩, .inr (by decide +kernel), trivial⟩
  have hafter : ((runRollout [dailyTick 1 none] (oneRelease 1)).1.find "r").any
      (fun after => after.nextStepAt.isNone) = true := by
    decide +kernel
  obtain ⟨after, hfind, hnone⟩ := (Option.any_eq_true ..).mp hafter
  have hsome := (hwalks.scheduled after hfind).mpr (by decide +kernel)
  rw [Option.isNone_iff_eq_none.mp hnone] at hsome
  cases hsome

/-- A crash rate above the threshold halts the release, though reading it succeeds. -/
theorem breached_release_halts : ¬AlwaysWalks fun row ticks releases => row.Below ∧ row.Checked ∧
    HaveRoom ticks releases := by
  intro h
  have hwalks := h (oneRelease (1 / 4)) (reaches_write noReleases _)
    (insertedRelease "r" (twoSteps (1 / 4)) 0) (by decide +kernel) ⟨rfl, rfl, rfl⟩
    [dailyTick 1 (some (.finite (1 / 16)))]
    ⟨fun row _ _ => dailyTick_succeeds 1 _ row, trivial⟩
    ⟨(by decide +kernel : (F64.finite (1 / 4)).lt (.finite 1) = true), rfl,
      .inr (by decide +kernel), trivial⟩
  have hsent := hwalks.sends
  revert hsent
  decide +kernel

/-- A failed check of the crash rate, a minute before the step is due, holds the release. -/
theorem unchecked_release_waits : ¬AlwaysWalks fun row ticks releases => row.Below ∧
    StaysHealthy row.id ticks releases ∧ HaveRoom ticks releases := by
  intro h
  have hreach := (reaches_write noReleases (.insert "r" (twoSteps (1 / 4)) 0)).trans
    (reaches_write (oneRelease (1 / 4)) (.recordHealthError "r" "unavailable" 86340))
  have hwalks := h _ hreach { insertedRelease "r" (twoSteps (1 / 4)) 0 with
      crashRateCheckedAt := some 86340, healthError := some "unavailable" }
    (by decide +kernel) ⟨rfl, rfl, rfl⟩ [dailyTick 1 none]
    ⟨fun row _ _ => dailyTick_succeeds 1 none row, trivial⟩
    ⟨(by decide +kernel : (F64.finite (1 / 4)).lt (.finite 1) = true),
      ⟨fun row _ => dailyTick_healthy 1 row, trivial⟩, .inr (by decide +kernel), trivial⟩
  have hsent := hwalks.sends
  revert hsent
  decide +kernel

/-- A pass without room for the release leaves it as it is. -/
theorem crowded_release_waits : ¬AlwaysWalks fun row ticks releases => row.Below ∧ row.Checked ∧
    StaysHealthy row.id ticks releases := by
  intro h
  have hwalks := h (oneRelease (1 / 4)) (reaches_write noReleases _)
    (insertedRelease "r" (twoSteps (1 / 4)) 0) (by decide +kernel) ⟨rfl, rfl, rfl⟩
    [{ dailyTick 1 none with batch := 0 }]
    ⟨fun row _ _ => dailyTick_succeeds 1 none row, trivial⟩
    ⟨(by decide +kernel : (F64.finite (1 / 4)).lt (.finite 1) = true), rfl,
      fun row _ => dailyTick_healthy 1 row, trivial⟩
  have hsent := hwalks.sends
  revert hsent
  decide +kernel

/-- None of the conditions goes without saying. -/
theorem schedule_not_walked :
    (¬AlwaysWalks fun row ticks releases => row.Checked ∧ StaysHealthy row.id ticks releases ∧
      HaveRoom ticks releases) ∧
    (¬AlwaysWalks fun row ticks releases => row.Below ∧ row.Checked ∧ HaveRoom ticks releases) ∧
    (¬AlwaysWalks fun row ticks releases => row.Below ∧ StaysHealthy row.id ticks releases ∧
      HaveRoom ticks releases) ∧
    ¬AlwaysWalks fun row ticks releases => row.Below ∧ row.Checked ∧
      StaysHealthy row.id ticks releases :=
  ⟨full_release_stays, breached_release_halts, unchecked_release_waits, crowded_release_waits⟩

end OoreBuild
