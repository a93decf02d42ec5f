import OoreBuild.JobLimits

/-!
# Changes decided on a runner's hold

A runner's report, the release of a runner's builds and the expiry of a claim are decided on the
runner that holds the build, and applied by a transition that only compares the status. A claim in
between gives the build to another runner in the same status, and the change then goes to that
claim. Where no build is claimed while such a change is under way, every change is applied to the
claim it was decided on.
-/

namespace OoreBuild

open Text Interleave

/-! ## The last claim -/

/-- The runner of the last claim of a build. -/
def History.lastRunner (history : History) (buildId : ℕ) : Option Text :=
  ((history.claims.filter fun claim => claim.buildId = buildId).getLast?).map (·.runnerId)

theorem lastRunner_append {history history' : History} {claim : Claim}
    (h : history'.claims = history.claims ++ [claim]) (buildId : ℕ) :
    history'.lastRunner buildId =
      if claim.buildId = buildId then some claim.runnerId else history.lastRunner buildId := by
  unfold History.lastRunner
  rw [h, List.filter_append]
  by_cases hid : claim.buildId = buildId
  · simp [hid]
  · simp [hid]

theorem claimCount_append {history history' : History} {claim : Claim}
    (h : history'.claims = history.claims ++ [claim]) {buildId : ℕ} (hne : claim.buildId ≠ buildId) :
    history'.claimCount buildId = history.claimCount buildId := by
  unfold History.claimCount
  rw [h, List.countP_append]
  simp [hne]

/-- The holder of a row is the runner of its last claim, and a row that takes a slot has one. -/
structure HoldersOk (s : JobStore) : Prop where
  last : ∀ row ∈ s.db.builds.rows, ∀ runnerId, row.runnerId = some runnerId →
    s.history.lastRunner row.id = some runnerId
  held : ∀ row ∈ s.db.builds.rows, row.status.isActive = true → row.runnerId.isSome = true

theorem isActive_of_canTransitionTo {status target : BuildStatus}
    (h : status.canTransitionTo target = true)
    (ht : target = .queued ∨ target = .running ∨ target = .succeeded ∨ target = .failed) :
    status.isActive = true := by
  rcases ht with rfl | rfl | rfl | rfl <;> revert h <;> cases status <;> decide

/-- A claim of another build leaves the last claim of this one. -/
theorem Step.lastRunner_of_unclaimed {s s' : JobStore} (h : Step s s') {buildId : ℕ}
    (hclaim : ∀ runnerId hash now,
      claimEligibleDirectRunnerBuild s buildId runnerId hash now ≠ some s') :
    s'.history.lastRunner buildId = s.history.lastRunner buildId := by
  rcases h.claims with heq | ⟨row, runner, -, ⟨hash, now, hclaimed⟩, heq⟩
  · unfold History.lastRunner
    rw [heq]
  · have hne : row.id ≠ buildId := by
      rintro rfl
      exact hclaim runner.id hash now hclaimed
    rw [lastRunner_append heq buildId]
    exact if_neg hne

/-- Every statement keeps the holders right. -/
theorem HoldersOk.step {s s' : JobStore} (h : HoldersOk s) (hstep : Step s s') : HoldersOk s' := by
  constructor
  · intro row' hmem runnerId hrunner
    rcases hstep.row (Table.find_of_mem hmem) with ⟨row, hrow, hto⟩ | ⟨binds, rfl, -⟩
    · by_cases hclaim : ∃ runnerId hash now,
          claimEligibleDirectRunnerBuild s row'.id runnerId hash now = some s'
      · -- the row was just claimed
        obtain ⟨claimer, hash, now, hclaimed⟩ := hclaim
        obtain ⟨other, _, hother, -, -, hbuilds, -, -, -, hhistory⟩ := claim_eq_some hclaimed
        have hfind := Table.find_of_mem hmem
        rw [hbuilds, Table.find_modify_self, hother] at hfind
        have hclaimer : row'.runnerId = some claimer := by
          rw [← Option.some.inj hfind]
          rfl
        rw [lastRunner_append (by rw [hhistory]) row'.id]
        exact (if_pos rfl).trans (hclaimer.symm.trans hrunner)
      · rw [hstep.lastRunner_of_unclaimed fun r hash now hc => hclaim ⟨r, hash, now, hc⟩]
        have hid := Table.key_of_find hrow
        rcases hto.runner hrunner with hold | ⟨hash, now, hclaimed⟩
        · exact hid ▸ h.last row (Table.mem_of_find hrow) runnerId hold
        · exact absurd ⟨runnerId, hash, now, hid ▸ hclaimed⟩ hclaim
    · cases hrunner
  · intro row' hmem hactive
    rcases hstep.row (Table.find_of_mem hmem) with ⟨row, hrow, hto⟩ | ⟨binds, rfl, -⟩
    · by_cases hclaim : ∃ runnerId hash now,
          claimEligibleDirectRunnerBuild s row.id runnerId hash now = some s'
      · obtain ⟨claimer, hash, now, hclaimed⟩ := hclaim
        obtain ⟨other, _, hother, -, -, hbuilds, -⟩ := claim_eq_some hclaimed
        have hfind := Table.find_of_mem hmem
        rw [← Table.key_of_find hrow, hbuilds, Table.find_modify_self, hother] at hfind
        rw [← Option.some.inj hfind]
        rfl
      · obtain ⟨hbefore, -, -, hrunner⟩ := hto.active hactive fun r hash now hc =>
          hclaim ⟨r, hash, now, hc⟩
        exact hrunner ▸ h.held row (Table.mem_of_find hrow) hbefore
    · cases hactive

/-! ## Changes under way -/

/-- The build whose hold the call was decided on. -/
def Job.decidedOn : Job → Option (ℕ × Holder)
  | .transition op | .loaded op _ => op.basis.map fun basis => (op.buildId, basis)
  | _ => none

/-- The target of a transition. -/
def Job.target : Job → Option BuildStatus
  | .transition op | .loaded op _ => some op.target
  | _ => none

/-- The hold that a call was decided on is still that of the build's last claim. -/
structure Job.Current (s : JobStore) (job : Job) : Prop where
  sound : job.Sound s
  runner : ∀ buildId basis, job.decidedOn = some (buildId, basis) →
    s.history.lastRunner buildId = some basis.runnerId ∧ s.history.claimCount buildId = basis.claim
  target : ∀ decided target, job.decidedOn = some decided → job.target = some target →
    target = .queued ∨ target = .running ∨ target = .succeeded ∨ target = .failed

/-- No build is claimed while a change decided on an earlier claim of it is under way. -/
def noClaimMeanwhile : Condition JobStore Job JobInput JobAnswer where
  enter _ _ := True
  enterBeside _ x u := match x with
    | .claim buildId _ _ _ => ∀ basis, u.decidedOn ≠ some (buildId, basis)
    | _ => True
  advance _ _ _ := True
  advanceBeside _ _ _ _ := True

/-- What a call was decided on survives a statement that adds no claim of the build. -/
theorem Job.Current.step {s s' : JobStore} {job : Job} (h : job.Current s) (hstep : Step s s')
    (hclaims : ∀ buildId basis, job.decidedOn = some (buildId, basis) →
      s'.history.claims = s.history.claims ∨
        ∃ claim, claim.buildId ≠ buildId ∧ s'.history.claims = s.history.claims ++ [claim]) :
    job.Current s' := by
  refine ⟨h.sound.step hstep, fun buildId basis hbasis => ?_, h.target⟩
  obtain ⟨hrunner, hcount⟩ := h.runner buildId basis hbasis
  rcases hclaims buildId basis hbasis with heq | ⟨claim, hne, heq⟩
  · unfold History.lastRunner History.claimCount at *
    rw [heq]
    exact ⟨hrunner, hcount⟩
  · rw [lastRunner_append heq buildId, if_neg hne, claimCount_append heq hne]
    exact ⟨hrunner, hcount⟩

theorem claims_of_advance {s s' : JobStore} {job : Job} {job' : Option Job} {answer : JobAnswer}
    (h : jobs.advance s job answer = some (s', job')) :
    s'.history.claims = s.history.claims := by
  replace h : advanceJob s job answer = (s', job') := Option.some.inj h
  cases job with
  | transition op =>
    simp only [advanceJob] at h
    split at h
    · cases h
      rfl
    · split at h <;> cases h <;> rfl
  | loaded op status =>
    cases h
    rcases transition_cases s op status answer.now with heq | ⟨_, -, -, -, -, hhistory⟩
    · rw [heq]
    · rw [hhistory]
  | preflight buildId =>
    cases h
    rfl
  | retire buildId full =>
    simp only [advanceJob] at h
    split at h <;> cases h <;> rfl
  | retry buildId steps =>
    cases h
    rcases queueRetry_cases s buildId steps answer.now with heq | ⟨_, _, -, -, -, -, -, hhistory⟩
    · rw [heq]
    · rw [hhistory]

/-! ## What is decided when a call starts -/

theorem current_of_basis {s : JobStore} (h : HoldersOk s) {row : Build}
    (hrow : s.db.builds.find row.id = some row) {op : Transition} (hid : op.buildId = row.id)
    (hbasis : op.basis = s.holder row) (hasked : op.Asked)
    (htarget : op.target = .queued ∨ op.target = .running ∨ op.target = .succeeded ∨
      op.target = .failed) : (Job.transition op).Current s := by
  refine ⟨hasked, fun buildId basis hdecided => ?_, fun _ target _ ht => ?_⟩
  · obtain ⟨holder, hholder, heq⟩ := Option.map_eq_some_iff.mp hdecided
    obtain ⟨rfl, rfl⟩ := Prod.mk.inj heq
    rw [hbasis] at hholder
    obtain ⟨runnerId, hrunner, rfl⟩ := Option.map_eq_some_iff.mp hholder
    rw [hid]
    exact ⟨h.last row (Table.mem_of_find hrow) runnerId hrunner, rfl⟩
  · cases ht
    exact htarget

/-- A call that was not decided on a hold. -/
theorem current_of_none {s : JobStore} {job : Job} (hsound : job.Sound s)
    (hnone : job.decidedOn = none) : job.Current s := by
  refine ⟨hsound, fun _ _ h => ?_, fun _ _ h _ => ?_⟩
  · rw [hnone] at h
    cases h
  · rw [hnone] at h
    cases h

theorem current_transitionsOf {s : JobStore} (h : HoldersOk s) {p : Build → Bool}
    {op : Build → Transition} (hid : ∀ row, (op row).buildId = row.id)
    (hbasis : ∀ row, (op row).basis = s.holder row)
    (hsound : ∀ t ∈ (transitionsOf s p op).map Job.transition, t.Sound s)
    (htarget : ∀ row, (op row).target = .queued ∨ (op row).target = .failed) :
    ∀ t ∈ (transitionsOf s p op).map Job.transition, t.Current s := by
  intro t ht
  have hasked := hsound t ht
  obtain ⟨_, hmem, rfl⟩ := List.mem_map.mp ht
  obtain ⟨row, hrow, rfl⟩ := List.mem_map.mp hmem
  have hfind := Table.find_of_mem (List.mem_filter.mp hrow).1
  exact current_of_basis h hfind (hid row) (hbasis row) hasked
    ((htarget row).imp_right fun ht => .inr (.inr ht))

theorem current_transitionsOf_free {s : JobStore} {p : Build → Bool} {op : Build → Transition}
    (hbasis : ∀ row, (op row).basis = none)
    (hsound : ∀ t ∈ (transitionsOf s p op).map Job.transition, t.Sound s) :
    ∀ t ∈ (transitionsOf s p op).map Job.transition, t.Current s := by
  intro t ht
  have hasked := hsound t ht
  obtain ⟨_, hmem, rfl⟩ := List.mem_map.mp ht
  obtain ⟨row, -, rfl⟩ := List.mem_map.mp hmem
  exact current_of_none hasked (by simp [Job.decidedOn, hbasis])

/-- The calls that a request starts are decided on the holds of that moment. -/
theorem current_of_enter {s s' : JobStore} {x : JobInput} {ts : List Job} (hs : HoldersOk s)
    (h : jobs.enter s x = some (s', ts)) : ∀ t ∈ ts, t.Current s' := by
  have hsound := sound_of_enter h
  change enterJob s x = some (s', ts) at h
  cases x with
  | report runnerId buildId target results =>
    obtain ⟨op, hop, heq⟩ := Option.map_eq_some_iff.mp h
    cases heq
    rw [List.forall_mem_singleton] at hsound ⊢
    unfold updateJobStatus at hop
    split at hop
    · cases hop
    · rename_i row hrow
      split at hop
      · rename_i hguard
        cases hop
        simp only [Bool.and_eq_true, Bool.or_eq_true, decide_eq_true_eq] at hguard
        obtain rfl := Table.key_of_find hrow
        refine current_of_basis hs hrow rfl rfl hsound (.inr ?_)
        exact or_assoc.mp hguard.2
      · cases hop
  | release runnerId active =>
    cases h
    refine current_transitionsOf hs (fun _ => rfl) (fun _ => rfl) hsound fun row => ?_
    dsimp only
    split
    · exact .inr rfl
    · exact .inl rfl
  | requeue now =>
    cases h
    exact current_transitionsOf hs (fun _ => rfl) (fun _ => rfl) hsound fun _ => .inl rfl
  | timeOut now =>
    cases h
    exact current_transitionsOf_free (fun _ => rfl) hsound
  | expireApprovals now =>
    cases h
    exact current_transitionsOf_free (fun _ => rfl) hsound
  | cancel buildId =>
    cases h
    rw [List.forall_mem_singleton] at hsound ⊢
    exact current_of_none hsound rfl
  | reload =>
    cases h
    exact current_transitionsOf_free (fun _ => rfl) hsound
  | preflight =>
    cases h
    intro t ht
    obtain ⟨_, -, rfl⟩ := List.mem_map.mp ht
    exact current_of_none trivial rfl
  | retention buildId full =>
    simp only [enterJob] at h
    split at h
    · cases h
      rw [List.forall_mem_singleton] at hsound ⊢
      exact current_of_none hsound rfl
    · cases h
  | retry buildId step out =>
    simp only [enterJob] at h
    split at h
    · cases h
    · cases h
      rw [List.forall_mem_singleton]
      exact current_of_none trivial rfl
  | create binds =>
    obtain ⟨_, -, heq⟩ := Option.map_eq_some_iff.mp h
    cases heq
    simp
  | claim buildId runnerId hash now =>
    obtain ⟨_, -, heq⟩ := Option.map_eq_some_iff.mp h
    cases heq
    simp
  | register runner =>
    simp only [enterJob] at h
    split at h <;> cases h
    simp
  | _ =>
    cases h
    simp

/-- A call keeps what it was decided on. -/
theorem current_of_advance {s s' : JobStore} {job : Job} {job' : Option Job} {answer : JobAnswer}
    (hjob : job.Current s) (h : jobs.advance s job answer = some (s', job')) :
    ∀ v ∈ job', v.Current s' := by
  have hsound := sound_of_advance hjob.sound h
  replace h : advanceJob s job answer = (s', job') := Option.some.inj h
  cases job with
  | transition op =>
    simp only [advanceJob] at h
    split at h
    · cases h
      simp
    · split at h
      · cases h
        intro v hv
        have hv_sound := hsound v hv
        cases hv
        exact ⟨hv_sound, hjob.runner, hjob.target⟩
      · cases h
        simp
  | loaded op status =>
    cases h
    simp
  | preflight buildId =>
    cases h
    simp
  | retire buildId full =>
    simp only [advanceJob] at h
    split at h
    · cases h
      simp
    · cases h
      intro v hv
      have hv_sound := hsound v hv
      cases hv
      exact current_of_none hv_sound rfl
  | retry buildId steps =>
    cases h
    simp

/-! ## What is applied -/

/-- Every change so far was applied to the claim it was decided on. -/
def AppliedOk (s : JobStore) : Prop := ∀ a ∈ s.history.applied, a.current = some a.basis

/-- A transition that was decided on a hold finds that hold. -/
theorem AppliedOk.transition {s : JobStore} (h : AppliedOk s) (hs : HoldersOk s) {op : Transition}
    {status : BuildStatus} (hjob : (Job.loaded op status).Current s) (now : ℤ) :
    AppliedOk (s.transition op status now) := by
  rcases transition_cases s op status now with heq | ⟨row, hrow, hstatus, -, -, hhistory⟩
  · rw [heq]
    exact h
  · unfold AppliedOk
    rw [hhistory]
    intro a hmem
    rcases List.mem_append.mp hmem with hold | hnew
    · exact h a hold
    · obtain ⟨basis, hbasis, rfl⟩ := Option.map_eq_some_iff.mp (Option.mem_toList.mp hnew)
      have hdecided : (Job.loaded op status).decidedOn = some (op.buildId, basis) := by
        simp [Job.decidedOn, hbasis]
      obtain ⟨hlast, hcount⟩ := hjob.runner _ _ hdecided
      -- the status that was loaded is one in which a runner holds the build
      have hactive : row.status.isActive = true := hstatus ▸
        isActive_of_canTransitionTo hjob.sound.2 (hjob.target _ _ hdecided rfl)
      obtain ⟨runnerId, hrunner⟩ := Option.isSome_iff_exists.mp
        (hs.held row (Table.mem_of_find hrow) hactive)
      have hsame := hs.last row (Table.mem_of_find hrow) runnerId hrunner
      rw [Table.key_of_find hrow, hlast] at hsame
      unfold JobStore.holder
      rw [hrunner, Option.map_some, ← Option.some.inj hsame, Table.key_of_find hrow, hcount]

theorem applied_of_advance {s s' : JobStore} {job : Job} {job' : Option Job} {answer : JobAnswer}
    (h : AppliedOk s) (hs : HoldersOk s) (hjob : job.Current s)
    (hadv : jobs.advance s job answer = some (s', job')) : AppliedOk s' := by
  replace hadv : advanceJob s job answer = (s', job') := Option.some.inj hadv
  cases job with
  | transition op =>
    simp only [advanceJob] at hadv
    split at hadv
    · cases hadv
      exact h
    · split at hadv <;> cases hadv <;> exact h
  | loaded op status =>
    cases hadv
    exact h.transition hs hjob answer.now
  | preflight buildId =>
    cases hadv
    exact h
  | retire buildId full =>
    simp only [advanceJob] at hadv
    split at hadv <;> cases hadv <;> exact h
  | retry buildId steps =>
    cases hadv
    unfold AppliedOk
    rcases queueRetry_cases s buildId steps answer.now with heq | ⟨_, _, -, -, -, -, -, hhistory⟩
    · rw [heq]
      exact h
    · rw [hhistory]
      exact h

theorem applied_stable :
    Stable jobs noClaimMeanwhile (fun s => HoldersOk s ∧ AppliedOk s) Job.Current
      fun _ _ => True where
  symm _ _ _ := trivial
  enter s x s' ts hs _ h := by
    obtain ⟨claims, changes, uploads, hhistory, -⟩ := history_of_enter h
    refine ⟨⟨hs.1.step (step_of_enter h), ?_⟩, current_of_enter hs.1 h,
      List.pairwise_of_forall fun _ _ => trivial⟩
    unfold AppliedOk
    rw [hhistory]
    exact hs.2
  enterBeside s x s' ts u hs _ h hu hcond := by
    refine ⟨hu.step (step_of_enter h) fun buildId basis hdecided => ?_, fun _ _ => trivial⟩
    obtain ⟨claims, changes, uploads, hhistory, hclaims⟩ := history_of_enter h
    rw [hhistory]
    rcases hclaims with hsame | ⟨id, runnerId, hash, now, claim, rfl, hid, hclaims⟩
    · exact .inl hsame
    · refine .inr ⟨claim, ?_, hclaims⟩
      rintro rfl
      exact hcond basis (hid ▸ hdecided)
  advance s t e s' t' hs ht _ h :=
    ⟨⟨hs.1.step (step_of_advance ht.sound h), applied_of_advance hs.2 hs.1 ht h⟩,
      current_of_advance ht h⟩
  advanceBeside s t e s' t' u hs ht _ h hu _ _ :=
    ⟨hu.step (step_of_advance ht.sound h) fun _ _ _ => .inl (claims_of_advance h),
      fun _ _ => trivial⟩
  drop _ _ hs _ := hs
  dropBeside _ _ _ _ _ hu _ := hu
  restart _ hs := hs

/-- In every run in which no build is claimed while a change decided on an earlier claim of it is
under way, every change decided on a runner's hold (a status report with its results, a release of
the runner's builds, the expiry of its claim) was applied while that runner still held that same
claim. -/
theorem changes_apply_to_their_claim (s : JobStore) (hfresh : s.Fresh)
    (events : List (Event JobInput JobAnswer)) (c : Config JobStore Job)
    (hquiet : jobs.Meets noClaimMeanwhile ⟨s, []⟩ events)
    (hrun : jobs.run ⟨s, []⟩ events = some c) :
    ∀ a ∈ c.shared.history.applied, a.current = some a.basis := by
  obtain ⟨hrows, hhistory⟩ := hfresh
  have hstart : HoldersOk s ∧ AppliedOk s := by
    refine ⟨⟨?_, ?_⟩, ?_⟩
    · rw [hrows]
      simp
    · rw [hrows]
      simp
    · unfold AppliedOk
      rw [hhistory]
      simp
  exact (applied_stable.run (.start hstart) hquiet hrun).shared.2

theorem changes_apply_to_their_claim_started :
    ∃ c, jobs.run ⟨twoRunners, []⟩ claimAndStart = some c ∧ c.shared.history.applied ≠ [] ∧
      ∀ a ∈ c.shared.history.applied, a.current = some a.basis := by
  have hrun : ((jobs.run ⟨twoRunners, []⟩ claimAndStart).map fun c =>
      c.shared.history.applied) = some [⟨⟨"one", 1⟩, some ⟨"one", 1⟩⟩] := by decide +kernel
  obtain ⟨c, hc, happlied⟩ := Option.map_eq_some_iff.mp hrun
  refine ⟨c, hc, by rw [happlied]; simp, ?_⟩
  refine changes_apply_to_their_claim twoRunners ⟨rfl, rfl⟩ claimAndStart c ?_ hc
  refine ⟨⟨trivial, by simp⟩, fun c1 h1 => ⟨⟨trivial, ?_⟩, fun c2 h2 => ?_⟩⟩
  · cases h1
    exact fun u hu => (List.not_mem_nil hu).elim
  · simp [Meets, Condition.Met, noClaimMeanwhile]

/-- A runner reports that it started; before the report's transition its claim expires and another
runner claims the build. -/
def reportAfterReclaim : List (Event JobInput JobAnswer) :=
  [.enter (.create plainBinds), .enter (.claim 1 "one" "hash" 2),
    .enter (.report "one" 1 .running none),
    .enter (.requeue 1000), .advance 1 { now := 1000 }, .advance 1 { now := 1000 },
    .enter (.claim 1 "two" "other" 1001),
    .advance 0 { now := 1002 }, .advance 0 { now := 1002 }]

/-- The report is applied to the claim of the other runner. -/
theorem report_changes_another_claim :
    ¬∀ (s : JobStore), s.Fresh → ∀ (events : List (Event JobInput JobAnswer))
      (c : Config JobStore Job), jobs.run ⟨s, []⟩ events = some c →
      ∀ a ∈ c.shared.history.applied, a.current = some a.basis := by
  intro h
  have happlied : ((jobs.run ⟨twoRunners, []⟩ reportAfterReclaim).map fun c =>
      c.shared.history.applied) =
        some [⟨⟨"one", 1⟩, some ⟨"one", 1⟩⟩, ⟨⟨"one", 1⟩, some ⟨"two", 2⟩⟩] := by decide +kernel
  obtain ⟨c, hc, hlog⟩ := Option.map_eq_some_iff.mp happlied
  have hsame := h twoRunners ⟨rfl, rfl⟩ reportAfterReclaim c hc
    ⟨⟨"one", 1⟩, some ⟨"two", 2⟩⟩ (by rw [hlog]; simp)
  revert hsame
  decide +kernel

end OoreBuild
