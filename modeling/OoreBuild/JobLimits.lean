import OoreBuild.JobInvariants

/-!
# Limits on claims

The claim counts the builds that take a slot inside its own update. Every other statement only
frees slots (`Step.slots`), so the counts stay within the limits as long as nobody lowers one.
-/

namespace OoreBuild

open Text Interleave

/-! ## Slots -/

/-- Apart from some ids, the builds that take a slot already took it, with the same pipeline and
runner. -/
def SlotsKept (s s' : JobStore) (ks : List ℕ) : Prop :=
  ∀ row' ∈ s'.db.builds.rows, row'.status.isActive = true → row'.id ∉ ks →
    ∃ row ∈ s.db.builds.rows, row.id = row'.id ∧ row.status.isActive = true ∧
      (row'.status.isHeld = true → row.status.isHeld = true) ∧
      row.pipelineId = row'.pipelineId ∧ row.runnerId = row'.runnerId

/-- A row that a statement other than its claim leaves with a slot had it before. -/
theorem RowStep.active {s s' : JobStore} {row row' : Build} (h : RowStep s s' row row')
    (hactive : row'.status.isActive = true)
    (hclaim : ∀ runnerId hash now,
      claimEligibleDirectRunnerBuild s row.id runnerId hash now ≠ some s') :
    row.status.isActive = true ∧ (row'.status.isHeld = true → row.status.isHeld = true) ∧
      row.pipelineId = row'.pipelineId ∧ row.runnerId = row'.runnerId := by
  cases h with
  | same => exact ⟨hactive, id, rfl, rfl⟩
  | write h =>
    cases h with
    | transition target results now hvalid hfree _ =>
      obtain ⟨hsource, rfl⟩ := isHeld_of_canTransitionTo hvalid hfree hactive
      rw [hsource]
      exact ⟨rfl, fun _ => rfl, rfl, rfl⟩
    | decide approve now hq _ => cases approve <;> cases hactive
    | cancel now hlive => cases hactive
    | drain now hs => cases hactive
  | fail now hq => cases hactive
  | claim runner hash now _ hclaimed => exact absurd hclaimed (hclaim runner.id hash now)

/-- Slots are only taken by a claim, one at a time. -/
theorem Step.slots {s s' : JobStore} (h : Step s s') :
    SlotsKept s s' [] ∨
      ∃ row runner, s.db.builds.find row.id = some row ∧ s.runners.find runner.id = some runner ∧
        Claimable s runner row ∧ SlotsKept s s' [row.id] ∧
        (∃ hash now, s'.db.builds.find row.id = some (claimRow runner.id hash now row)) ∧
        s'.db.pipelines = s.db.pipelines ∧ s'.runners = s.runners := by
  by_cases hclaim : ∃ buildId runnerId hash now,
      claimEligibleDirectRunnerBuild s buildId runnerId hash now = some s'
  · obtain ⟨buildId, runnerId, hash, now, hclaim⟩ := hclaim
    obtain ⟨row, runner, hrow, hrunner, hclaimable, hbuilds, -, hpipelines, hrunners, -⟩ :=
      claim_eq_some hclaim
    obtain rfl := Table.key_of_find hrow
    obtain rfl := Table.key_of_find hrunner
    refine .inr ⟨row, runner, hrow, hrunner, hclaimable, fun row' hmem hactive hid => ?_,
      ⟨hash, now, ?_⟩, hpipelines, hrunners⟩
    · have hfind := Table.find_of_mem hmem
      rw [hbuilds, Table.find_modify_of_ne _ (by simpa using hid)] at hfind
      exact ⟨row', Table.mem_of_find hfind, rfl, hactive, id, rfl, rfl⟩
    · rw [hbuilds, Table.find_modify_self, hrow]
      rfl
  · refine .inl fun row' hmem hactive _ => ?_
    rcases h.row (Table.find_of_mem hmem) with ⟨row, hrow, hto⟩ | ⟨binds, rfl, -⟩
    · have hslot := hto.active hactive fun runnerId hash now hc =>
        hclaim ⟨row.id, runnerId, hash, now, hc⟩
      exact ⟨row, Table.mem_of_find hrow, Table.key_of_find hrow, hslot⟩
    · cases hactive

/-! ## Counts -/

theorem isActive_of_isHeld {status : BuildStatus} (h : status.isHeld = true) :
    status.isActive = true := by
  revert h
  cases status <;> decide

/-- The count of a pipeline grows by the claimed builds at most. -/
theorem SlotsKept.activeCount_le {s s' : JobStore} {ks : List ℕ} (h : SlotsKept s s' ks)
    (pipelineId : Text) :
    activeCount s'.db.builds pipelineId ≤ activeCount s.db.builds pipelineId + ks.length := by
  refine Table.countP_le_add ks fun row' hmem hp hid => ?_
  simp only [Bool.and_eq_true, decide_eq_true_eq] at hp
  obtain ⟨row, hrow, hkey, hactive, -, hpipeline, -⟩ := h row' hmem hp.2 hid
  refine ⟨row, hrow, hkey, ?_⟩
  simp only [Bool.and_eq_true, decide_eq_true_eq]
  exact ⟨hpipeline.trans hp.1, hactive⟩

theorem SlotsKept.heldCount_le {s s' : JobStore} {ks : List ℕ} (h : SlotsKept s s' ks)
    (runnerId : Text) :
    heldCount s'.db.builds runnerId ≤ heldCount s.db.builds runnerId + ks.length := by
  refine Table.countP_le_add ks fun row' hmem hp hid => ?_
  simp only [Bool.and_eq_true, decide_eq_true_eq] at hp
  obtain ⟨row, hrow, hkey, -, hheld, -, hrunner⟩ := h row' hmem (isActive_of_isHeld hp.2) hid
  refine ⟨row, hrow, hkey, ?_⟩
  simp only [Bool.and_eq_true, decide_eq_true_eq]
  exact ⟨hrunner.trans hp.1, hheld hp.2⟩

/-- A claim takes no slot of another pipeline. -/
theorem activeCount_le_of_claim {s s' : JobStore} {row : Build} {runner : Runner} {hash : Text}
    {now : ℤ} (h : SlotsKept s s' [row.id])
    (hclaimed : s'.db.builds.find row.id = some (claimRow runner.id hash now row))
    {pipelineId : Text} (hne : row.pipelineId ≠ pipelineId) :
    activeCount s'.db.builds pipelineId ≤ activeCount s.db.builds pipelineId := by
  refine Table.countP_le_add [] fun row' hmem hp _ => ?_
  simp only [Bool.and_eq_true, decide_eq_true_eq] at hp ⊢
  by_cases hid : row'.id = row.id
  · have hfind := Table.find_of_mem hmem
    rw [hid, hclaimed] at hfind
    obtain rfl := Option.some.inj hfind
    exact absurd hp.1 hne
  · obtain ⟨other, hother, hkey, hactive, -, hpipeline, -⟩ :=
      h row' hmem hp.2 (by simpa using hid)
    exact ⟨other, hother, hkey, hpipeline.trans hp.1, hactive⟩

/-- A claim takes no slot of another runner. -/
theorem heldCount_le_of_claim {s s' : JobStore} {row : Build} {runner : Runner} {hash : Text}
    {now : ℤ} (h : SlotsKept s s' [row.id])
    (hclaimed : s'.db.builds.find row.id = some (claimRow runner.id hash now row))
    {runnerId : Text} (hne : runner.id ≠ runnerId) :
    heldCount s'.db.builds runnerId ≤ heldCount s.db.builds runnerId := by
  refine Table.countP_le_add [] fun row' hmem hp _ => ?_
  simp only [Bool.and_eq_true, decide_eq_true_eq] at hp ⊢
  by_cases hid : row'.id = row.id
  · have hfind := Table.find_of_mem hmem
    rw [hid, hclaimed] at hfind
    obtain rfl := Option.some.inj hfind
    exact absurd (Option.some.inj hp.1) hne
  · obtain ⟨other, hother, hkey, -, hheld, -, hrunner⟩ :=
      h row' hmem (isActive_of_isHeld hp.2) (by simpa using hid)
    exact ⟨other, hother, hkey, hrunner.trans hp.1, hheld hp.2⟩

theorem activeCount_lt_of_freeSlot {db : Database} {pipeline : Pipeline} {limit : ℕ}
    (hslot : pipelineHasFreeSlot db pipeline.id = true) (hmem : pipeline ∈ db.pipelines.rows)
    (hlimit : pipeline.maxConcurrent = some limit) (hpos : 0 < limit) :
    activeCount db.builds pipeline.id < limit := by
  unfold pipelineHasFreeSlot at hslot
  rw [Table.find_of_mem hmem, Option.any_some, hlimit, Option.any_some] at hslot
  simp only [Bool.not_eq_true', Bool.and_eq_false_iff, decide_eq_false_iff_not] at hslot
  omega

/-! ## Limits -/

/-- A new limit is not below the old one; none and zero are no limit. -/
def NotLowered (old new : Option ℕ) : Prop :=
  ∀ limit, new = some limit → 0 < limit → ∃ before, old = some before ∧ 0 < before ∧ before ≤ limit

theorem NotLowered.rfl {limit : Option ℕ} : NotLowered limit limit :=
  fun value h hpos => ⟨value, h, hpos, le_rfl⟩

/-- Nobody lowers a limit. -/
def limitsNotLowered : Condition JobStore Job JobInput JobAnswer where
  enter s x := match x with
    | .setMaxConcurrent pipelineId limit =>
      ∀ pipeline, s.db.pipelines.find pipelineId = some pipeline →
        NotLowered pipeline.maxConcurrent limit
    | .updateRunner runnerId _ limit =>
      ∀ runner, s.runners.find runnerId = some runner → runner.maxConcurrentBuilds ≤ limit
    | _ => True
  enterBeside _ _ _ := True
  advance _ _ _ := True
  advanceBeside _ _ _ _ := True

/-- The pipelines and runners of a store are those of another with no lower limits, and new
runners. -/
structure LimitsFrom (s s' : JobStore) : Prop where
  pipelines : ∀ pipeline' ∈ s'.db.pipelines.rows, ∃ pipeline ∈ s.db.pipelines.rows,
    pipeline.id = pipeline'.id ∧ NotLowered pipeline.maxConcurrent pipeline'.maxConcurrent
  runners : ∀ runner' ∈ s'.runners.rows, s.runners.find runner'.id = none ∨
    ∃ runner ∈ s.runners.rows, runner.id = runner'.id ∧
      runner.maxConcurrentBuilds ≤ runner'.maxConcurrentBuilds
  kept : ∀ runnerId, (s.runners.find runnerId).isSome = true →
    (s'.runners.find runnerId).isSome = true

theorem limitsFrom_of_eq {s s' : JobStore} (hpipelines : s'.db.pipelines = s.db.pipelines)
    (hrunners : s'.runners = s.runners) : LimitsFrom s s' where
  pipelines pipeline' h := ⟨pipeline', hpipelines ▸ h, rfl, .rfl⟩
  runners runner' h := .inr ⟨runner', hrunners ▸ h, rfl, le_rfl⟩
  kept _ h := hrunners ▸ h

theorem limits_of_enter {s s' : JobStore} {x : JobInput} {ts : List Job}
    (hcond : limitsNotLowered.enter s x) (h : jobs.enter s x = some (s', ts)) :
    LimitsFrom s s' := by
  change enterJob s x = some (s', ts) at h
  cases x with
  | create binds =>
    obtain ⟨_, hs, heq⟩ := Option.map_eq_some_iff.mp h
    cases heq
    obtain ⟨-, hinsert, hrunners, -⟩ := create_eq_some hs
    obtain ⟨-, -, hdb⟩ := executeBuildInsert_eq_some hinsert
    exact limitsFrom_of_eq (by rw [hdb]) hrunners
  | claim buildId runnerId hash now =>
    obtain ⟨_, hs, heq⟩ := Option.map_eq_some_iff.mp h
    cases heq
    obtain ⟨_, _, -, -, -, -, -, hpipelines, hrunners, -⟩ := claim_eq_some hs
    exact limitsFrom_of_eq hpipelines hrunners
  | report runnerId buildId target results =>
    obtain ⟨_, -, heq⟩ := Option.map_eq_some_iff.mp h
    cases heq
    exact limitsFrom_of_eq rfl rfl
  | retention buildId full =>
    simp only [enterJob] at h
    split at h <;> cases h
    exact limitsFrom_of_eq rfl rfl
  | retry buildId step out =>
    simp only [enterJob] at h
    split at h <;> cases h
    exact limitsFrom_of_eq rfl rfl
  | register runner =>
    simp only [enterJob] at h
    split at h
    · rename_i hnew
      cases h
      refine ⟨fun pipeline' hp => ⟨pipeline', hp, rfl, .rfl⟩, fun runner' hr => ?_, fun id hid => ?_⟩
      · rcases List.mem_append.mp hr with hold | hadded
        · exact .inr ⟨runner', hold, rfl, le_rfl⟩
        · rw [List.mem_singleton.mp hadded]
          refine .inl (List.find?_eq_none.mpr fun other hother => ?_)
          simp only [decide_eq_true_eq]
          exact fun heq => hnew (heq ▸ List.mem_map_of_mem hother)
      · rw [Table.find_insert]
        split
        · rfl
        · exact hid
    · cases h
  | updateRunner runnerId labels limit =>
    cases h
    refine ⟨fun pipeline' hp => ⟨pipeline', hp, rfl, .rfl⟩, fun runner' hr => .inr ?_,
      fun id hid => ?_⟩
    · obtain ⟨runner, hrunner, rfl⟩ := List.mem_map.mp hr
      refine ⟨runner, hrunner, ?_, ?_⟩
      · split <;> rfl
      · split
        · rename_i hid
          exact hcond runner (hid ▸ Table.find_of_mem hrunner)
        · exact le_rfl
    · rw [Table.find_modify]
      split
      · rename_i heq
        rw [heq] at hid
        rw [Option.isSome_map]
        exact hid
      · exact hid
  | setMaxConcurrent pipelineId limit =>
    cases h
    refine ⟨fun pipeline' hp => ?_, fun runner' hr => .inr ⟨runner', hr, rfl, le_rfl⟩,
      fun _ hid => hid⟩
    obtain ⟨pipeline, hpipeline, rfl⟩ := List.mem_map.mp hp
    refine ⟨pipeline, hpipeline, ?_, ?_⟩
    · split <;> rfl
    · split
      · rename_i hid
        exact hcond pipeline (hid ▸ Table.find_of_mem hpipeline)
      · exact .rfl
  | _ =>
    cases h
    exact limitsFrom_of_eq rfl rfl

theorem limits_of_advance {s s' : JobStore} {job : Job} {job' : Option Job} {answer : JobAnswer}
    (h : jobs.advance s job answer = some (s', job')) : LimitsFrom s s' := by
  replace h : advanceJob s job answer = (s', job') := Option.some.inj h
  cases job with
  | transition op =>
    simp only [advanceJob] at h
    split at h
    · cases h
      exact limitsFrom_of_eq rfl rfl
    · split at h <;> cases h <;> exact limitsFrom_of_eq rfl rfl
  | loaded op status =>
    cases h
    rcases transition_cases s op status answer.now with heq | ⟨_, -, -, hdb, hrunners, -⟩
    · rw [heq]
      exact limitsFrom_of_eq rfl rfl
    · exact limitsFrom_of_eq (by rw [hdb]; rfl) hrunners
  | preflight buildId =>
    cases h
    exact limitsFrom_of_eq rfl rfl
  | retire buildId full =>
    simp only [advanceJob] at h
    split at h <;> cases h <;> exact limitsFrom_of_eq rfl rfl
  | retry buildId steps =>
    cases h
    rcases queueRetry_cases s buildId steps answer.now with heq | ⟨_, b, -, -, -, hinsert, hrunners, -⟩
    · rw [heq]
      exact limitsFrom_of_eq rfl rfl
    · obtain ⟨-, -, hdb⟩ := executeBuildInsert_eq_some hinsert
      exact limitsFrom_of_eq (by rw [hdb]) hrunners

/-! ## Within the limits -/

/-- The counts are within the limits, every holder is a runner, and every claim was of a build
that no runner held, by a runner with its labels. -/
structure WithinLimits (s : JobStore) : Prop where
  pipelines : ∀ pipeline ∈ s.db.pipelines.rows, ∀ limit, pipeline.maxConcurrent = some limit →
    0 < limit → activeCount s.db.builds pipeline.id ≤ limit
  runners : ∀ runner ∈ s.runners.rows,
    heldCount s.db.builds runner.id ≤ max runner.maxConcurrentBuilds 1
  known : ∀ row ∈ s.db.builds.rows, ∀ runnerId, row.runnerId = some runnerId →
    (s.runners.find runnerId).isSome = true
  claims : ∀ claim ∈ s.history.claims,
    claim.holder = none ∧ ∀ label ∈ claim.required, label ∈ claim.labels

/-- The runner of a row stays, goes, or is the one that just claimed it. -/
theorem RowStep.runner {s s' : JobStore} {row row' : Build} (h : RowStep s s' row row')
    {runnerId : Text} (hrunner : row'.runnerId = some runnerId) :
    row.runnerId = some runnerId ∨
      ∃ hash now, claimEligibleDirectRunnerBuild s row.id runnerId hash now = some s' := by
  cases h with
  | same => exact .inl hrunner
  | write h =>
    cases h with
    | transition target results now _ _ _ =>
      have heq : (if (target.isTerminal || decide (target = .queued)) = true then none
        else row.runnerId) = some runnerId := hrunner
      split at heq
      · cases heq
      · exact .inl heq
    | decide approve now _ _ => exact .inl hrunner
    | cancel now _ => cases hrunner
    | drain now _ => exact .inl hrunner
  | fail now _ => exact .inl hrunner
  | claim runner hash now _ hclaim =>
    cases hrunner
    exact .inr ⟨hash, now, hclaim⟩

theorem known_step {s s' : JobStore} (h : WithinLimits s) (hstep : Step s s')
    (hlimits : LimitsFrom s s') :
    ∀ row ∈ s'.db.builds.rows, ∀ runnerId, row.runnerId = some runnerId →
      (s'.runners.find runnerId).isSome = true := by
  intro row' hmem runnerId hrunner
  refine hlimits.kept runnerId ?_
  rcases hstep.row (Table.find_of_mem hmem) with ⟨row, hrow, hto⟩ | ⟨binds, rfl, -⟩
  · rcases hto.runner hrunner with hold | ⟨hash, now, hclaim⟩
    · exact h.known row (Table.mem_of_find hrow) runnerId hold
    · obtain ⟨_, runner, -, hfind, -⟩ := claim_eq_some hclaim
      rw [hfind]
      rfl
  · cases hrunner

theorem claims_step {s s' : JobStore} (h : WithinLimits s) (hstep : Step s s') :
    ∀ claim ∈ s'.history.claims,
      claim.holder = none ∧ ∀ label ∈ claim.required, label ∈ claim.labels := by
  rcases hstep.claims with heq | ⟨row, runner, hclaimable, -, heq⟩
  · rw [heq]
    exact h.claims
  · rw [heq]
    intro claim hmem
    rcases List.mem_append.mp hmem with hold | hnew
    · exact h.claims claim hold
    · rw [List.mem_singleton.mp hnew]
      exact ⟨rfl, hclaimable.labels⟩

/-- A runner that nobody knew holds nothing. -/
theorem heldCount_eq_zero {s s' : JobStore} (h : WithinLimits s) (hslots : SlotsKept s s' [])
    {runnerId : Text} (hnew : s.runners.find runnerId = none) :
    heldCount s'.db.builds runnerId = 0 := by
  have hle := hslots.heldCount_le runnerId
  have hzero : heldCount s.db.builds runnerId = 0 := by
    refine List.countP_eq_zero.mpr fun row hmem hp => ?_
    simp only [Bool.and_eq_true, decide_eq_true_eq] at hp
    have hknown := h.known row hmem runnerId hp.1
    rw [hnew] at hknown
    cases hknown
  simp only [List.length_nil] at hle
  omega

/-- A statement keeps the counts within limits that are not lowered. -/
theorem WithinLimits.step {s s' : JobStore} (h : WithinLimits s) (hstep : Step s s')
    (hlimits : LimitsFrom s s') : WithinLimits s' := by
  refine ⟨?_, ?_, known_step h hstep hlimits, claims_step h hstep⟩
  · intro pipeline' hmem' limit hlimit hpos
    rcases hstep.slots with hslots | ⟨row, runner, -, -, hclaimable, hslots, ⟨hash, now, hclaimed⟩,
      hpipelines, -⟩
    · obtain ⟨pipeline, hmem, hid, hle⟩ := hlimits.pipelines pipeline' hmem'
      obtain ⟨before, hbefore, hbefore_pos, hbefore_le⟩ := hle limit hlimit hpos
      have hcount := hslots.activeCount_le pipeline'.id
      have hold := h.pipelines pipeline hmem before hbefore hbefore_pos
      rw [hid] at hold
      simp only [List.length_nil] at hcount
      omega
    · rw [hpipelines] at hmem'
      by_cases hsame : row.pipelineId = pipeline'.id
      · -- the claim found a free slot
        have hfree := activeCount_lt_of_freeSlot (hsame ▸ hclaimable.slot) hmem' hlimit hpos
        have hcount := hslots.activeCount_le pipeline'.id
        simp only [List.length_singleton] at hcount
        omega
      · exact (activeCount_le_of_claim hslots hclaimed hsame).trans
          (h.pipelines pipeline' hmem' limit hlimit hpos)
  · intro runner' hmem'
    rcases hstep.slots with hslots | ⟨row, runner, -, hfind, hclaimable, hslots,
      ⟨hash, now, hclaimed⟩, -, hrunners⟩
    · rcases hlimits.runners runner' hmem' with hnew | ⟨runner, hmem, hid, hle⟩
      · rw [heldCount_eq_zero h hslots hnew]
        exact Nat.zero_le _
      · have hcount := hslots.heldCount_le runner'.id
        have hold := h.runners runner hmem
        rw [hid] at hold
        simp only [List.length_nil] at hcount
        omega
    · rw [hrunners] at hmem'
      by_cases hsame : runner.id = runner'.id
      · -- the claim found that the runner was free for one more
        have hsame_runner := Table.find_of_mem hmem'
        rw [← hsame, hfind] at hsame_runner
        obtain rfl := Option.some.inj hsame_runner
        have hfree := hclaimable.held
        have hcount := hslots.heldCount_le runner.id
        simp only [List.length_singleton] at hcount
        omega
      · exact (heldCount_le_of_claim hslots hclaimed hsame).trans (h.runners runner' hmem')

theorem withinLimits_stable :
    Stable jobs limitsNotLowered WithinLimits Job.Sound fun _ _ => True where
  symm _ _ _ := trivial
  enter _ _ _ _ hs hcond h := ⟨hs.step (step_of_enter h) (limits_of_enter hcond h),
    sound_of_enter h, List.pairwise_of_forall fun _ _ => trivial⟩
  enterBeside _ _ _ _ _ _ _ h hu _ := ⟨hu.step (step_of_enter h), fun _ _ => trivial⟩
  advance _ _ _ _ _ hs ht _ h :=
    ⟨hs.step (step_of_advance ht h) (limits_of_advance h), sound_of_advance ht h⟩
  advanceBeside _ _ _ _ _ _ _ ht _ h hu _ _ :=
    ⟨hu.step (step_of_advance ht h), fun _ _ => trivial⟩
  drop _ _ hs _ := hs
  dropBeside _ _ _ _ _ hu _ := hu
  restart _ hs := hs

theorem withinLimits_of_fresh {s : JobStore} (h : s.Fresh) : WithinLimits s := by
  obtain ⟨hrows, hhistory⟩ := h
  refine ⟨fun pipeline _ limit _ _ => ?_, fun runner _ => ?_, ?_, ?_⟩
  · unfold activeCount
    rw [hrows]
    exact Nat.zero_le _
  · unfold heldCount
    rw [hrows]
    exact Nat.zero_le _
  · rw [hrows]
    simp
  · rw [hhistory]
    simp

/-- In any interleaving in which nobody lowers a limit, the builds of a pipeline that are
scheduled, assigned or running stay within its positive limit, the builds a runner holds stay
within its own, no build is held by two runners, and every claim was made on a build that no
runner held, by a runner with the labels the build needs. -/
theorem claims_within_limits (s : JobStore) (hfresh : s.Fresh)
    (events : List (Event JobInput JobAnswer)) (c : Config JobStore Job)
    (hlimits : jobs.Meets limitsNotLowered ⟨s, []⟩ events)
    (hrun : jobs.run ⟨s, []⟩ events = some c) :
    (∀ pipeline ∈ c.shared.db.pipelines.rows, ∀ limit, pipeline.maxConcurrent = some limit →
      0 < limit → activeCount c.shared.db.builds pipeline.id ≤ limit) ∧
    (∀ runner ∈ c.shared.runners.rows,
      heldCount c.shared.db.builds runner.id ≤ max runner.maxConcurrentBuilds 1) ∧
    (∀ row ∈ c.shared.db.builds.rows, ∀ row' ∈ c.shared.db.builds.rows, row.id = row'.id →
      row.runnerId = row'.runnerId) ∧
    ∀ claim ∈ c.shared.history.claims,
      claim.holder = none ∧ ∀ label ∈ claim.required, label ∈ claim.labels := by
  have h := (withinLimits_stable.run (.start (withinLimits_of_fresh hfresh)) hlimits hrun).shared
  refine ⟨h.pipelines, h.runners, fun row hmem row' hmem' hid => ?_, h.claims⟩
  have hfind := Table.find_of_mem hmem
  rw [hid, Table.find_of_mem hmem'] at hfind
  rw [Option.some.inj hfind]

/-- A second runner claims while the pipeline's only slot is taken, and again once it is free. -/
def claimTwice : List (Event JobInput JobAnswer) :=
  [.enter (.create plainBinds), .enter (.create plainBinds), .enter (.claim 1 "one" "hash" 2),
    .enter (.cancel 1), .advance 0 { now := 3 }, .advance 0 { now := 4 },
    .enter (.claim 2 "two" "hash" 5)]

theorem claims_within_limits_twice :
    ∃ c, jobs.run ⟨twoRunners, []⟩ claimTwice = some c ∧
      (∀ pipeline ∈ c.shared.db.pipelines.rows, ∀ limit, pipeline.maxConcurrent = some limit →
        0 < limit → activeCount c.shared.db.builds pipeline.id ≤ limit) ∧
      (∀ runner ∈ c.shared.runners.rows,
        heldCount c.shared.db.builds runner.id ≤ max runner.maxConcurrentBuilds 1) ∧
      (∀ row ∈ c.shared.db.builds.rows, ∀ row' ∈ c.shared.db.builds.rows, row.id = row'.id →
        row.runnerId = row'.runnerId) ∧
      ∀ claim ∈ c.shared.history.claims,
        claim.holder = none ∧ ∀ label ∈ claim.required, label ∈ claim.labels := by
  have hrun : (jobs.run ⟨twoRunners, []⟩ claimTwice).isSome = true := by decide +kernel
  obtain ⟨c, hc⟩ := Option.isSome_iff_exists.mp hrun
  refine ⟨c, hc, claims_within_limits twoRunners ⟨rfl, rfl⟩ claimTwice c ?_ hc⟩
  simp [claimTwice, Meets, Condition.Met, limitsNotLowered]

/-- The second runner finds no free slot while the first build is held. -/
example : (jobs.run ⟨twoRunners, []⟩ [.enter (.create plainBinds), .enter (.create plainBinds),
    .enter (.claim 1 "one" "hash" 2), .enter (.claim 2 "two" "hash" 3)]).isNone = true := by
  decide +kernel

end OoreBuild
