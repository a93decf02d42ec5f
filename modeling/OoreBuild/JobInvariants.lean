import OoreBuild.JobSteps

/-!
# Invariants of the build table

What holds in every state that any interleaving of the statements of `jobs` reaches: the columns
that go with a status (`RowOk`), the status changes, and the limits on claims.
-/

namespace OoreBuild

open Text Interleave

/-! ## Ids -/

theorem le_foldr_max_iff {l : List ℕ} {n m : ℕ} :
    n ≤ l.foldr max m ↔ n ≤ m ∨ ∃ k ∈ l, n ≤ k := by
  induction l with
  | nil => simp
  | cons k l ih =>
    rw [List.foldr_cons, le_max_iff, ih]
    simp only [List.mem_cons, exists_eq_or_imp]
    tauto

theorem lt_freshId_iff {db : Database} {n : ℕ} :
    n < freshId db ↔ n ≤ db.lastId ∨ ∃ row ∈ db.builds.rows, n ≤ row.id := by
  unfold freshId
  rw [Nat.lt_succ_iff, le_foldr_max_iff]
  simp

theorem lt_freshId_of_find {db : Database} {k : ℕ} {row : Build}
    (h : db.builds.find k = some row) : k < freshId db :=
  lt_freshId_iff.mpr (.inr ⟨row, Table.mem_of_find h, (Table.key_of_find h).ge⟩)

/-- Ids grow with the table: each id of the old table is an id of the new one or was deleted. -/
theorem freshId_le {db db' : Database} (hlast : db.lastId ≤ db'.lastId)
    (hrows : ∀ k row, db.builds.find k = some row →
      k ≤ db'.lastId ∨ ∃ row', db'.builds.find k = some row') : freshId db ≤ freshId db' := by
  refine le_of_forall_lt fun n hn => ?_
  rcases lt_freshId_iff.mp hn with h | ⟨row, hmem, h⟩
  · exact lt_freshId_iff.mpr (.inl (h.trans hlast))
  · rcases hrows _ row (Table.find_of_mem hmem) with hdeleted | ⟨row', hrow'⟩
    · exact lt_freshId_iff.mpr (.inl (h.trans hdeleted))
    · exact lt_of_le_of_lt h (lt_freshId_of_find hrow')

/-- A row stays, unless its finished build is deleted. -/
theorem Step.kept {s s' : JobStore} (h : Step s s') {k : ℕ} {row : Build}
    (hrow : s.db.builds.find k = some row) :
    (∃ row', s'.db.builds.find k = some row' ∧ RowStep s s' row row') ∨
      (s' = s.delete k ∧ row.status.isTerminal = true) := by
  cases h with
  | keep hbuilds _ _ => exact .inl ⟨row, hbuilds ▸ hrow, .same⟩
  | update writer p f hf hwrite hbuilds _ _ =>
    refine .inl ⟨_, by rw [hbuilds, find_update, hrow, Option.map_some], ?_⟩
    split
    · rename_i hp
      exact .write (hwrite row hp)
    · exact .same
  | preflight buildId now =>
    refine .inl ⟨_, by rw [find_update, hrow, Option.map_some], ?_⟩
    split
    · rename_i hp
      simp only [Bool.and_eq_true, decide_eq_true_eq] at hp
      exact .fail now hp.2
    · exact .same
  | transition op status now hvalid hfree hreported =>
    rcases transition_cases s op status now with heq | ⟨other, hother, hstatus, hdb, -, -⟩
    · rw [heq]
      exact .inl ⟨row, hrow, .same⟩
    · refine .inl ⟨_, by rw [hdb, find_update, hrow, Option.map_some], ?_⟩
      split
      · rename_i hid
        have hk : row.id = op.buildId := by simpa using hid
        rw [← Table.key_of_find hrow, hk, hother] at hrow
        obtain rfl := Option.some.inj hrow
        exact .write (.transition op.target op.results now (hstatus ▸ hvalid) hfree hreported)
      · exact .same
  | claim buildId runnerId hash now hclaim =>
    obtain ⟨other, runner, hfind, hrunner, hclaimable, hbuilds, -⟩ := claim_eq_some hclaim
    rw [hbuilds, Table.find_modify]
    split
    · rename_i hk
      rw [hk, hfind] at hrow
      obtain rfl := Option.some.inj hrow
      obtain rfl := Table.key_of_find hfind
      obtain rfl := Table.key_of_find hrunner
      rw [hfind]
      exact .inl ⟨_, rfl, .claim runner hash now hclaimable hclaim⟩
    · exact .inl ⟨row, hrow, .same⟩
  | create binds hcreate =>
    obtain ⟨-, hinsert, -⟩ := create_eq_some hcreate
    exact .inl ⟨_, find_of_insert hinsert hrow, rowStep_cancelSuperseded s s' binds _ row⟩
  | delete buildId hdone =>
    by_cases hk : k = buildId
    · exact .inr ⟨hk ▸ rfl, hdone row (hk ▸ hrow)⟩
    · refine .inl ⟨row, ?_, .same⟩
      change (s.db.builds.erase buildId).find k = some row
      rw [Table.find_erase, if_neg hk, hrow]
  | retry buildId steps now =>
    rcases queueRetry_cases s buildId steps now with heq | ⟨_, b, -, -, -, hinsert, -⟩
    · rw [heq]
      exact .inl ⟨row, hrow, .same⟩
    · exact .inl ⟨_, find_of_insert hinsert hrow, rowStep_cancelSuperseded s _ b _ row⟩

theorem Step.lastId_le {s s' : JobStore} (h : Step s s') : s.db.lastId ≤ s'.db.lastId := by
  cases h with
  | keep _ hlast _ => exact hlast.ge
  | update _ _ _ _ _ _ hlast _ => exact hlast.ge
  | preflight buildId now => exact le_rfl
  | transition op status now _ _ _ =>
    rcases transition_cases s op status now with heq | ⟨_, -, -, hdb, -⟩
    · rw [heq]
    · rw [hdb]
      exact le_rfl
  | claim _ _ _ _ hclaim =>
    obtain ⟨_, _, -, -, -, -, hlast, -⟩ := claim_eq_some hclaim
    exact hlast.ge
  | create binds hcreate =>
    obtain ⟨-, hinsert, -⟩ := create_eq_some hcreate
    obtain ⟨-, -, hdb⟩ := executeBuildInsert_eq_some hinsert
    rw [hdb]
  | delete buildId _ => exact le_max_left _ _
  | retry buildId steps now =>
    rcases queueRetry_cases s buildId steps now with heq | ⟨_, b, -, -, -, hinsert, -⟩
    · rw [heq]
    · obtain ⟨-, -, hdb⟩ := executeBuildInsert_eq_some hinsert
      rw [hdb]

theorem Step.freshId_le {s s' : JobStore} (h : Step s s') : freshId s.db ≤ freshId s'.db := by
  refine OoreBuild.freshId_le h.lastId_le fun k row hrow => ?_
  rcases h.kept hrow with ⟨row', hrow', -⟩ | ⟨rfl, -⟩
  · exact .inr ⟨row', hrow'⟩
  · exact .inl (le_max_right _ _)

/-! ## The calls under way -/

/-- A finished build stays finished. -/
theorem RowStep.terminal {s s' : JobStore} {row row' : Build} (h : RowStep s s' row row')
    (hdone : row.status.isTerminal = true) : row'.status.isTerminal = true := by
  cases h with
  | same => exact hdone
  | write h =>
    cases h with
    | transition target results now hvalid _ _ => exact isTerminal_of_canTransitionTo hvalid hdone
    | decide approve now hq _ =>
      rw [hq] at hdone
      cases hdone
    | cancel now hlive => rfl
    | drain now hs =>
      rw [hs] at hdone
      cases hdone
  | fail now _ => rfl
  | claim runner hash now hclaim _ =>
    rw [hclaim.queued] at hdone
    cases hdone

/-- A row with an id that was already given comes from the row of that id. -/
theorem Step.row_of_lt {s s' : JobStore} (h : Step s s') {k : ℕ} {row' : Build}
    (hk : k < freshId s.db) (hrow : s'.db.builds.find k = some row') :
    ∃ row, s.db.builds.find k = some row ∧ RowStep s s' row row' := by
  rcases h.row hrow with hold | ⟨binds, rfl, -⟩
  · exact hold
  · have hid := Table.key_of_find hrow
    change freshId s.db = k at hid
    omega

/-- What a call knows survives the statements of the others. -/
theorem Job.Sound.step {s s' : JobStore} {job : Job} (h : job.Sound s) (hstep : Step s s') :
    job.Sound s' := by
  cases job with
  | retire buildId full =>
    refine ⟨lt_of_lt_of_le h.1 hstep.freshId_le, fun row' hrow' => ?_⟩
    obtain ⟨row, hrow, hto⟩ := hstep.row_of_lt h.1 hrow'
    exact hto.terminal (h.2 row hrow)
  | _ => exact h

theorem sound_transitionsOf {s s' : JobStore} {p : Build → Bool} {op : Build → Transition}
    (hasked : ∀ row, (op row).Asked) :
    ∀ t ∈ (transitionsOf s p op).map Job.transition, t.Sound s' := by
  intro t ht
  obtain ⟨_, hmem, rfl⟩ := List.mem_map.mp ht
  obtain ⟨row, -, rfl⟩ := List.mem_map.mp hmem
  exact hasked row

/-- The calls that a request starts. -/
theorem sound_of_enter {s s' : JobStore} {x : JobInput} {ts : List Job}
    (h : jobs.enter s x = some (s', ts)) : ∀ t ∈ ts, t.Sound s' := by
  change enterJob s x = some (s', ts) at h
  cases x with
  | create binds =>
    obtain ⟨_, -, heq⟩ := Option.map_eq_some_iff.mp h
    cases heq
    simp
  | claim buildId runnerId hash now =>
    obtain ⟨_, -, heq⟩ := Option.map_eq_some_iff.mp h
    cases heq
    simp
  | preflight =>
    cases h
    intro t ht
    obtain ⟨_, -, rfl⟩ := List.mem_map.mp ht
    trivial
  | report runnerId buildId target results =>
    obtain ⟨op, hop, heq⟩ := Option.map_eq_some_iff.mp h
    cases heq
    rw [List.forall_mem_singleton]
    unfold updateJobStatus at hop
    split at hop
    · cases hop
    · split at hop
      · rename_i hguard
        cases hop
        simp only [Bool.and_eq_true, Bool.or_eq_true, decide_eq_true_eq] at hguard
        rcases hguard.2 with (rfl | rfl) | rfl <;> exact ⟨rfl, fun _ => rfl⟩
      · cases hop
  | release runnerId active =>
    cases h
    refine sound_transitionsOf fun row => ⟨?_, nofun⟩
    dsimp only
    split <;> rfl
  | requeue now =>
    cases h
    exact sound_transitionsOf fun _ => ⟨rfl, nofun⟩
  | timeOut now =>
    cases h
    exact sound_transitionsOf fun _ => ⟨rfl, nofun⟩
  | expireApprovals now =>
    cases h
    exact sound_transitionsOf fun _ => ⟨rfl, nofun⟩
  | cancel buildId =>
    cases h
    rw [List.forall_mem_singleton]
    exact ⟨rfl, nofun⟩
  | reload =>
    cases h
    exact sound_transitionsOf fun _ => ⟨rfl, nofun⟩
  | retention buildId full =>
    simp only [enterJob] at h
    split at h
    · rename_i hany
      cases h
      rw [List.forall_mem_singleton]
      cases hfind : s.db.builds.find buildId with
      | none =>
        rw [hfind] at hany
        cases hany
      | some row =>
        rw [hfind, Option.any_some, Bool.and_eq_true] at hany
        refine ⟨lt_freshId_of_find hfind, fun other hother => ?_⟩
        rw [hfind] at hother
        exact Option.some.inj hother ▸ hany.1
    · cases h
  | retry buildId step out =>
    simp only [enterJob] at h
    split at h
    · cases h
    · cases h
      rw [List.forall_mem_singleton]
      trivial
  | register runner =>
    simp only [enterJob] at h
    split at h <;> cases h
    simp
  | _ =>
    cases h
    simp

/-- The call after its next statement. -/
theorem sound_of_advance {s s' : JobStore} {job : Job} {job' : Option Job} {answer : JobAnswer}
    (hsound : job.Sound s) (h : jobs.advance s job answer = some (s', job')) :
    ∀ v ∈ job', v.Sound s' := by
  replace h : advanceJob s job answer = (s', job') := Option.some.inj h
  cases job with
  | transition op =>
    simp only [advanceJob] at h
    split at h
    · cases h
      simp
    · split at h
      · rename_i hvalid
        cases h
        intro v hv
        cases hv
        exact ⟨hsound, hvalid⟩
      · cases h
        simp
  | loaded op status =>
    cases h
    simp
  | preflight buildId =>
    cases h
    simp
  | retire buildId full =>
    simp only [advanceJob] at h
    split at h
    · cases h
      simp
    · cases h
      intro v hv
      cases hv
      exact ⟨rfl, fun h => by cases h⟩
  | retry buildId steps =>
    cases h
    simp

/-- A property of the store that every statement keeps, whatever the settings. -/
theorem jobs_stable {G : JobStore → Prop} (hG : ∀ s s', G s → Step s s' → G s') :
    Stable jobs .any G Job.Sound fun _ _ => True where
  symm _ _ _ := trivial
  enter _ _ _ _ hs _ h :=
    ⟨hG _ _ hs (step_of_enter h), sound_of_enter h, List.pairwise_of_forall fun _ _ => trivial⟩
  enterBeside _ _ _ _ _ _ _ h hu _ := ⟨hu.step (step_of_enter h), fun _ _ => trivial⟩
  advance _ _ _ _ _ hs ht _ h := ⟨hG _ _ hs (step_of_advance ht h), sound_of_advance ht h⟩
  advanceBeside _ _ _ _ _ _ _ ht _ h hu _ _ :=
    ⟨hu.step (step_of_advance ht h), fun _ _ => trivial⟩
  drop _ _ hs _ := hs
  dropBeside _ _ _ _ _ hu _ := hu
  restart _ hs := hs

/-- It holds in every state that is reached. -/
theorem jobs_invariant {G : JobStore → Prop} (hG : ∀ s s', G s → Step s s' → G s') {s : JobStore}
    (hs : G s) {events : List (Event JobInput JobAnswer)} {c : Config JobStore Job}
    (hrun : jobs.run ⟨s, []⟩ events = some c) : G c.shared :=
  ((jobs_stable hG).run (.start hs) (meets_any jobs _ _) hrun).shared

/-! ## The columns of a status -/

/-- The columns that go with a status: a runner and a signing grant only while a runner holds the
build, an end once it is finished, and an approval request only while it is queued. -/
structure RowOk (row : Build) : Prop where
  held : row.runnerId.isSome = true ∨ row.signingTokenHash.isSome = true →
    row.status = .assigned ∨ row.status = .running
  finished : row.finishedAt.isSome = true ↔ row.status.isTerminal = true
  pending : row.approvalState = some .pending → row.status = .queued

/-- The trigger takes care of the approval request. -/
theorem rowOk_withdrawPending {row : Build}
    (hheld : row.runnerId.isSome = true ∨ row.signingTokenHash.isSome = true →
      row.status = .assigned ∨ row.status = .running)
    (hfinished : row.finishedAt.isSome = true ↔ row.status.isTerminal = true) :
    RowOk (withdrawPending row) := by
  refine ⟨hheld, hfinished, fun hpending => ?_⟩
  unfold withdrawPending at hpending ⊢
  dsimp only at hpending ⊢
  by_contra hne
  split at hpending
  · cases hpending
  · rename_i hnot
    simp [hpending, hne] at hnot

theorem rowOk_transitionRow {row : Build} (h : RowOk row) {target : BuildStatus}
    (results : Option RunnerResults) (now : ℤ) (hvalid : row.status.canTransitionTo target = true)
    (hfree : target.isFree = true) :
    RowOk (withdrawPending (transitionRow target results now row)) := by
  refine rowOk_withdrawPending (fun hsome => ?_) ?_
  · -- only a target that takes no slot away keeps the runner
    cases target <;> simp [transitionRow, BuildStatus.isTerminal, BuildStatus.isFree] at hsome hfree ⊢
  · have hfinished := h.finished
    have hterminal := isTerminal_of_canTransitionTo hvalid
    unfold transitionRow
    dsimp only
    cases htarget : target.isTerminal <;> cases hsource : row.status.isTerminal <;>
      simp_all

theorem RowStep.rowOk {s s' : JobStore} {row row' : Build} (h : RowStep s s' row row') (hok : RowOk row) :
    RowOk row' := by
  cases h with
  | same => exact hok
  | write h =>
    cases h with
    | transition target results now hvalid hfree _ =>
      exact rowOk_transitionRow hok results now hvalid hfree
    | decide approve now hq _ =>
      have hnone : ¬(row.runnerId.isSome = true ∨ row.signingTokenHash.isSome = true) := by
        intro hsome
        rcases hok.held hsome with h | h <;> rw [hq] at h <;> cases h
      refine rowOk_withdrawPending (fun hsome => absurd hsome hnone) ?_
      have hfinished := hok.finished
      rw [hq] at hfinished
      cases approve
      · simp [decideRow, BuildStatus.isTerminal]
      · exact hfinished
    | cancel now _ =>
      exact rowOk_withdrawPending (by simp [cancelRow]) (by simp [cancelRow, BuildStatus.isTerminal])
    | drain now hs =>
      have hnone : ¬(row.runnerId.isSome = true ∨ row.signingTokenHash.isSome = true) := by
        intro hsome
        rcases hok.held hsome with h | h <;> rw [hs] at h <;> cases h
      have hfinished := hok.finished
      rw [hs] at hfinished
      exact rowOk_withdrawPending (fun hsome => absurd hsome hnone) hfinished
  | fail now hq =>
    have hnone : ¬(row.runnerId.isSome = true ∨ row.signingTokenHash.isSome = true) := by
      intro hsome
      rcases hok.held hsome with h | h <;> rw [hq] at h <;> cases h
    exact rowOk_withdrawPending (fun hsome => absurd hsome hnone)
      (by simp [failRow, BuildStatus.isTerminal])
  | claim runner hash now hclaim _ =>
    have hfinished := hok.finished
    rw [hclaim.queued] at hfinished
    exact ⟨fun _ => .inl rfl, hfinished, fun hpending => absurd hpending hclaim.approved⟩

theorem rowOk_newBuild (db : Database) (b : BuildInsertBinds) : RowOk (newBuild db b) :=
  ⟨by simp [newBuild], by simp [newBuild, BuildStatus.isTerminal], fun _ => rfl⟩

/-- Only a claim adds a claim. -/
theorem Step.claims {s s' : JobStore} (h : Step s s') :
    s'.history.claims = s.history.claims ∨
      ∃ row runner, Claimable s runner row ∧
        (∃ hash now, claimEligibleDirectRunnerBuild s row.id runner.id hash now = some s') ∧
        s'.history.claims = s.history.claims ++
          [⟨row.id, runner.id, row.snapshot.runsOn, runner.labels, row.approvalState, none⟩] := by
  cases h with
  | keep _ _ hhistory => exact .inl (by rw [hhistory])
  | update _ _ _ _ _ _ _ hhistory =>
    rw [hhistory]
    exact .inl rfl
  | preflight buildId now => exact .inl rfl
  | transition op status now _ _ _ =>
    rcases transition_cases s op status now with heq | ⟨_, -, -, -, -, hhistory⟩
    · exact .inl (by rw [heq])
    · exact .inl (by rw [hhistory])
  | claim buildId runnerId hash now hclaim =>
    obtain ⟨row, runner, hrow, hrunner, hclaimable, -, -, -, -, hhistory⟩ := claim_eq_some hclaim
    obtain rfl := Table.key_of_find hrow
    obtain rfl := Table.key_of_find hrunner
    exact .inr ⟨row, runner, hclaimable, ⟨hash, now, hclaim⟩, by rw [hhistory]⟩
  | create binds hcreate =>
    obtain ⟨-, -, -, hhistory⟩ := create_eq_some hcreate
    exact .inl (by rw [hhistory])
  | delete buildId _ => exact .inl rfl
  | retry buildId steps now =>
    rcases queueRetry_cases s buildId steps now with heq | ⟨_, _, -, -, -, -, -, hhistory⟩
    · exact .inl (by rw [heq])
    · exact .inl (by rw [hhistory])

/-- Every row has the columns of its status, and no claim was made on a pending approval. -/
def ColumnsOk (s : JobStore) : Prop :=
  (∀ row ∈ s.db.builds.rows, RowOk row) ∧
    ∀ claim ∈ s.history.claims, claim.approvalState ≠ some .pending

theorem ColumnsOk.step {s s' : JobStore} (h : ColumnsOk s) (hstep : Step s s') : ColumnsOk s' := by
  constructor
  · refine Table.forall_mem_iff.mpr fun k row' hrow' => ?_
    rcases hstep.row hrow' with ⟨row, hrow, hto⟩ | ⟨binds, rfl, -⟩
    · exact hto.rowOk (h.1 row (Table.mem_of_find hrow))
    · exact rowOk_newBuild s.db binds
  · rcases hstep.claims with heq | ⟨row, runner, hclaimable, -, heq⟩
    · rw [heq]
      exact h.2
    · rw [heq]
      intro claim hmem
      rcases List.mem_append.mp hmem with hold | hnew
      · exact h.2 claim hold
      · rw [List.mem_singleton.mp hnew]
        exact hclaimable.approved

theorem columnsOk_of_fresh {s : JobStore} (h : s.Fresh) : ColumnsOk s := by
  obtain ⟨hrows, hhistory⟩ := h
  constructor
  · rw [hrows]
    simp
  · rw [hhistory]
    simp

/-- In every state of the build table that is reached, a build has a runner and a signing grant
only while it is assigned or running, an end exactly when it is finished, and a pending approval
only while it is queued; and a build whose approval is pending was never claimed. -/
theorem builds_columns (s : JobStore) (hfresh : s.Fresh)
    (events : List (Event JobInput JobAnswer)) (c : Config JobStore Job)
    (hrun : jobs.run ⟨s, []⟩ events = some c) :
    (∀ row ∈ c.shared.db.builds.rows,
      (row.runnerId.isSome = true ∨ row.signingTokenHash.isSome = true →
        row.status = .assigned ∨ row.status = .running) ∧
      (row.finishedAt.isSome = true ↔ row.status.isTerminal = true) ∧
      (row.approvalState = some .pending → row.status = .queued)) ∧
    ∀ claim ∈ c.shared.history.claims, claim.approvalState ≠ some .pending := by
  have h := jobs_invariant (fun _ _ h hstep => ColumnsOk.step h hstep) (columnsOk_of_fresh hfresh)
    hrun
  exact ⟨fun row hrow => ⟨(h.1 row hrow).held, (h.1 row hrow).finished, (h.1 row hrow).pending⟩,
    h.2⟩

/-- A pipeline that runs one build at a time. -/
def oneAtATime : Pipeline where
  id := "l"
  projectId := "p"
  enabled := true
  configPath := ".oore.yaml"
  platforms := []
  triggerConfig :=
    { events := [], branches := [], tags := [], paths := [], pathsIgnore := [], schedules := [] }
  cancelPrevious := false
  approvalPolicy := { required := false, events := [] }
  workflow := none
  maxConcurrent := some 1

/-- The tables of a project with the pipeline and no builds. -/
def oneProject : Database where
  projects := ⟨[{ id := "p", repositoryId := some ("r" : Text), defaultBranch := none }],
    List.nodup_singleton _⟩
  repositories := ⟨[{ id := "r", integrationId := "i", fullName := "o/r"
                      repoUrl := some ("https://git/o/r.git" : Text) }], List.nodup_singleton _⟩
  pipelines := ⟨[oneAtATime], List.nodup_singleton _⟩
  settings := ⟨[], Text.nodup_pairs_nil⟩
  identities := ⟨[], List.nodup_nil⟩
  builds := ⟨[], List.nodup_nil⟩
  claims := []

/-- The project and two runners. -/
def twoRunners : JobStore where
  db := oneProject
  runners := ⟨[{ id := "one", labels := ["macos"], maxConcurrentBuilds := 1 },
    { id := "two", labels := ["macos"], maxConcurrentBuilds := 1 }], by decide +kernel⟩
  paused := false
  blocked := []
  history := {}

/-- A build of the pipeline. -/
def plainBinds : BuildInsertBinds where
  projectId := "p"
  pipelineId := "l"
  commitSha := none
  branch := some ("main" : Text)
  snapshot := createConfigSnapshot "r" "https://git/o/r.git" none
  webhookId := none
  now := 1
  sourceBuildId := none
  cancelPrevious := false
  approvalRequired := false

/-- A runner claims the build and reports that it runs. -/
def claimAndStart : List (Event JobInput JobAnswer) :=
  [.enter (.create plainBinds), .enter (.claim 1 "one" "hash" 2),
    .enter (.report "one" 1 .running none), .advance 0 { now := 3 }, .advance 0 { now := 4 }]

theorem builds_columns_started :
    ∃ c, jobs.run ⟨twoRunners, []⟩ claimAndStart = some c ∧
      (∀ row ∈ c.shared.db.builds.rows,
        (row.runnerId.isSome = true ∨ row.signingTokenHash.isSome = true →
          row.status = .assigned ∨ row.status = .running) ∧
        (row.finishedAt.isSome = true ↔ row.status.isTerminal = true) ∧
        (row.approvalState = some .pending → row.status = .queued)) ∧
      ∀ claim ∈ c.shared.history.claims, claim.approvalState ≠ some .pending := by
  have hrun : (jobs.run ⟨twoRunners, []⟩ claimAndStart).isSome = true := by decide +kernel
  obtain ⟨c, hc⟩ := Option.isSome_iff_exists.mp hrun
  exact ⟨c, hc, builds_columns twoRunners ⟨rfl, rfl⟩ claimAndStart c hc⟩

example : ((jobs.run ⟨twoRunners, []⟩ claimAndStart).map fun c =>
    c.shared.db.builds.rows.map fun row => (row.status, row.runnerId)) =
      some [(.running, some "one".toList)] := by decide +kernel

/-! ## Status changes -/

/-- The table of transitions lists the change. -/
def StatusChange.Listed (change : StatusChange) : Prop :=
  change.source ≠ change.target → change.source.canTransitionTo change.target = true

/-- The credential preflight fails a queued build. -/
def StatusChange.FailedByPreflight (change : StatusChange) : Prop :=
  change.writer = .preflight ∧ change.source = .queued ∧ change.target = .failed

theorem canTransitionTo_canceled {status : BuildStatus} (h : status.isTerminal = false) :
    status.canTransitionTo .canceled = true := by
  revert h
  cases status <;> decide

theorem RowWrite.listed {row row' : Build} (h : RowWrite row row') (hne : row.status ≠ row'.status) :
    row.status.canTransitionTo row'.status = true := by
  cases h with
  | transition target results now hvalid _ _ => exact hvalid
  | decide approve now hq _ =>
    cases approve
    · rw [hq]
      rfl
    · exact absurd hq hne
  | cancel now hlive => exact canTransitionTo_canceled hlive
  | drain now hs =>
    rw [hs]
    rfl

/-- A new status change is one the table lists, or the preflight's. -/
theorem Step.changes {s s' : JobStore} (h : Step s s') :
    ∀ change ∈ s'.history.changes,
      change ∈ s.history.changes ∨ change.Listed ∨ change.FailedByPreflight := by
  intro change hmem
  cases h with
  | keep _ _ hhistory => exact .inl (hhistory ▸ hmem)
  | update writer p f hf hwrite _ _ hhistory =>
    rw [hhistory] at hmem
    rcases List.mem_append.mp hmem with hold | hnew
    · exact .inl hold
    · obtain ⟨row, hrow, rfl⟩ := List.mem_map.mp hnew
      exact .inr (.inl (hwrite row (List.mem_filter.mp hrow).2).listed)
  | preflight buildId now =>
    rcases List.mem_append.mp hmem with hold | hnew
    · exact .inl hold
    · obtain ⟨row, hrow, rfl⟩ := List.mem_map.mp hnew
      have hguard := (List.mem_filter.mp hrow).2
      simp only [Bool.and_eq_true, decide_eq_true_eq] at hguard
      exact .inr (.inr ⟨rfl, hguard.2, rfl⟩)
  | transition op status now hvalid _ _ =>
    rcases transition_cases s op status now with heq | ⟨_, -, -, -, -, hhistory⟩
    · exact .inl (heq ▸ hmem)
    · rw [hhistory] at hmem
      rcases List.mem_append.mp hmem with hold | hnew
      · exact .inl hold
      · rw [List.mem_singleton.mp hnew]
        exact .inr (.inl fun _ => hvalid)
  | claim buildId runnerId hash now hclaim =>
    obtain ⟨_, _, -, -, -, -, -, -, -, hhistory⟩ := claim_eq_some hclaim
    rw [hhistory] at hmem
    rcases List.mem_append.mp hmem with hold | hnew
    · exact .inl hold
    · -- both halves of the claim are in the table
      right
      left
      intro _
      rcases List.mem_cons.mp hnew with rfl | hnew
      · rfl
      · rw [List.mem_singleton.mp hnew]
        rfl
  | create binds hcreate =>
    obtain ⟨-, -, -, hhistory⟩ := create_eq_some hcreate
    rw [hhistory] at hmem
    rcases List.mem_append.mp hmem with hold | hnew
    · exact .inl hold
    · obtain ⟨row, hrow, rfl⟩ := List.mem_map.mp hnew
      have hguard := (List.mem_filter.mp hrow).2
      unfold supersedes at hguard
      simp only [Bool.and_eq_true, Bool.not_eq_true'] at hguard
      exact .inr (.inl fun _ => canTransitionTo_canceled hguard.2)
  | delete buildId _ => exact .inl hmem
  | retry buildId steps now =>
    rcases queueRetry_cases s buildId steps now with heq | ⟨_, _, -, -, -, -, -, hhistory⟩
    · exact .inl (heq ▸ hmem)
    · rw [hhistory] at hmem
      exact .inl hmem

/-- Every status change, through `transition_build` or by a direct update, is one that the table
of transitions lists, except that the credential preflight fails queued builds. -/
theorem status_changes_listed (s : JobStore) (hfresh : s.Fresh)
    (events : List (Event JobInput JobAnswer)) (c : Config JobStore Job)
    (hrun : jobs.run ⟨s, []⟩ events = some c) :
    ∀ change ∈ c.shared.history.changes, change.source ≠ change.target →
      change.source.canTransitionTo change.target = true ∨
        (change.writer = .preflight ∧ change.source = .queued ∧ change.target = .failed) := by
  have h := jobs_invariant
    (G := fun s => ∀ change ∈ s.history.changes, change.Listed ∨ change.FailedByPreflight)
    (fun s s' h hstep change hmem => (hstep.changes change hmem).elim (h change) id)
    (by simp [hfresh.2]) hrun
  exact fun change hmem hne => (h change hmem).imp_left fun hlisted => hlisted hne

theorem status_changes_listed_started :
    ∃ c, jobs.run ⟨twoRunners, []⟩ claimAndStart = some c ∧
      ∀ change ∈ c.shared.history.changes, change.source ≠ change.target →
        change.source.canTransitionTo change.target = true ∨
          (change.writer = .preflight ∧ change.source = .queued ∧ change.target = .failed) := by
  have hrun : (jobs.run ⟨twoRunners, []⟩ claimAndStart).isSome = true := by decide +kernel
  obtain ⟨c, hc⟩ := Option.isSome_iff_exists.mp hrun
  exact ⟨c, hc, status_changes_listed twoRunners ⟨rfl, rfl⟩ claimAndStart c hc⟩

/-- The credentials of the source expire while a build is queued. -/
def failedByPreflight : List (Event JobInput JobAnswer) :=
  [.enter (.create plainBinds), .enter (.setBlocked ["i"]), .enter .preflight,
    .advance 0 { now := 2 }]

/-- The table of transitions does not list what the credential preflight does. -/
theorem preflight_change_not_listed :
    ¬∀ (s : JobStore), s.Fresh → ∀ (events : List (Event JobInput JobAnswer))
      (c : Config JobStore Job), jobs.run ⟨s, []⟩ events = some c →
      ∀ change ∈ c.shared.history.changes, change.source ≠ change.target →
        change.source.canTransitionTo change.target = true := by
  intro h
  have hchanges : ((jobs.run ⟨twoRunners, []⟩ failedByPreflight).map fun c =>
      c.shared.history.changes) = some [⟨.preflight, 1, .queued, .failed⟩] := by decide +kernel
  obtain ⟨c, hc, hlog⟩ := Option.map_eq_some_iff.mp hchanges
  have hlisted := h twoRunners ⟨rfl, rfl⟩ failedByPreflight c hc ⟨.preflight, 1, .queued, .failed⟩
    (by rw [hlog]; exact List.mem_singleton_self _) (by decide)
  cases hlisted

end OoreBuild
