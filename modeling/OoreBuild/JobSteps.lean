import OoreBuild.Jobs

/-!
# What one statement does to the build table

`Step` lists the statements of `jobs` that write builds, and `RowWrite` what they do to a row.
`step_of_enter` and `step_of_advance` say that there are no others, so an invariant is checked
against `Step` and `RowWrite` only.
-/

namespace OoreBuild

open Text

/-! ## Statuses -/

/-- Statuses that `transition_build` is called for: only a claim schedules and assigns. -/
def BuildStatus.isFree : BuildStatus → Bool
  | scheduled | assigned => false
  | _ => true

/-- Statuses that a runner reports, with its results. -/
def BuildStatus.isReported : BuildStatus → Bool
  | running | succeeded | failed => true
  | _ => false

theorem isTerminal_of_canTransitionTo {status target : BuildStatus}
    (h : status.canTransitionTo target = true) (hs : status.isTerminal = true) :
    target.isTerminal = true := by
  revert h hs
  cases status <;> cases target <;> decide

/-- A transition to a status that takes a slot starts from one. -/
theorem isHeld_of_canTransitionTo {status target : BuildStatus}
    (h : status.canTransitionTo target = true) (hfree : target.isFree = true)
    (ht : target.isActive = true) : status = .assigned ∧ target = .running := by
  revert h hfree ht
  cases status <;> cases target <;> decide

/-! ## Rows -/

/-- What the statements that keep to the table of transitions write to a row, before the trigger on
its status. -/
inductive RowWrite (row : Build) : Build → Prop where
  | transition (target : BuildStatus) (results : Option RunnerResults) (now : ℤ)
      (hvalid : row.status.canTransitionTo target = true) (hfree : target.isFree = true)
      (hreported : results.isSome = true → target.isReported = true) :
      RowWrite row (transitionRow target results now row)
  | decide (approve : Bool) (now : ℤ) (h : row.status = .queued)
      (hpending : row.approvalState = some .pending) : RowWrite row (decideRow approve now row)
  | cancel (now : ℤ) (h : row.status.isTerminal = false) : RowWrite row (cancelRow now row)
  | drain (now : ℤ) (h : row.status = .scheduled) : RowWrite row (drainRow now row)

/-- What a claim requires of the build and its runner. -/
structure Claimable (s : JobStore) (runner : Runner) (row : Build) : Prop where
  queued : row.status = .queued
  approved : row.approvalState ≠ some .pending
  slot : pipelineHasFreeSlot s.db row.pipelineId = true
  labels : ∀ label ∈ row.snapshot.runsOn, label ∈ runner.labels
  held : heldCount s.db.builds runner.id < max runner.maxConcurrentBuilds 1
  free : row.runnerId = none

/-! ## Statements -/

/-- What one statement does to the builds and their history. -/
inductive Step (s : JobStore) : JobStore → Prop where
  | keep {s' : JobStore} (hbuilds : s'.db.builds = s.db.builds) (hlast : s'.db.lastId = s.db.lastId)
      (hhistory : s'.history = s.history) : Step s s'
  | update {s' : JobStore} (writer : StatusWriter) (p : Build → Bool) (f : Build → Build)
      (hf : ∀ row, (f row).id = row.id) (hwrite : ∀ row, p row = true → RowWrite row (f row))
      (hbuilds : s'.db.builds = (s.update writer p f hf).db.builds)
      (hlast : s'.db.lastId = s.db.lastId)
      (hhistory : s'.history = (s.update writer p f hf).history) : Step s s'
  | preflight (buildId : ℕ) (now : ℤ) :
      Step s (s.update .preflight (fun row => row.id = buildId && row.status = .queued)
        (failRow now) (failRow_id now))
  | transition (op : Transition) (status : BuildStatus) (now : ℤ)
      (hvalid : status.canTransitionTo op.target = true) (hfree : op.target.isFree = true)
      (hreported : op.results.isSome = true → op.target.isReported = true) :
      Step s (s.transition op status now)
  | claim {s' : JobStore} (buildId : ℕ) (runnerId hash : Text) (now : ℤ)
      (h : claimEligibleDirectRunnerBuild s buildId runnerId hash now = some s') : Step s s'
  | create {s' : JobStore} (binds : BuildInsertBinds) (h : s.create binds = some s') : Step s s'
  | delete (buildId : ℕ)
      (hdone : ∀ row, s.db.builds.find buildId = some row → row.status.isTerminal = true) :
      Step s (s.delete buildId)
  | retry (buildId : ℕ) (steps : List Text) (now : ℤ) : Step s (s.queueRetry buildId steps now)

/-- A transition that some caller asks for. -/
structure Transition.Asked (op : Transition) : Prop where
  free : op.target.isFree = true
  reported : op.results.isSome = true → op.target.isReported = true

/-- What the calls under way know. -/
def Job.Sound (s : JobStore) : Job → Prop
  | .transition op => op.Asked
  | .loaded op status => op.Asked ∧ status.canTransitionTo op.target = true
  | .retire buildId _ => buildId < freshId s.db ∧
      ∀ row, s.db.builds.find buildId = some row → row.status.isTerminal = true
  | _ => True

theorem step_update {s : JobStore} (writer : StatusWriter) (p : Build → Bool) (f : Build → Build)
    (hf : ∀ row, (f row).id = row.id) (hwrite : ∀ row, p row = true → RowWrite row (f row)) :
    Step s (s.update writer p f hf) := .update writer p f hf hwrite rfl rfl rfl

/-- Every request makes at most one statement that writes builds. -/
theorem step_of_enter {s s' : JobStore} {x : JobInput} {ts : List Job}
    (h : jobs.enter s x = some (s', ts)) : Step s s' := by
  change enterJob s x = some (s', ts) at h
  cases x with
  | create binds =>
    obtain ⟨s'', hs, heq⟩ := Option.map_eq_some_iff.mp h
    cases heq
    exact .create binds hs
  | claim buildId runnerId hash now =>
    obtain ⟨s'', hs, heq⟩ := Option.map_eq_some_iff.mp h
    cases heq
    exact .claim buildId runnerId hash now hs
  | report runnerId buildId target results =>
    obtain ⟨op, -, heq⟩ := Option.map_eq_some_iff.mp h
    cases heq
    exact .keep rfl rfl rfl
  | retention buildId full =>
    simp only [enterJob] at h
    split at h
    · cases h
      exact .keep rfl rfl rfl
    · cases h
  | retry buildId step out =>
    simp only [enterJob] at h
    split at h
    · cases h
    · cases h
      exact .keep rfl rfl rfl
  | register runner =>
    simp only [enterJob] at h
    split at h
    · cases h
      exact .keep rfl rfl rfl
    · cases h
  | decide buildId approve now =>
    cases h
    refine step_update _ _ _ (decideRow_id approve now) fun row hrow => ?_
    simp only [Bool.and_eq_true, decide_eq_true_eq] at hrow
    exact .decide approve now hrow.1.2 hrow.2
  | changeSource projectId repositoryId now =>
    cases h
    refine .update _ _ _ (cancelRow_id now) (fun row hrow => .cancel now ?_) rfl rfl rfl
    simp only [Bool.and_eq_true, Bool.or_eq_true, decide_eq_true_eq] at hrow
    rcases hrow.2 with hs | hs <;> rw [hs] <;> rfl
  | removeRepositories repositoryIds now =>
    cases h
    refine step_update _ _ _ (cancelRow_id now) fun row hrow => .cancel now ?_
    simp only [Bool.and_eq_true, Bool.or_eq_true, decide_eq_true_eq] at hrow
    rcases hrow.2 with hs | hs <;> rw [hs] <;> rfl
  | drain now =>
    cases h
    refine step_update _ _ _ (drainRow_id now) fun row hrow => .drain now ?_
    simp only [Bool.and_eq_true, decide_eq_true_eq] at hrow
    exact hrow.1
  | _ =>
    cases h
    exact .keep rfl rfl rfl

/-- Every statement of a call writes builds in one of these ways. -/
theorem step_of_advance {s s' : JobStore} {job : Job} {job' : Option Job} {answer : JobAnswer}
    (hsound : job.Sound s) (h : jobs.advance s job answer = some (s', job')) : Step s s' := by
  replace h : advanceJob s job answer = (s', job') := Option.some.inj h
  cases job with
  | transition op =>
    simp only [advanceJob] at h
    split at h
    · cases h
      exact .keep rfl rfl rfl
    · split at h <;> cases h <;> exact .keep rfl rfl rfl
  | loaded op status =>
    cases h
    exact .transition op status answer.now hsound.2 hsound.1.free hsound.1.reported
  | preflight buildId =>
    cases h
    exact .preflight buildId answer.now
  | retire buildId full =>
    simp only [advanceJob] at h
    split at h
    · cases h
      exact .delete buildId hsound.2
    · cases h
      exact .keep rfl rfl rfl
  | retry buildId steps =>
    cases h
    exact .retry buildId steps answer.now

/-! ## Inversion -/

theorem find_update (s : JobStore) (writer : StatusWriter) (p : Build → Bool) (f : Build → Build)
    (hf : ∀ row, (f row).id = row.id) (k : ℕ) :
    (s.update writer p f hf).db.builds.find k =
      (s.db.builds.find k).map fun row => if p row then withdrawPending (f row) else row := by
  unfold JobStore.update
  rw [Table.find_mapRows]

/-- An update by id writes one row. -/
theorem changes_update_id {s : JobStore} {k : ℕ} {row : Build} (writer : StatusWriter)
    (f : Build → Build) (hf : ∀ row, (f row).id = row.id) (h : s.db.builds.find k = some row) :
    (s.update writer (·.id = k) f hf).history.changes =
      s.history.changes ++ [⟨writer, k, row.status, (f row).status⟩] := by
  unfold JobStore.update
  dsimp only
  rw [Table.filter_key_of_find h, List.map_singleton, Table.key_of_find h]

theorem rows_update_id {s : JobStore} {k : ℕ} {row : Build} (writer : StatusWriter)
    (f : Build → Build) (hf : ∀ row, (f row).id = row.id) (h : s.db.builds.find k = some row) :
    (s.update writer (·.id = k) f hf).db.builds.rows =
      s.db.builds.rows.map fun other => if other.id = k then withdrawPending (f row) else other := by
  refine List.map_congr_left fun other hother => ?_
  by_cases hk : other.id = k
  · have hfind := Table.find_of_mem hother
    rw [hk, h] at hfind
    rw [if_pos (by simpa using hk), if_pos hk, Option.some.inj hfind]
  · rw [if_neg (by simpa using hk), if_neg hk]

/-- The labels a claim compares. -/
theorem runnerEligible_iff {s : JobStore} {runner : Runner} {row : Build} :
    runnerEligible s runner row = true ↔ (∀ label ∈ row.snapshot.runsOn, label ∈ runner.labels) ∧
      heldCount s.db.builds runner.id < max runner.maxConcurrentBuilds 1 := by
  simp [runnerEligible]

/-- The two updates of a claim, on a row that waits for no approval. -/
theorem withdrawPending_claim {row : Build} (h : row.approvalState ≠ some .pending)
    (runnerId hash : Text) (now : ℤ) :
    withdrawPending (claimRow runnerId hash now
      (withdrawPending (scheduleRow now row))) = claimRow runnerId hash now row := by
  simp [withdrawPending, claimRow, scheduleRow, h]

theorem uploads_update_id {s : JobStore} {k : ℕ} {row : Build} (writer : StatusWriter)
    (f : Build → Build) (hf : ∀ row, (f row).id = row.id) (h : s.db.builds.find k = some row) :
    (s.update writer (·.id = k) f hf).history.uploads =
      s.history.uploads ++ finishedUploads s.history (f row) := by
  unfold JobStore.update
  dsimp only
  rw [Table.filter_key_of_find h, List.flatMap_singleton]

/-- A claim takes one claimable row to assigned, through scheduled. -/
theorem claim_eq_some {s s' : JobStore} {buildId : ℕ} {runnerId hash : Text} {now : ℤ}
    (h : claimEligibleDirectRunnerBuild s buildId runnerId hash now = some s') :
    ∃ row runner, s.db.builds.find buildId = some row ∧ s.runners.find runnerId = some runner ∧
      Claimable s runner row ∧
      s'.db.builds = s.db.builds.modify buildId (claimRow runnerId hash now)
        (claimRow_id runnerId hash now) ∧
      s'.db.lastId = s.db.lastId ∧ s'.db.pipelines = s.db.pipelines ∧ s'.runners = s.runners ∧
      s'.history = { s.history with
        changes := s.history.changes ++
          [⟨.claim, buildId, .queued, .scheduled⟩, ⟨.claim, buildId, .scheduled, .assigned⟩]
        claims := s.history.claims ++
          [⟨buildId, runnerId, row.snapshot.runsOn, runner.labels, row.approvalState, none⟩] } := by
  unfold claimEligibleDirectRunnerBuild at h
  split at h
  · rename_i row runner hrow hrunner
    split at h
    · rename_i hguard
      simp only [Bool.and_eq_true, decide_eq_true_eq, runnerEligible_iff,
        Option.isNone_iff_eq_none] at hguard
      obtain ⟨⟨⟨⟨⟨hqueued, hpending⟩, hslot⟩, hlabels, hheld⟩, -⟩, hfree⟩ := hguard
      cases h
      have hmid := find_update s .claim (·.id = buildId) (scheduleRow now) (scheduleRow_id now) buildId
      rw [hrow, Option.map_some, if_pos (by simpa using Table.key_of_find hrow)] at hmid
      refine ⟨row, runner, hrow, hrunner, ⟨hqueued, hpending, hslot, hlabels, hheld, hfree⟩, ?_,
        rfl, rfl, rfl, ?_⟩
      · refine Table.ext ?_
        refine (rows_update_id .claim _ (claimRow_id runnerId hash now) hmid).trans ?_
        rw [rows_update_id _ _ _ hrow, withdrawPending_claim hpending, List.map_map]
        refine List.map_congr_left fun other hother => ?_
        by_cases hk : other.id = buildId
        · have hfind := Table.find_of_mem hother
          rw [hk, hrow] at hfind
          obtain rfl := Option.some.inj hfind
          simp only [Function.comp_apply, if_pos hk]
          exact if_pos hk
        · simp [hk]
      · have hchanges := changes_update_id .claim _ (claimRow_id runnerId hash now) hmid
        rw [changes_update_id _ _ _ hrow, hqueued, List.append_assoc] at hchanges
        have huploads := uploads_update_id .claim _ (claimRow_id runnerId hash now) hmid
        rw [uploads_update_id _ _ _ hrow, List.append_assoc] at huploads
        rw [hfree]
        change History.mk _ _ _ _ _ _ = History.mk _ _ _ _ _ _
        congr 1
        exact huploads.trans (List.append_nil _)
    · cases h
  · cases h

/-- A creation is an insert. -/
theorem create_eq_some {s s' : JobStore} {binds : BuildInsertBinds} (h : s.create binds = some s') :
    binds.snapshot.retrySteps = [] ∧ executeBuildInsert s.db binds = some s'.db ∧
      s'.runners = s.runners ∧
      s'.history = { s.history with
        changes := s.history.changes ++
          (s.db.builds.rows.filter (supersedes binds (newBuild s.db binds))).map fun row =>
            ⟨.superseding, row.id, row.status, .canceled⟩
        uploads := s.history.uploads ++
          (s.db.builds.rows.filter (supersedes binds (newBuild s.db binds))).flatMap fun row =>
            finishedUploads s.history (cancelRow binds.now row) } := by
  unfold JobStore.create at h
  split at h
  · cases h
  · rename_i hsteps
    obtain ⟨db, hdb, rfl⟩ := Option.map_eq_some_iff.mp h
    exact ⟨not_not.mp hsteps, hdb, rfl, rfl⟩

/-- A request adds to the claims, where it is one, to the status changes and to the uploads. -/
theorem history_of_enter {s s' : JobStore} {x : JobInput} {ts : List Job}
    (h : jobs.enter s x = some (s', ts)) :
    ∃ claims changes uploads, s'.history = { s.history with claims, changes, uploads } ∧
      (claims = s.history.claims ∨
        ∃ buildId runnerId hash now claim, x = .claim buildId runnerId hash now ∧
          claim.buildId = buildId ∧ claims = s.history.claims ++ [claim]) := by
  change enterJob s x = some (s', ts) at h
  cases x with
  | claim buildId runnerId hash now =>
    obtain ⟨_, hs, heq⟩ := Option.map_eq_some_iff.mp h
    cases heq
    obtain ⟨_, _, -, -, -, -, -, -, -, hhistory⟩ := claim_eq_some hs
    exact ⟨_, _, _, hhistory, .inr ⟨buildId, runnerId, hash, now, _, rfl, rfl, rfl⟩⟩
  | create binds =>
    obtain ⟨_, hs, heq⟩ := Option.map_eq_some_iff.mp h
    cases heq
    obtain ⟨-, -, -, hhistory⟩ := create_eq_some hs
    exact ⟨_, _, _, hhistory, .inl rfl⟩
  | report runnerId buildId target results =>
    obtain ⟨_, -, heq⟩ := Option.map_eq_some_iff.mp h
    cases heq
    exact ⟨_, _, _, rfl, .inl rfl⟩
  | retention buildId full =>
    simp only [enterJob] at h
    split at h <;> cases h
    exact ⟨_, _, _, rfl, .inl rfl⟩
  | retry buildId step out =>
    simp only [enterJob] at h
    split at h <;> cases h
    exact ⟨_, _, _, rfl, .inl rfl⟩
  | register runner =>
    simp only [enterJob] at h
    split at h <;> cases h
    exact ⟨_, _, _, rfl, .inl rfl⟩
  | _ =>
    cases h
    exact ⟨_, _, _, rfl, .inl rfl⟩

/-- The insert of a retry. -/
structure RetryBinds (buildId : ℕ) (steps : List Text) (b : BuildInsertBinds) : Prop where
  source : b.sourceBuildId = some buildId
  steps : b.snapshot.retrySteps = steps
  keeps : b.cancelPrevious = false

/-- A retry that is queued is inserted for a finished build. -/
theorem queueRerun_retry {db after : Database} {out : RerunOutside} {buildId : ℕ}
    {steps : List Text} {retry : Build}
    (h : queueRerun db out buildId (some steps) = .ok (after, retry)) :
    ∃ source b, db.builds.find buildId = some source ∧ source.status.isTerminal = true ∧
      RetryBinds buildId steps b ∧ executeBuildInsert db b = some after ∧
      retry = newBuild db b := by
  unfold queueRerun at h
  simp only [bind_eq_ok, orError_eq_ok] at h
  obtain ⟨source, hsource, _, hterminal, _, -, _, -, _, -, _, -, _, -, pipeline, -, h⟩ := h
  have hdone : source.status.isTerminal = true := by
    unfold checkTerminal at hterminal
    split at hterminal
    · assumption
    · cases hterminal
  split at h
  · rename_i hinsert
    cases h
    exact ⟨source, _, hsource, hdone, ⟨rfl, rfl, rfl⟩, hinsert, rfl⟩
  · cases h
  · cases h

/-- What queueing a retry does: nothing, or one insert. -/
theorem queueRetry_cases (s : JobStore) (buildId : ℕ) (steps : List Text) (now : ℤ) :
    s.queueRetry buildId steps now = s ∨
      ∃ source b, s.db.builds.find buildId = some source ∧ source.status.isTerminal = true ∧
        RetryBinds buildId steps b ∧
        executeBuildInsert s.db b = some (s.queueRetry buildId steps now).db ∧
        (s.queueRetry buildId steps now).runners = s.runners ∧
        (s.queueRetry buildId steps now).history = { s.history with
          origins := ((newBuild s.db b).id, s.history.origin buildId) :: s.history.origins
          retries := s.history.retries ++ [⟨s.history.origin buildId, steps,
            (s.history.uploads.filter (·.1 = s.history.origin buildId)).map (·.2)⟩] } := by
  unfold JobStore.queueRetry
  split
  · exact .inl rfl
  · rename_i db retry hok
    obtain ⟨source, b, hsource, hdone, hbinds, hinsert, rfl⟩ := queueRerun_retry hok
    exact .inr ⟨source, b, hsource, hdone, hbinds, hinsert, rfl, rfl⟩

/-- What a transition does: nothing, or one write of its row. -/
theorem transition_cases (s : JobStore) (op : Transition) (status : BuildStatus) (now : ℤ) :
    s.transition op status now = s ∨
      ∃ row, s.db.builds.find op.buildId = some row ∧ row.status = status ∧
        (s.transition op status now).db =
          (s.update .transition (·.id = op.buildId) (transitionRow op.target op.results now)
            (transitionRow_id op.target op.results now)).db ∧
        (s.transition op status now).runners = s.runners ∧
        (s.transition op status now).history = { s.history with
          changes := s.history.changes ++ [⟨.transition, op.buildId, status, op.target⟩]
          applied := s.history.applied ++
            (op.basis.map fun basis => ⟨basis, s.holder row⟩).toList
          uploads := s.history.uploads ++
            finishedUploads s.history (transitionRow op.target op.results now row) } := by
  unfold JobStore.transition
  split
  · exact .inl rfl
  · rename_i row hrow
    split
    · rename_i hstatus
      refine .inr ⟨row, hrow, hstatus, rfl, rfl, ?_⟩
      have hchanges := changes_update_id .transition _
        (transitionRow_id op.target op.results now) hrow
      rw [hstatus] at hchanges
      have huploads := uploads_update_id .transition _
        (transitionRow_id op.target op.results now) hrow
      change History.mk _ _ _ _ _ _ = History.mk _ _ _ _ _ _
      congr 1
    · exact .inl rfl

/-! ## Rows after a statement -/

/-- What one statement makes of a row. -/
inductive RowStep (s s' : JobStore) (row : Build) : Build → Prop where
  | same : RowStep s s' row row
  | write {row' : Build} (h : RowWrite row row') : RowStep s s' row (withdrawPending row')
  | fail (now : ℤ) (h : row.status = .queued) : RowStep s s' row (withdrawPending (failRow now row))
  | claim (runner : Runner) (hash : Text) (now : ℤ) (h : Claimable s runner row)
      (hclaim : claimEligibleDirectRunnerBuild s row.id runner.id hash now = some s') :
      RowStep s s' row (claimRow runner.id hash now row)

theorem rowStep_cancelSuperseded (s s' : JobStore) (b : BuildInsertBinds) (new row : Build) :
    RowStep s s' row (cancelSuperseded b new row) := by
  unfold cancelSuperseded
  split
  · rename_i h
    refine .write (.cancel b.now ?_)
    unfold supersedes at h
    simp only [Bool.and_eq_true, Bool.not_eq_true'] at h
    exact h.2
  · exact .same

/-- The rows after an insert are rows that it kept or canceled, and the new one. -/
theorem row_of_insert {s s' : JobStore} {db : Database} {b : BuildInsertBinds}
    (h : executeBuildInsert s.db b = some db) {k : ℕ} {row' : Build}
    (hrow : db.builds.find k = some row') :
    (∃ row, s.db.builds.find k = some row ∧ RowStep s s' row row') ∨ row' = newBuild s.db b := by
  by_cases hk : k = (newBuild s.db b).id
  · rw [hk, find_newBuild h] at hrow
    exact .inr (Option.some.inj hrow).symm
  · obtain ⟨-, -, rfl⟩ := executeBuildInsert_eq_some h
    rw [Table.find_mapRows, Table.find_insert, if_neg hk] at hrow
    obtain ⟨row, hfind, rfl⟩ := Option.map_eq_some_iff.mp hrow
    exact .inl ⟨row, hfind, rowStep_cancelSuperseded s s' b _ row⟩

/-- The rows after a statement are rows as it wrote them, and at most one new build; a new retry
has an origin. -/
theorem Step.row {s s' : JobStore} (h : Step s s') {k : ℕ} {row' : Build}
    (hrow : s'.db.builds.find k = some row') :
    (∃ row, s.db.builds.find k = some row ∧ RowStep s s' row row') ∨
      ∃ binds, row' = newBuild s.db binds ∧
        (s'.history.origins = s.history.origins → binds.snapshot.retrySteps = []) := by
  cases h with
  | keep hbuilds _ _ =>
    rw [hbuilds] at hrow
    exact .inl ⟨row', hrow, .same⟩
  | update writer p f hf hwrite hbuilds _ _ =>
    rw [hbuilds, find_update] at hrow
    obtain ⟨row, hfind, rfl⟩ := Option.map_eq_some_iff.mp hrow
    refine .inl ⟨row, hfind, ?_⟩
    split
    · rename_i hp
      exact .write (hwrite row hp)
    · exact .same
  | preflight buildId now =>
    rw [find_update] at hrow
    obtain ⟨row, hfind, rfl⟩ := Option.map_eq_some_iff.mp hrow
    refine .inl ⟨row, hfind, ?_⟩
    split
    · rename_i hp
      simp only [Bool.and_eq_true, decide_eq_true_eq] at hp
      exact .fail now hp.2
    · exact .same
  | transition op status now hvalid hfree hreported =>
    rcases transition_cases s op status now with heq | ⟨row, hfind, hstatus, hdb, -, -⟩
    · rw [heq] at hrow
      exact .inl ⟨row', hrow, .same⟩
    · rw [hdb, find_update] at hrow
      obtain ⟨other, hother, rfl⟩ := Option.map_eq_some_iff.mp hrow
      refine .inl ⟨other, hother, ?_⟩
      split
      · rename_i hid
        have hk : other.id = op.buildId := by simpa using hid
        rw [← Table.key_of_find hother, hk, hfind] at hother
        obtain rfl := Option.some.inj hother
        exact .write (.transition op.target op.results now (hstatus ▸ hvalid) hfree hreported)
      · exact .same
  | claim buildId runnerId hash now hclaim =>
    obtain ⟨row, runner, hfind, hrunner, hclaimable, hbuilds, -⟩ := claim_eq_some hclaim
    rw [hbuilds, Table.find_modify] at hrow
    split at hrow
    · rename_i hk
      rw [hfind] at hrow
      obtain rfl := Option.some.inj hrow
      obtain rfl := Table.key_of_find hfind
      obtain rfl := Table.key_of_find hrunner
      exact .inl ⟨row, hk ▸ hfind, .claim runner hash now hclaimable hclaim⟩
    · exact .inl ⟨row', hrow, .same⟩
  | create binds hcreate =>
    obtain ⟨hsteps, hinsert, -⟩ := create_eq_some hcreate
    exact (row_of_insert hinsert hrow).imp_right fun heq => ⟨binds, heq, fun _ => hsteps⟩
  | delete buildId _ =>
    have herase : (s.db.builds.erase buildId).find k = some row' := hrow
    rw [Table.find_erase] at herase
    split at herase
    · cases herase
    · exact .inl ⟨row', herase, .same⟩
  | retry buildId steps now =>
    rcases queueRetry_cases s buildId steps now with heq | ⟨_, b, -, -, -, hinsert, -, hhistory⟩
    · rw [heq] at hrow
      exact .inl ⟨row', hrow, .same⟩
    · refine (row_of_insert hinsert hrow).imp_right fun heq => ⟨b, heq, fun horigins => ?_⟩
      rw [hhistory] at horigins
      exact absurd horigins (List.cons_ne_self _ _)

end OoreBuild
