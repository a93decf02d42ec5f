import OoreBuild.JobInvariants

/-!
# Retries of one stored artifact

A retry stores a copy of its source's artifacts, so a retry of it uploads the same artifact once
more. The checks of a request and the guard of the insert look only at the retries of the build
that is asked for, not at those of the others that hold the artifact.

`UploadsApart` is what holds while no retry is itself retried and no retry ends between the checks
of another request and its insert.
-/

namespace OoreBuild

open Text Interleave

/-! ## Rows -/

/-- No runner has started the build. -/
def BuildStatus.isWaiting : BuildStatus → Bool
  | queued | scheduled | assigned => true
  | _ => false

/-- What a retry is of, and what it runs, does not change. -/
theorem RowStep.retry_eq {s s' : JobStore} {row row' : Build} (h : RowStep s s' row row') :
    row'.sourceBuildId = row.sourceBuildId ∧
      row'.snapshot.retrySteps = row.snapshot.retrySteps := by
  cases h with
  | same => exact ⟨rfl, rfl⟩
  | write h => cases h <;> exact ⟨rfl, rfl⟩
  | fail now _ => exact ⟨rfl, rfl⟩
  | claim _ _ _ _ _ => exact ⟨rfl, rfl⟩

theorem eq_expired_of_canTransitionTo {status target : BuildStatus}
    (h : status.canTransitionTo target = true) (hs : status.isTerminal = true) :
    target = .expired := by
  revert h hs
  cases status <;> cases target <;> decide

/-- The results of a finished build stay. -/
theorem RowStep.stepResults_of_terminal {s s' : JobStore} {row row' : Build}
    (h : RowStep s s' row row') (hdone : row.status.isTerminal = true) :
    row'.stepResults = row.stepResults := by
  cases h with
  | same => rfl
  | write h =>
    cases h with
    | transition target results now hvalid _ hreported =>
      obtain rfl := eq_expired_of_canTransitionTo hvalid hdone
      cases results with
      | none => rfl
      | some results => exact absurd (hreported rfl) (by decide)
    | decide _ _ _ _ => rfl
    | cancel _ _ => rfl
    | drain _ _ => rfl
  | fail now _ => rfl
  | claim _ _ _ _ _ => rfl

theorem isWaiting_of_canTransitionTo {status target : BuildStatus}
    (h : status.canTransitionTo target = true) (ht : target.isWaiting = true) :
    status.isWaiting = true := by
  revert h ht
  cases status <;> cases target <;> decide

/-- A build that waits has no results. -/
theorem RowStep.unreported {s s' : JobStore} {row row' : Build} (h : RowStep s s' row row')
    (hrow : row.status.isWaiting = true → row.stepResults = none)
    (hwaiting : row'.status.isWaiting = true) : row'.stepResults = none := by
  cases h with
  | same => exact hrow hwaiting
  | write h =>
    cases h with
    | transition target results now hvalid hfree hreported =>
      have hbefore := hrow (isWaiting_of_canTransitionTo hvalid hwaiting)
      cases results with
      | none => exact hbefore
      | some results =>
        -- what a runner reports is never a status that waits
        have hreport := hreported rfl
        change target.isWaiting = true at hwaiting
        cases target <;> cases hreport <;> cases hwaiting
    | decide _ _ hq _ => exact hrow (by rw [hq]; rfl)
    | cancel _ _ => cases hwaiting
    | drain _ hs => exact hrow (by rw [hs]; rfl)
  | fail now _ => cases hwaiting
  | claim runner hash now hclaim _ => exact hrow (by rw [hclaim.queued]; rfl)

theorem not_stepSucceeded {row : Build} (h : row.stepResults = none) (step : Text) :
    row.stepSucceeded step = false := by
  unfold Build.stepSucceeded
  rw [h]
  rfl

theorem stepSucceeded_congr {row row' : Build} (h : row'.stepResults = row.stepResults)
    (step : Text) : row'.stepSucceeded step = row.stepSucceeded step := by
  unfold Build.stepSucceeded
  rw [h]

theorem mem_finishedUploads {history : History} {row : Build} {u : ℕ × Text} :
    u ∈ finishedUploads history row ↔ row.status.isTerminal = true ∧ u.1 = history.origin row.id ∧
      u.2 ∈ row.snapshot.retrySteps ∧ row.stepSucceeded u.2 = true := by
  obtain ⟨origin, step⟩ := u
  unfold finishedUploads
  split
  · rename_i hdone
    simp only [List.mem_map, List.mem_filter, Prod.mk.injEq, hdone, true_and]
    constructor
    · rintro ⟨name, ⟨hmem, hsucceeded⟩, rfl, rfl⟩
      exact ⟨rfl, hmem, hsucceeded⟩
    · rintro ⟨rfl, hmem, hsucceeded⟩
      exact ⟨step, ⟨hmem, hsucceeded⟩, rfl, rfl⟩
  · rename_i hlive
    simp [hlive]

/-! ## Origins -/

theorem origin_eq_self {history : History} {k : ℕ} (h : ∀ p ∈ history.origins, p.1 ≠ k) :
    history.origin k = k := by
  unfold History.origin
  rw [List.lookup_eq_none_iff.mpr fun p hp => by simpa using (h p hp).symm]
  rfl

theorem origin_cons {history history' : History} {new origin : ℕ}
    (h : history'.origins = (new, origin) :: history.origins) (k : ℕ) :
    history'.origin k = if k = new then origin else history.origin k := by
  unfold History.origin
  rw [h, List.lookup_cons]
  by_cases hk : k = new
  · simp [hk]
  · rw [if_neg hk, beq_eq_false_iff_ne.mpr hk]

theorem origin_congr {history history' : History} (h : history'.origins = history.origins)
    (k : ℕ) : history'.origin k = history.origin k := by
  unfold History.origin
  rw [h]

/-- Without a retry that is queued, every new row is a plain build. -/
theorem Step.row_or_plain {s s' : JobStore} (h : Step s s')
    (horigins : s'.history.origins = s.history.origins) {k : ℕ} {row' : Build}
    (hrow : s'.db.builds.find k = some row') :
    (∃ row, s.db.builds.find k = some row ∧ RowStep s s' row row') ∨
      (k = freshId s.db ∧ row'.snapshot.retrySteps = []) := by
  rcases h.row hrow with hold | ⟨binds, rfl, hplain⟩
  · exact .inl hold
  · exact .inr ⟨(Table.key_of_find hrow).symm, hplain horigins⟩

/-! ## Families -/

/-- A build that waits for its runner has no results. -/
def Unreported (s : JobStore) : Prop :=
  ∀ k row, s.db.builds.find k = some row → row.status.isWaiting = true → row.stepResults = none

theorem Unreported.step {s s' : JobStore} (h : Unreported s) (hstep : Step s s') :
    Unreported s' := by
  intro k row' hrow' hwaiting
  rcases hstep.row hrow' with ⟨row, hrow, hto⟩ | ⟨binds, rfl, -⟩
  · exact hto.unreported (h k row hrow) hwaiting
  · rfl

/-- Where the artifact of each build comes from: its own, or that of the finished build it
retries, which is not itself a retry. No two unfinished retries of a build share a step. -/
structure FamiliesOk (s : JobStore) : Prop where
  known : ∀ p ∈ s.history.origins, p.1 < freshId s.db
  plain : ∀ k row, s.db.builds.find k = some row → row.snapshot.retrySteps = [] →
    s.history.origin k = k
  retry : ∀ k row, s.db.builds.find k = some row → row.snapshot.retrySteps ≠ [] →
    row.sourceBuildId = some (s.history.origin k) ∧ s.history.origin k < freshId s.db ∧
      ∀ source, s.db.builds.find (s.history.origin k) = some source →
        source.status.isTerminal = true ∧ source.snapshot.retrySteps = []
  apart : ∀ k₁ k₂ row₁ row₂ src step, s.db.builds.find k₁ = some row₁ →
    s.db.builds.find k₂ = some row₂ → row₁.status.isTerminal = false →
    row₂.status.isTerminal = false → row₁.sourceBuildId = some src →
    row₂.sourceBuildId = some src → step ∈ row₁.snapshot.retrySteps →
    step ∈ row₂.snapshot.retrySteps → k₁ = k₂

/-- An unfinished row was unfinished before. -/
theorem RowStep.unfinished {s s' : JobStore} {row row' : Build} (h : RowStep s s' row row')
    (hlive : row'.status.isTerminal = false) : row.status.isTerminal = false := by
  cases hdone : row.status.isTerminal with
  | false => rfl
  | true =>
    rw [h.terminal hdone] at hlive
    cases hlive

/-- The source of a retry stays a finished plain build. -/
theorem source_step {s s' : JobStore} (hstep : Step s s') {k : ℕ} (hk : k < freshId s.db)
    (h : ∀ source, s.db.builds.find k = some source →
      source.status.isTerminal = true ∧ source.snapshot.retrySteps = []) :
    ∀ source, s'.db.builds.find k = some source →
      source.status.isTerminal = true ∧ source.snapshot.retrySteps = [] := by
  intro source' hsource'
  obtain ⟨source, hsource, hto⟩ := hstep.row_of_lt hk hsource'
  obtain ⟨hdone, hplain⟩ := h source hsource
  exact ⟨hto.terminal hdone, hto.retry_eq.2.trans hplain⟩

/-- A row that joins a family: a plain build, or a retry of a finished plain one that shares no
step with an unfinished retry of it. -/
inductive Joins (s s' : JobStore) (k : ℕ) (row' : Build) : Prop where
  | plain (hsteps : row'.snapshot.retrySteps = []) (horigin : s'.history.origin k = k)
  | retry (src : ℕ) (hsteps : row'.snapshot.retrySteps ≠ []) (hsrc : row'.sourceBuildId = some src)
      (horigin : s'.history.origin k = src) (hlt : src < freshId s'.db)
      (hsource : ∀ source, s'.db.builds.find src = some source →
        source.status.isTerminal = true ∧ source.snapshot.retrySteps = [])
      (hapart : ∀ other row step, s.db.builds.find other = some row →
        row.status.isTerminal = false → row.sourceBuildId = some src →
        step ∈ row.snapshot.retrySteps → step ∉ row'.snapshot.retrySteps)

theorem FamiliesOk.grow {s s' : JobStore} (h : FamiliesOk s) (hstep : Step s s')
    (hknown : ∀ p ∈ s'.history.origins, p.1 < freshId s'.db)
    (hold : ∀ k < freshId s.db, s'.history.origin k = s.history.origin k)
    (hrows : ∀ k row', s'.db.builds.find k = some row' →
      (∃ row, s.db.builds.find k = some row ∧ RowStep s s' row row') ∨
        (k = freshId s.db ∧ Joins s s' k row')) : FamiliesOk s' where
  known := hknown
  plain k row' hrow' hplain := by
    rcases hrows k row' hrow' with ⟨row, hrow, hto⟩ | ⟨-, hjoins⟩
    · rw [hold k (lt_freshId_of_find hrow)]
      exact h.plain k row hrow (hto.retry_eq.2.symm.trans hplain)
    · cases hjoins with
      | plain _ horigin => exact horigin
      | retry _ hsteps _ _ _ _ _ => exact absurd hplain hsteps
  retry k row' hrow' hretry := by
    rcases hrows k row' hrow' with ⟨row, hrow, hto⟩ | ⟨-, hjoins⟩
    · rw [hold k (lt_freshId_of_find hrow)]
      rw [hto.retry_eq.2] at hretry
      obtain ⟨hsource, hlt, hdone⟩ := h.retry k row hrow hretry
      exact ⟨hto.retry_eq.1.trans hsource, lt_of_lt_of_le hlt hstep.freshId_le,
        source_step hstep hlt hdone⟩
    · cases hjoins with
      | plain hsteps _ => exact absurd hsteps hretry
      | retry src _ hsrc horigin hlt hsource _ =>
        rw [horigin]
        exact ⟨hsrc, hlt, hsource⟩
  apart k₁ k₂ row₁' row₂' src step h₁ h₂ hlive₁ hlive₂ hsrc₁ hsrc₂ hmem₁ hmem₂ := by
    rcases hrows k₁ row₁' h₁ with ⟨row₁, hrow₁, hto₁⟩ | ⟨hk₁, hjoins₁⟩ <;>
      rcases hrows k₂ row₂' h₂ with ⟨row₂, hrow₂, hto₂⟩ | ⟨hk₂, hjoins₂⟩
    · rw [hto₁.retry_eq.1] at hsrc₁
      rw [hto₂.retry_eq.1] at hsrc₂
      rw [hto₁.retry_eq.2] at hmem₁
      rw [hto₂.retry_eq.2] at hmem₂
      exact h.apart k₁ k₂ row₁ row₂ src step hrow₁ hrow₂ (hto₁.unfinished hlive₁)
        (hto₂.unfinished hlive₂) hsrc₁ hsrc₂ hmem₁ hmem₂
    · rw [hto₁.retry_eq.1] at hsrc₁
      rw [hto₁.retry_eq.2] at hmem₁
      cases hjoins₂ with
      | plain hsteps _ => simp [hsteps] at hmem₂
      | retry _ _ hsrc _ _ _ hapart =>
        obtain rfl := Option.some.inj (hsrc.symm.trans hsrc₂)
        exact absurd hmem₂ (hapart k₁ row₁ step hrow₁ (hto₁.unfinished hlive₁) hsrc₁ hmem₁)
    · rw [hto₂.retry_eq.1] at hsrc₂
      rw [hto₂.retry_eq.2] at hmem₂
      cases hjoins₁ with
      | plain hsteps _ => simp [hsteps] at hmem₁
      | retry _ _ hsrc _ _ _ hapart =>
        obtain rfl := Option.some.inj (hsrc.symm.trans hsrc₁)
        exact absurd hmem₁ (hapart k₂ row₂ step hrow₂ (hto₂.unfinished hlive₂) hsrc₂ hmem₂)
    · exact hk₁.trans hk₂.symm

/-- A statement that queues no retry adds plain builds only. -/
theorem FamiliesOk.step {s s' : JobStore} (h : FamiliesOk s) (hstep : Step s s')
    (horigins : s'.history.origins = s.history.origins) : FamiliesOk s' := by
  refine h.grow hstep (fun p hp => ?_) (fun k _ => origin_congr horigins k) fun k row' hrow' => ?_
  · exact lt_of_lt_of_le (h.known p (horigins ▸ hp)) hstep.freshId_le
  · refine (hstep.row_or_plain horigins hrow').imp_right fun ⟨hk, hplain⟩ => ⟨hk, .plain hplain ?_⟩
    rw [origin_congr horigins, hk]
    exact origin_eq_self fun p hp => (h.known p hp).ne

/-- The guard of the insert: no unfinished retry of the source shares a step with the new one. -/
theorem not_shared_of_insert {s : JobStore} {db : Database} {b : BuildInsertBinds}
    {src : ℕ} {steps : List Text} (hbinds : RetryBinds src steps b)
    (h : executeBuildInsert s.db b = some db) {k : ℕ} {row : Build}
    (hrow : s.db.builds.find k = some row) (hlive : row.status.isTerminal = false)
    (hsrc : row.sourceBuildId = some src) {step : Text} (hmem : step ∈ row.snapshot.retrySteps) :
    step ∉ steps := by
  intro hstep
  have hguard := retryInProgress_of_insert h
  unfold retryInProgress at hguard
  rw [List.any_eq_false] at hguard
  refine hguard row (Table.mem_of_find hrow) ?_
  rw [hbinds.source, hbinds.steps, hsrc, hlive]
  simp only [Option.isSome_some, decide_true, Bool.not_false, Bool.and_true, Bool.true_and,
    List.any_eq_true]
  exact ⟨step, hmem, by simpa using hstep⟩

/-- A retry of a plain build joins its family. -/
theorem FamiliesOk.queueRetry {s : JobStore} (h : FamiliesOk s) {src : ℕ} {steps : List Text}
    (now : ℤ) (hplain : ∀ row, s.db.builds.find src = some row → row.snapshot.retrySteps = [])
    (hsteps : steps ≠ []) : FamiliesOk (s.queueRetry src steps now) := by
  have hstep : Step s (s.queueRetry src steps now) := .retry src steps now
  rcases queueRetry_cases s src steps now with
    heq | ⟨source, b, hsource, hdone, hbinds, hinsert, -, hhistory⟩
  · rw [heq]
    exact h
  · have horigins : (s.queueRetry src steps now).history.origins =
        (freshId s.db, src) :: s.history.origins := by
      rw [hhistory, h.plain src source hsource (hplain source hsource)]
      rfl
    have hnew : freshId s.db < freshId (s.queueRetry src steps now).db :=
      lt_freshId_of_find (find_newBuild hinsert)
    refine h.grow hstep (fun p hp => ?_) (fun k hk => ?_) fun k row' hrow' => ?_
    · rw [horigins] at hp
      rcases List.mem_cons.mp hp with rfl | hp
      · exact hnew
      · exact (h.known p hp).trans hnew
    · rw [origin_cons horigins, if_neg hk.ne]
    · refine (row_of_insert hinsert hrow').imp_right fun heq => ?_
      subst heq
      have hk : (newBuild s.db b).id = k := Table.key_of_find hrow'
      obtain rfl : freshId s.db = k := hk
      have hsrc := lt_freshId_of_find hsource
      refine ⟨rfl, .retry src (by rwa [newBuild, hbinds.steps]) hbinds.source ?_ (hsrc.trans hnew)
        (source_step hstep hsrc fun other hother => ?_) fun other row step hrow hlive hfrom hmem => ?_⟩
      · rw [origin_cons horigins, if_pos rfl]
      · rw [hsource] at hother
        exact Option.some.inj hother ▸ ⟨hdone, hplain source hsource⟩
      · exact hbinds.steps ▸ not_shared_of_insert hbinds hinsert hrow hlive hfrom hmem

/-! ## Uploads -/

/-- A build that no runner has started uploads nothing when it ends. -/
theorem uploads_update_waiting {s : JobStore} (hs : Unreported s) {writer : StatusWriter}
    {p : Build → Bool} {f : Build → Build} (hf : ∀ row, (f row).id = row.id)
    (hwaiting : ∀ row, p row = true → row.status.isWaiting = true)
    (hresults : ∀ row, (f row).stepResults = row.stepResults) :
    (s.update writer p f hf).history.uploads = s.history.uploads := by
  unfold JobStore.update
  dsimp only
  refine (congrArg _ (List.flatMap_eq_nil_iff.mpr fun row hmem => ?_)).trans (List.append_nil _)
  obtain ⟨hrow, hp⟩ := List.mem_filter.mp hmem
  have hnone := hs row.id row (Table.find_of_mem hrow) (hwaiting row hp)
  refine List.eq_nil_iff_forall_not_mem.mpr fun u hu => ?_
  have hsucceeded := (mem_finishedUploads.mp hu).2.2.2
  rw [not_stepSucceeded ((hresults row).trans hnone)] at hsucceeded
  cases hsucceeded

/-- A request adds uploads only where a new build supersedes a retry. -/
theorem uploads_of_enter {s s' : JobStore} (hs : Unreported s) {x : JobInput} {ts : List Job}
    (h : jobs.enter s x = some (s', ts)) {u : ℕ × Text} (hu : u ∈ s'.history.uploads) :
    u ∈ s.history.uploads ∨ ∃ binds row, x = .create binds ∧ s.create binds = some s' ∧
      row ∈ s.db.builds.rows ∧ supersedes binds (newBuild s.db binds) row = true ∧
      u ∈ finishedUploads s.history (cancelRow binds.now row) := by
  change enterJob s x = some (s', ts) at h
  cases x with
  | create binds =>
    obtain ⟨_, hcreate, heq⟩ := Option.map_eq_some_iff.mp h
    cases heq
    obtain ⟨-, -, -, hhistory⟩ := create_eq_some hcreate
    rw [hhistory] at hu
    rcases List.mem_append.mp hu with hold | hnew
    · exact .inl hold
    · obtain ⟨row, hrow, hmem⟩ := List.mem_flatMap.mp hnew
      obtain ⟨hrow, hsupersedes⟩ := List.mem_filter.mp hrow
      exact .inr ⟨binds, row, rfl, hcreate, hrow, hsupersedes, hmem⟩
  | claim buildId runnerId hash now =>
    obtain ⟨_, hclaim, heq⟩ := Option.map_eq_some_iff.mp h
    cases heq
    obtain ⟨_, _, -, -, -, -, -, -, -, hhistory⟩ := claim_eq_some hclaim
    rw [hhistory] at hu
    exact .inl hu
  | report runnerId buildId target results =>
    obtain ⟨_, -, heq⟩ := Option.map_eq_some_iff.mp h
    cases heq
    exact .inl hu
  | retention buildId full =>
    simp only [enterJob] at h
    split at h <;> cases h
    exact .inl hu
  | retry buildId step out =>
    simp only [enterJob] at h
    split at h <;> cases h
    exact .inl hu
  | register runner =>
    simp only [enterJob] at h
    split at h <;> cases h
    exact .inl hu
  | decide buildId approve now =>
    cases h
    refine .inl ((uploads_update_waiting hs (decideRow_id approve now) (fun row hp => ?_)
      fun _ => rfl) ▸ hu)
    simp only [Bool.and_eq_true, decide_eq_true_eq] at hp
    rw [hp.1.2]
    rfl
  | changeSource projectId repositoryId now =>
    cases h
    refine .inl ((uploads_update_waiting hs (cancelRow_id now) (fun row hp => ?_)
      fun _ => rfl) ▸ hu)
    simp only [Bool.and_eq_true, Bool.or_eq_true, decide_eq_true_eq] at hp
    rcases hp.2 with hq | hq <;> rw [hq] <;> rfl
  | removeRepositories repositoryIds now =>
    cases h
    refine .inl ((uploads_update_waiting hs (cancelRow_id now) (fun row hp => ?_)
      fun _ => rfl) ▸ hu)
    simp only [Bool.and_eq_true, Bool.or_eq_true, decide_eq_true_eq] at hp
    rcases hp.2 with hq | hq <;> rw [hq] <;> rfl
  | drain now =>
    cases h
    refine .inl ((uploads_update_waiting hs (drainRow_id now) (fun row hp => ?_)
      fun _ => rfl) ▸ hu)
    simp only [Bool.and_eq_true, decide_eq_true_eq] at hp
    rw [hp.1]
    rfl
  | _ =>
    cases h
    exact .inl hu

/-- A call adds uploads only where it ends a build by a transition. -/
theorem uploads_of_advance {s s' : JobStore} (hs : Unreported s) {job : Job} {job' : Option Job}
    {answer : JobAnswer} (h : jobs.advance s job answer = some (s', job')) {u : ℕ × Text}
    (hu : u ∈ s'.history.uploads) :
    u ∈ s.history.uploads ∨ ∃ op status row, job = .loaded op status ∧
      s.db.builds.find op.buildId = some row ∧ row.status = status ∧
      u ∈ finishedUploads s.history (transitionRow op.target op.results answer.now row) := by
  replace h : advanceJob s job answer = (s', job') := Option.some.inj h
  cases job with
  | transition op =>
    simp only [advanceJob] at h
    split at h
    · cases h
      exact .inl hu
    · split at h <;> cases h <;> exact .inl hu
  | loaded op status =>
    cases h
    rcases transition_cases s op status answer.now with
      heq | ⟨row, hrow, hstatus, -, -, hhistory⟩
    · exact .inl (heq ▸ hu)
    · rw [hhistory] at hu
      refine (List.mem_append.mp hu).imp_right fun hnew => ?_
      exact ⟨op, status, row, rfl, hrow, hstatus, hnew⟩
  | preflight buildId =>
    cases h
    refine .inl ((uploads_update_waiting hs (failRow_id answer.now) (fun row hp => ?_)
      fun _ => rfl) ▸ hu)
    simp only [Bool.and_eq_true, decide_eq_true_eq] at hp
    rw [hp.2]
    rfl
  | retire buildId full =>
    simp only [advanceJob] at h
    split at h <;> cases h <;> exact .inl hu
  | retry buildId steps =>
    cases h
    rcases queueRetry_cases s buildId steps answer.now with heq | ⟨_, _, -, -, -, -, -, hhistory⟩
    · exact .inl (heq ▸ hu)
    · rw [hhistory] at hu
      exact .inl hu

/-! ## Rows that stay -/

theorem find_delete (s : JobStore) (k : ℕ) : (s.delete k).db.builds.find k = none := by
  change (s.db.builds.erase k).find k = none
  rw [Table.find_erase, if_pos rfl]

theorem isSome_update {s : JobStore} (writer : StatusWriter) {p : Build → Bool} {f : Build → Build}
    (hf : ∀ row, (f row).id = row.id) {k : ℕ} (h : (s.db.builds.find k).isSome = true) :
    ((s.update writer p f hf).db.builds.find k).isSome = true := by
  rwa [find_update, Option.isSome_map]

theorem isSome_insert {db db' : Database} {b : BuildInsertBinds}
    (h : executeBuildInsert db b = some db') {k : ℕ} (hk : (db.builds.find k).isSome = true) :
    (db'.builds.find k).isSome = true := by
  obtain ⟨row, hrow⟩ := Option.isSome_iff_exists.mp hk
  rw [find_of_insert h hrow]
  rfl

/-- A request deletes no build. -/
theorem isSome_of_enter {s s' : JobStore} {x : JobInput} {ts : List Job}
    (h : jobs.enter s x = some (s', ts)) {k : ℕ} (hk : (s.db.builds.find k).isSome = true) :
    (s'.db.builds.find k).isSome = true := by
  change enterJob s x = some (s', ts) at h
  cases x with
  | create binds =>
    obtain ⟨_, hcreate, heq⟩ := Option.map_eq_some_iff.mp h
    cases heq
    exact isSome_insert (create_eq_some hcreate).2.1 hk
  | claim buildId runnerId hash now =>
    obtain ⟨_, hclaim, heq⟩ := Option.map_eq_some_iff.mp h
    cases heq
    obtain ⟨_, _, -, -, -, hbuilds, -⟩ := claim_eq_some hclaim
    rw [hbuilds, Table.find_modify]
    split
    · rename_i hid
      rwa [Option.isSome_map, ← hid]
    · exact hk
  | report runnerId buildId target results =>
    obtain ⟨_, -, heq⟩ := Option.map_eq_some_iff.mp h
    cases heq
    exact hk
  | retention buildId full =>
    simp only [enterJob] at h
    split at h <;> cases h
    exact hk
  | retry buildId step out =>
    simp only [enterJob] at h
    split at h <;> cases h
    exact hk
  | register runner =>
    simp only [enterJob] at h
    split at h <;> cases h
    exact hk
  | decide buildId approve now =>
    cases h
    exact isSome_update .approval (decideRow_id approve now) hk
  | changeSource projectId repositoryId now =>
    cases h
    exact isSome_update .sourceChange (cancelRow_id now) hk
  | removeRepositories repositoryIds now =>
    cases h
    exact isSome_update .sourceChange (cancelRow_id now) hk
  | drain now =>
    cases h
    exact isSome_update .drain (drainRow_id now) hk
  | _ =>
    cases h
    exact hk

/-- Only retention deletes a build, one without a release. -/
theorem isSome_of_advance {s s' : JobStore} {job : Job} {job' : Option Job} {answer : JobAnswer}
    (h : jobs.advance s job answer = some (s', job')) {k : ℕ}
    (hk : (s.db.builds.find k).isSome = true) :
    (s'.db.builds.find k).isSome = true ∨
      (job = .retire k true ∧ answer.hasRelease = false) := by
  replace h : advanceJob s job answer = (s', job') := Option.some.inj h
  cases job with
  | transition op =>
    simp only [advanceJob] at h
    split at h
    · cases h
      exact .inl hk
    · split at h <;> cases h <;> exact .inl hk
  | loaded op status =>
    cases h
    rcases transition_cases s op status answer.now with heq | ⟨_, -, -, hdb, -⟩
    · rw [heq]
      exact .inl hk
    · rw [hdb]
      exact .inl (isSome_update .transition (transitionRow_id op.target op.results answer.now) hk)
  | preflight buildId =>
    cases h
    exact .inl (isSome_update .preflight (failRow_id answer.now) hk)
  | retire buildId full =>
    simp only [advanceJob] at h
    split at h
    · rename_i hguard
      cases h
      simp only [Bool.and_eq_true, Bool.not_eq_true'] at hguard
      obtain ⟨rfl, hrelease⟩ := hguard
      by_cases hid : k = buildId
      · exact .inr ⟨hid ▸ rfl, hrelease⟩
      · left
        change ((s.db.builds.erase buildId).find k).isSome = true
        rwa [Table.find_erase, if_neg hid]
    · cases h
      exact .inl hk
  | retry buildId steps =>
    cases h
    rcases queueRetry_cases s buildId steps answer.now with heq | ⟨_, _, -, -, -, hinsert, -⟩
    · rw [heq]
      exact .inl hk
    · exact .inl (isSome_insert hinsert hk)

theorem Step.kept_of_isSome {s s' : JobStore} (h : Step s s') {k : ℕ} {row : Build}
    (hrow : s.db.builds.find k = some row) (hk : (s'.db.builds.find k).isSome = true) :
    ∃ row', s'.db.builds.find k = some row' ∧ RowStep s s' row row' := by
  rcases h.kept hrow with hkept | ⟨rfl, -⟩
  · exact hkept
  · rw [find_delete] at hk
    cases hk

/-! ## What a retry request relies on -/

/-- A retry of the build has succeeded at one of the steps. -/
def UploadedBy (src : ℕ) (steps : List Text) (row : Build) : Prop :=
  row.sourceBuildId = some src ∧
    ∃ step ∈ steps, step ∈ row.snapshot.retrySteps ∧ row.stepSucceeded step = true

/-- No retry is itself retried. Between the checks of a retry request and its insert no other
retry of the build ends that has succeeded at one of its steps. And retention finds the release of
a retry that uploaded. -/
def retriesApart : Condition JobStore Job JobInput JobAnswer where
  enter s x := match x with
    | .retry buildId _ _ =>
      ∀ row, s.db.builds.find buildId = some row → row.snapshot.retrySteps = []
    | _ => True
  enterBeside s x u := match x, u with
    | .create binds, .retry src steps => ∀ row ∈ s.db.builds.rows,
        supersedes binds (newBuild s.db binds) row = true → ¬UploadedBy src steps row
    | _, _ => True
  advance s t answer := match t with
    | .retire buildId true => ∀ row, s.db.builds.find buildId = some row →
        (∃ step ∈ row.snapshot.retrySteps, row.stepSucceeded step = true) →
        answer.hasRelease = true
    | _ => True
  advanceBeside s t answer u := match t, u with
    | .loaded op status, .retry src steps => ∀ row, s.db.builds.find op.buildId = some row →
        row.status = status → op.target.isTerminal = true →
        ¬UploadedBy src steps (transitionRow op.target op.results answer.now row)
    | _, _ => True

/-- The steps that a request may retry are taken by no retry of the build. -/
theorem retryBuildStep_eq_ok {db : Database} {out : RetryOutside} {buildId : ℕ} {step : Text}
    {steps : List Text} (h : retryBuildStep db out buildId step = .ok steps) :
    ∃ row, db.builds.find buildId = some row ∧ steps ≠ [] ∧
      ∀ step ∈ steps, step ∉ stepsTakenByRetries db buildId := by
  unfold retryBuildStep at h
  simp only [bind_eq_ok, orError_eq_ok] at h
  obtain ⟨row, hrow, _, -, _, -, _, -, _, -, position, hposition, h⟩ := h
  cases h
  obtain rfl := Table.key_of_find hrow
  refine ⟨row, hrow, ?_, fun name hname => ?_⟩
  · obtain ⟨hlt, -⟩ := List.findIdx?_eq_some_iff_getElem.mp hposition
    rw [← List.length_pos_iff, List.length_drop]
    omega
  · have hmem := List.mem_of_mem_drop hname
    unfold retryableSteps at hmem
    split at hmem
    · cases hmem
    · have hguard := (List.mem_filter.mp hmem).2
      simp only [Bool.and_eq_true, Bool.not_eq_true', List.contains_eq_mem,
        decide_eq_false_iff_not] at hguard
      exact hguard.1.2

/-- A retry whose row shows that it uploaded. -/
structure UploadRow (u : ℕ × Text) (row : Build) : Prop where
  source : row.sourceBuildId = some u.1
  finished : row.status.isTerminal = true
  step : u.2 ∈ row.snapshot.retrySteps
  succeeded : row.stepSucceeded u.2 = true

theorem UploadRow.step_of {s s' : JobStore} {u : ℕ × Text} {row row' : Build} (h : UploadRow u row)
    (hto : RowStep s s' row row') : UploadRow u row' where
  source := hto.retry_eq.1.trans h.source
  finished := hto.terminal h.finished
  step := hto.retry_eq.2 ▸ h.step
  succeeded := (stepSucceeded_congr (hto.stepResults_of_terminal h.finished) u.2).trans h.succeeded

/-- The request sees the uploads of the build's retries. -/
theorem UploadRow.taken {db : Database} {k : ℕ} {u : ℕ × Text} {row : Build}
    (h : UploadRow u row) (hrow : db.builds.find k = some row) :
    u.2 ∈ stepsTakenByRetries db u.1 := by
  unfold stepsTakenByRetries
  refine List.mem_flatMap.mpr ⟨row, List.mem_filter.mpr ⟨Table.mem_of_find hrow, ?_⟩, ?_⟩
  · simpa using h.source
  · rw [h.finished]
    have hsucceeded := h.succeeded
    unfold Build.stepSucceeded at hsucceeded
    obtain ⟨result, hmem, hresult⟩ := List.any_eq_true.mp hsucceeded
    simp only [Bool.and_eq_true, decide_eq_true_eq] at hresult
    exact List.mem_map.mpr ⟨result, List.mem_filter.mpr ⟨hmem, hresult.2⟩, hresult.1⟩

/-- The uploads of a retry that ends are those of its source's artifact. -/
theorem FamiliesOk.uploadRow {s : JobStore} (h : FamiliesOk s) {k : ℕ} {row row' : Build}
    (hrow : s.db.builds.find k = some row) {u : ℕ × Text} (hu : u ∈ finishedUploads s.history row')
    (hid : row'.id = row.id) (hsource : row'.sourceBuildId = row.sourceBuildId)
    (hsteps : row'.snapshot.retrySteps = row.snapshot.retrySteps) : UploadRow u row' := by
  obtain ⟨hdone, horigin, hmem, hsucceeded⟩ := mem_finishedUploads.mp hu
  have hretry : row.snapshot.retrySteps ≠ [] := hsteps ▸ List.ne_nil_of_mem hmem
  refine ⟨?_, hdone, hmem, hsucceeded⟩
  rw [hsource, (h.retry k row hrow hretry).1, horigin, hid, Table.key_of_find hrow]

/-- What a checked request knows: its build is a plain one and no retry has uploaded its steps. -/
structure RetryChecked (s : JobStore) (src : ℕ) (steps : List Text) : Prop where
  nonempty : steps ≠ []
  known : src < freshId s.db
  plain : ∀ row, s.db.builds.find src = some row → row.snapshot.retrySteps = []
  fresh : ∀ step ∈ steps, (src, step) ∉ s.history.uploads

theorem RetryChecked.step {s s' : JobStore} {src : ℕ} {steps : List Text}
    (h : RetryChecked s src steps) (hstep : Step s s')
    (hnew : ∀ u ∈ s'.history.uploads, u ∈ s.history.uploads ∨ ¬(u.1 = src ∧ u.2 ∈ steps)) :
    RetryChecked s' src steps where
  nonempty := h.nonempty
  known := lt_of_lt_of_le h.known hstep.freshId_le
  plain row' hrow' := by
    obtain ⟨row, hrow, hto⟩ := hstep.row_of_lt h.known hrow'
    exact hto.retry_eq.2.trans (h.plain row hrow)
  fresh step hmem hu := (hnew _ hu).elim (h.fresh step hmem) fun hnot => hnot ⟨rfl, hmem⟩

/-- Every upload is of a retry whose row still shows it, and no retry was queued for a step that
was uploaded before. -/
structure UploadsOk (s : JobStore) : Prop where
  shown : ∀ u ∈ s.history.uploads, ∃ k row, s.db.builds.find k = some row ∧ UploadRow u row
  queued : ∀ q ∈ s.history.retries, ∀ step ∈ q.steps, step ∉ q.uploaded

theorem shown_step {s s' : JobStore} (h : UploadsOk s) (hstep : Step s s')
    (hkept : ∀ k row u, s.db.builds.find k = some row → UploadRow u row →
      (s'.db.builds.find k).isSome = true)
    (hnew : ∀ u ∈ s'.history.uploads, u ∈ s.history.uploads ∨
      ∃ k row, s'.db.builds.find k = some row ∧ UploadRow u row) :
    ∀ u ∈ s'.history.uploads, ∃ k row, s'.db.builds.find k = some row ∧ UploadRow u row := by
  intro u hu
  rcases hnew u hu with hold | hnew
  · obtain ⟨k, row, hrow, hupload⟩ := h.shown u hold
    obtain ⟨row', hrow', hto⟩ := hstep.kept_of_isSome hrow (hkept k row u hrow hupload)
    exact ⟨k, row', hrow', hupload.step_of hto⟩
  · exact hnew

/-- What holds of the builds and their uploads. -/
structure UploadsApart (s : JobStore) : Prop where
  unreported : Unreported s
  families : FamiliesOk s
  uploads : UploadsOk s

/-- What the calls under way know. -/
structure Job.Apart (s : JobStore) (job : Job) : Prop where
  sound : job.Sound s
  checked : ∀ src steps, job = .retry src steps → RetryChecked s src steps

theorem apart_of_sound {s : JobStore} {job : Job} (h : job.Sound s)
    (hother : ∀ src steps, job ≠ .retry src steps) : job.Apart s :=
  ⟨h, fun src steps heq => absurd heq (hother src steps)⟩

/-- The uploads that a request adds. -/
theorem uploadRow_of_enter {s s' : JobStore} (hs : UploadsApart s) {x : JobInput} {ts : List Job}
    (h : jobs.enter s x = some (s', ts)) {u : ℕ × Text} (hu : u ∈ s'.history.uploads) :
    u ∈ s.history.uploads ∨ ∃ binds row, x = .create binds ∧ row ∈ s.db.builds.rows ∧
      supersedes binds (newBuild s.db binds) row = true ∧ UploadRow u (cancelRow binds.now row) ∧
      s'.db.builds.find row.id = some (withdrawPending (cancelRow binds.now row)) := by
  refine (uploads_of_enter hs.unreported h hu).imp_right ?_
  rintro ⟨binds, row, rfl, hcreate, hmem, hsupersedes, hnew⟩
  have hrow := Table.find_of_mem hmem
  have hupload := hs.families.uploadRow hrow hnew rfl rfl rfl
  refine ⟨binds, row, rfl, hmem, hsupersedes, hupload, ?_⟩
  rw [find_of_insert (create_eq_some hcreate).2.1 hrow, cancelSuperseded, if_pos hsupersedes]

theorem find_jobTransition {s : JobStore} {op : Transition} {status : BuildStatus} {row : Build}
    (hrow : s.db.builds.find op.buildId = some row) (hstatus : row.status = status) (now : ℤ) :
    (s.transition op status now).db.builds.find op.buildId =
      some (withdrawPending (transitionRow op.target op.results now row)) := by
  unfold JobStore.transition
  rw [hrow]
  dsimp only
  rw [if_pos hstatus]
  change (s.update .transition (·.id = op.buildId) _
    (transitionRow_id op.target op.results now)).db.builds.find op.buildId = _
  rw [find_update, hrow, Option.map_some, if_pos (by simpa using Table.key_of_find hrow)]

/-- The uploads that a call adds. -/
theorem uploadRow_of_advance {s s' : JobStore} (hs : UploadsApart s) {job : Job}
    {job' : Option Job} {answer : JobAnswer} (h : jobs.advance s job answer = some (s', job'))
    {u : ℕ × Text} (hu : u ∈ s'.history.uploads) :
    u ∈ s.history.uploads ∨ ∃ op status row, job = .loaded op status ∧
      s.db.builds.find op.buildId = some row ∧ row.status = status ∧
      UploadRow u (transitionRow op.target op.results answer.now row) ∧
      s'.db.builds.find op.buildId =
        some (withdrawPending (transitionRow op.target op.results answer.now row)) := by
  refine (uploads_of_advance hs.unreported h hu).imp_right ?_
  rintro ⟨op, status, row, rfl, hrow, hstatus, hnew⟩
  have hupload := hs.families.uploadRow hrow hnew rfl rfl rfl
  refine ⟨op, status, row, rfl, hrow, hstatus, hupload, ?_⟩
  obtain rfl : s.transition op status answer.now = s' :=
    congrArg Prod.fst (Option.some.inj h)
  exact find_jobTransition hrow hstatus answer.now

theorem UploadRow.withdrawPending {u : ℕ × Text} {row : Build} (h : UploadRow u row) :
    UploadRow u (withdrawPending row) := ⟨h.source, h.finished, h.step, h.succeeded⟩

theorem UploadRow.uploadedBy {u : ℕ × Text} {row : Build} (h : UploadRow u row) {steps : List Text}
    (hmem : u.2 ∈ steps) : UploadedBy u.1 steps row :=
  ⟨h.source, u.2, hmem, h.step, h.succeeded⟩

/-- A request keeps the uploads apart. -/
theorem uploadsApart_of_enter {s s' : JobStore} (hs : UploadsApart s) {x : JobInput}
    {ts : List Job} (h : jobs.enter s x = some (s', ts)) : UploadsApart s' := by
  have hstep := step_of_enter h
  obtain ⟨_, _, _, hhistory, -⟩ := history_of_enter h
  refine ⟨hs.unreported.step hstep, hs.families.step hstep (by rw [hhistory]), ?_, ?_⟩
  · refine shown_step hs.uploads hstep (fun k row _ hrow _ => ?_) fun u hu => ?_
    · exact isSome_of_enter h (by rw [hrow]; rfl)
    · refine (uploadRow_of_enter hs h hu).imp_right ?_
      rintro ⟨binds, row, -, -, -, hupload, hrow'⟩
      exact ⟨row.id, _, hrow', hupload.withdrawPending⟩
  · rw [hhistory]
    exact hs.uploads.queued

/-- A statement that queues no retry keeps the origins. -/
theorem origins_of_advance {s s' : JobStore} {job : Job} {job' : Option Job} {answer : JobAnswer}
    (h : jobs.advance s job answer = some (s', job')) (hjob : ∀ src steps, job ≠ .retry src steps) :
    s'.history.origins = s.history.origins ∧ s'.history.retries = s.history.retries := by
  replace h : advanceJob s job answer = (s', job') := Option.some.inj h
  cases job with
  | transition op =>
    simp only [advanceJob] at h
    split at h
    · cases h
      exact ⟨rfl, rfl⟩
    · split at h <;> cases h <;> exact ⟨rfl, rfl⟩
  | loaded op status =>
    cases h
    rcases transition_cases s op status answer.now with heq | ⟨_, -, -, -, -, hhistory⟩
    · rw [heq]
      exact ⟨rfl, rfl⟩
    · rw [hhistory]
      exact ⟨rfl, rfl⟩
  | preflight buildId =>
    cases h
    exact ⟨rfl, rfl⟩
  | retire buildId full =>
    simp only [advanceJob] at h
    split at h <;> cases h <;> exact ⟨rfl, rfl⟩
  | retry buildId steps => exact absurd rfl (hjob buildId steps)

/-- A retry that is queued uploads nothing that was uploaded before. -/
theorem queued_queueRetry {s : JobStore} (hs : UploadsApart s) {src : ℕ} {steps : List Text}
    (hchecked : RetryChecked s src steps) (now : ℤ) :
    ∀ q ∈ (s.queueRetry src steps now).history.retries, ∀ step ∈ q.steps, step ∉ q.uploaded := by
  rcases queueRetry_cases s src steps now with heq | ⟨source, b, hsource, -, -, -, -, hhistory⟩
  · rw [heq]
    exact hs.uploads.queued
  · have horigin := hs.families.plain src source hsource (hchecked.plain source hsource)
    rw [hhistory, horigin]
    intro q hq
    rcases List.mem_append.mp hq with hold | hnew
    · exact hs.uploads.queued q hold
    · rw [List.mem_singleton.mp hnew]
      intro step hstep hmem
      obtain ⟨u, hu, rfl⟩ := List.mem_map.mp hmem
      obtain ⟨hupload, hsrc⟩ := List.mem_filter.mp hu
      obtain rfl : u.1 = src := by simpa using hsrc
      exact hchecked.fresh u.2 hstep hupload

/-- A call keeps the uploads apart. -/
theorem uploadsApart_of_advance {s s' : JobStore} (hs : UploadsApart s) {job : Job}
    {job' : Option Job} {answer : JobAnswer} (hjob : job.Apart s)
    (hcond : retriesApart.advance s job answer)
    (h : jobs.advance s job answer = some (s', job')) : UploadsApart s' := by
  have hstep := step_of_advance hjob.sound h
  have hshown : ∀ u ∈ s'.history.uploads,
      ∃ k row, s'.db.builds.find k = some row ∧ UploadRow u row := by
    refine shown_step hs.uploads hstep (fun k row u hrow hupload => ?_) fun u hu => ?_
    · rcases isSome_of_advance h (k := k) (by rw [hrow]; rfl) with hsome | ⟨rfl, hrelease⟩
      · exact hsome
      · -- retention would have found the release
        rw [hcond row hrow ⟨u.2, hupload.step, hupload.succeeded⟩] at hrelease
        cases hrelease
    · refine (uploadRow_of_advance hs h hu).imp_right ?_
      rintro ⟨op, _, row, -, -, -, hupload, hrow'⟩
      exact ⟨op.buildId, _, hrow', hupload.withdrawPending⟩
  by_cases hretry : ∃ src steps, job = .retry src steps
  · obtain ⟨src, steps, rfl⟩ := hretry
    have hchecked := hjob.checked src steps rfl
    obtain rfl : s.queueRetry src steps answer.now = s' := congrArg Prod.fst (Option.some.inj h)
    exact ⟨hs.unreported.step hstep,
      hs.families.queueRetry answer.now hchecked.plain hchecked.nonempty, hshown,
      queued_queueRetry hs hchecked answer.now⟩
  · obtain ⟨horigins, hretries⟩ := origins_of_advance h fun src steps heq =>
      hretry ⟨src, steps, heq⟩
    exact ⟨hs.unreported.step hstep, hs.families.step hstep horigins, hshown,
      hretries ▸ hs.uploads.queued⟩

/-- The calls that a request starts. -/
theorem apart_of_enter {s s' : JobStore} (hs : UploadsApart s) {x : JobInput} {ts : List Job}
    (hcond : retriesApart.enter s x) (h : jobs.enter s x = some (s', ts)) :
    ∀ t ∈ ts, t.Apart s' := by
  intro t ht
  refine ⟨sound_of_enter h t ht, ?_⟩
  rintro src steps rfl
  change enterJob s x = some (s', ts) at h
  cases x with
  | retry buildId step out =>
    simp only [enterJob] at h
    split at h
    · cases h
    · rename_i checked hok
      cases h
      cases List.mem_singleton.mp ht
      obtain ⟨row, hrow, hnonempty, hopen⟩ := retryBuildStep_eq_ok hok
      refine ⟨hnonempty, lt_freshId_of_find hrow, hcond, fun step hmem hu => ?_⟩
      obtain ⟨k, other, hother, hupload⟩ := hs.uploads.shown _ hu
      exact hopen step hmem (hupload.taken hother)
  | create binds =>
    obtain ⟨_, -, heq⟩ := Option.map_eq_some_iff.mp h
    cases heq
    cases ht
  | claim buildId runnerId hash now =>
    obtain ⟨_, -, heq⟩ := Option.map_eq_some_iff.mp h
    cases heq
    cases ht
  | report runnerId buildId target results =>
    obtain ⟨_, -, heq⟩ := Option.map_eq_some_iff.mp h
    cases heq
    cases List.mem_singleton.mp ht
  | retention buildId full =>
    simp only [enterJob] at h
    split at h <;> cases h
    cases List.mem_singleton.mp ht
  | register runner =>
    simp only [enterJob] at h
    split at h <;> cases h
    cases ht
  | _ =>
    cases h
    simp at ht

/-- The call after its next statement. -/
theorem apart_of_advance {s s' : JobStore} {job : Job} {job' : Option Job} {answer : JobAnswer}
    (hjob : job.Apart s) (h : jobs.advance s job answer = some (s', job')) :
    ∀ v ∈ job', v.Apart s' := by
  intro v hv
  refine apart_of_sound (sound_of_advance hjob.sound h v hv) ?_
  rintro src steps rfl
  replace h : advanceJob s job answer = (s', job') := Option.some.inj h
  cases job with
  | transition op =>
    simp only [advanceJob] at h
    split at h
    · cases h
      cases hv
    · split at h <;> cases h <;> cases hv
  | loaded op status => cases h; cases hv
  | preflight buildId => cases h; cases hv
  | retire buildId full =>
    simp only [advanceJob] at h
    split at h <;> cases h <;> cases hv
  | retry buildId steps => cases h; cases hv

theorem uploadsApart_stable :
    Stable jobs retriesApart UploadsApart (fun s job => job.Apart s) fun _ _ => True where
  symm _ _ _ := trivial
  enter _ _ _ _ hs hcond h :=
    ⟨uploadsApart_of_enter hs h, apart_of_enter hs hcond h, List.pairwise_of_forall fun _ _ => trivial⟩
  enterBeside s x s' ts u hs _ h hu hbeside := by
    have hstep := step_of_enter h
    refine ⟨⟨hu.sound.step hstep, ?_⟩, fun _ _ => trivial⟩
    rintro src steps rfl
    refine (hu.checked src steps rfl).step hstep fun v hv => ?_
    refine (uploadRow_of_enter hs h hv).imp_right ?_
    rintro ⟨binds, row, rfl, hmem, hsupersedes, hupload, -⟩ ⟨rfl, hstep'⟩
    exact hbeside row hmem hsupersedes (hupload.uploadedBy hstep')
  advance _ _ _ _ _ hs ht hcond h :=
    ⟨uploadsApart_of_advance hs ht hcond h, apart_of_advance ht h⟩
  advanceBeside s t answer s' t' u hs ht _ h hu _ hbeside := by
    have hstep := step_of_advance ht.sound h
    refine ⟨⟨hu.sound.step hstep, ?_⟩, fun _ _ => trivial⟩
    rintro src steps rfl
    refine (hu.checked src steps rfl).step hstep fun v hv => ?_
    refine (uploadRow_of_advance hs h hv).imp_right ?_
    rintro ⟨op, status, row, rfl, hrow, hstatus, hupload, -⟩ ⟨rfl, hstep'⟩
    exact hbeside row hrow hstatus hupload.finished (hupload.uploadedBy hstep')
  drop _ _ hs _ := hs
  dropBeside _ _ _ _ _ hu _ := hu
  restart _ hs := hs

theorem uploadsApart_of_fresh {s : JobStore} (h : s.Fresh) : UploadsApart s := by
  obtain ⟨hrows, hhistory⟩ := h
  have hnone : ∀ k row, s.db.builds.find k ≠ some row := by
    intro k row hrow
    have hmem := Table.mem_of_find hrow
    rw [hrows] at hmem
    cases hmem
  refine ⟨fun k row hrow => absurd hrow (hnone k row), ⟨?_, fun k row hrow => absurd hrow (hnone k row),
    fun k row hrow => absurd hrow (hnone k row), fun k _ row _ _ _ hrow => absurd hrow (hnone k row)⟩, ?_, ?_⟩
  all_goals
    rw [hhistory]
    simp

/-! ## One upload at a time -/

/-- The build is unfinished and runs the upload of the artifact that `origin` stored: the build
itself, and the retries of the step. -/
def RunsUpload (history : History) (row : Build) (origin : ℕ) (step : Text) : Prop :=
  row.status.isTerminal = false ∧ history.origin row.id = origin ∧
    (row.snapshot.retrySteps = [] ∨ step ∈ row.snapshot.retrySteps)

/-- A plain build that is unfinished has no retry. -/
theorem FamiliesOk.eq_of_plain {s : JobStore} (h : FamiliesOk s) {k₁ k₂ : ℕ} {row₁ row₂ : Build}
    (h₁ : s.db.builds.find k₁ = some row₁) (h₂ : s.db.builds.find k₂ = some row₂)
    (hlive : row₁.status.isTerminal = false) (hplain : row₁.snapshot.retrySteps = [])
    (horigin : s.history.origin k₁ = s.history.origin k₂) : k₁ = k₂ := by
  rw [h.plain k₁ row₁ h₁ hplain] at horigin
  by_cases hretry : row₂.snapshot.retrySteps = []
  · exact horigin.trans (h.plain k₂ row₂ h₂ hretry)
  · obtain ⟨-, -, hdone⟩ := h.retry k₂ row₂ h₂ hretry
    rw [← horigin] at hdone
    rw [(hdone row₁ h₁).1] at hlive
    cases hlive

theorem FamiliesOk.runs_once {s : JobStore} (h : FamiliesOk s) {row₁ row₂ : Build}
    (hmem₁ : row₁ ∈ s.db.builds.rows) (hmem₂ : row₂ ∈ s.db.builds.rows) {origin : ℕ} {step : Text}
    (h₁ : RunsUpload s.history row₁ origin step) (h₂ : RunsUpload s.history row₂ origin step) :
    row₁ = row₂ := by
  have hrow₁ := Table.find_of_mem hmem₁
  have hrow₂ := Table.find_of_mem hmem₂
  obtain ⟨hlive₁, horigin₁, hruns₁⟩ := h₁
  obtain ⟨hlive₂, horigin₂, hruns₂⟩ := h₂
  have hid : row₁.id = row₂.id := by
    rcases hruns₁ with hplain | hstep₁
    · exact h.eq_of_plain hrow₁ hrow₂ hlive₁ hplain (horigin₁.trans horigin₂.symm)
    · rcases hruns₂ with hplain | hstep₂
      · exact (h.eq_of_plain hrow₂ hrow₁ hlive₂ hplain (horigin₂.trans horigin₁.symm)).symm
      · have hsrc₁ := (h.retry _ _ hrow₁ (List.ne_nil_of_mem hstep₁)).1
        have hsrc₂ := (h.retry _ _ hrow₂ (List.ne_nil_of_mem hstep₂)).1
        rw [horigin₁] at hsrc₁
        rw [horigin₂] at hsrc₂
        exact h.apart _ _ _ _ origin step hrow₁ hrow₂ hlive₁ hlive₂ hsrc₁ hsrc₂ hstep₁ hstep₂
  rw [hid, hrow₂] at hrow₁
  exact (Option.some.inj hrow₁).symm

/-- While no retry is itself retried, no retry ends between the checks of another request and its
insert, and retention finds the releases: at most one unfinished build uploads a stored artifact
to a store, and no retry is created for an upload that a retry has succeeded at. -/
theorem retries_upload_once (s : JobStore) (hfresh : s.Fresh)
    (events : List (Event JobInput JobAnswer)) (c : Config JobStore Job)
    (hrun : jobs.run ⟨s, []⟩ events = some c) (hmeets : jobs.Meets retriesApart ⟨s, []⟩ events) :
    (∀ row₁ ∈ c.shared.db.builds.rows, ∀ row₂ ∈ c.shared.db.builds.rows, ∀ origin step,
      RunsUpload c.shared.history row₁ origin step →
      RunsUpload c.shared.history row₂ origin step → row₁ = row₂) ∧
    ∀ q ∈ c.shared.history.retries, ∀ step ∈ q.steps, step ∉ q.uploaded := by
  have h := (uploadsApart_stable.run (.start (uploadsApart_of_fresh hfresh)) hmeets hrun).shared
  exact ⟨fun row₁ hmem₁ row₂ hmem₂ origin step h₁ h₂ => h.families.runs_once hmem₁ hmem₂ h₁ h₂,
    h.uploads.queued⟩

/-- A runner takes the build and reports how it ended, with the artifacts stored and the upload to
Play failed or not. -/
def uploadRun (buildId : ℕ) (uploaded : Bool) : List (Event JobInput JobAnswer) :=
  [.enter (.claim buildId "one" "hash" 2), .enter (.report "one" buildId .running none),
    .advance 0 { now := 3 }, .advance 0 { now := 3 },
    .enter (.report "one" buildId (if uploaded then .succeeded else .failed)
      (some { stepResults := some [⟨artifactsStep, true⟩, ⟨publishPlayStep, uploaded⟩]
              exitCode := none, fileSizeBudgets := none })),
    .advance 0 { now := 4 }, .advance 0 { now := 4 }]

/-- Publishing to Play is on and the bundle is stored. -/
def playReady : RetryOutside where
  permission := .ok ()
  playEnabled := true
  artifacts := ["app.aab"]
  appStoreEnabled := false
  ipaStored := false

/-- The upload of a build fails and is retried. -/
def retryOnce : List (Event JobInput JobAnswer) :=
  .enter (.create plainBinds) :: uploadRun 1 false ++
    [.enter (.retry 1 publishPlayStep playReady), .advance 0 { now := 5 }]

/-- No retry request is beside the step, and it retries a plain build. -/
def plainRetries (c : Config JobStore Job) : Event JobInput JobAnswer → Bool
  | .enter (.retry buildId _ _) => c.calls.isEmpty &&
      (c.shared.db.builds.find buildId).all fun row => row.snapshot.retrySteps.isEmpty
  | .enter _ => c.calls.isEmpty
  | .advance _ _ => c.calls.length == 1 && c.calls.all fun
      | .retire _ _ => false
      | _ => true
  | _ => true

theorem met_of_plainRetries {c : Config JobStore Job} {e : Event JobInput JobAnswer}
    (h : plainRetries c e = true) : retriesApart.Met c e := by
  cases e with
  | enter x =>
    have hcalls : c.calls = [] := by
      cases x <;> simp_all [plainRetries]
    refine ⟨?_, by simp [hcalls]⟩
    cases x with
    | retry buildId step out =>
      intro row hrow
      simp only [plainRetries, Bool.and_eq_true, Option.all_eq_true] at h
      simpa using h.2 row hrow
    | _ => trivial
  | advance i answer =>
    simp only [plainRetries, Bool.and_eq_true, beq_iff_eq, List.all_eq_true] at h
    obtain ⟨job, hjob⟩ := List.length_eq_one_iff.mp h.1
    intro t ht
    have hother := h.2 t (List.mem_of_getElem? ht)
    rw [hjob] at ht ⊢
    obtain ⟨rfl, rfl⟩ : i = 0 ∧ job = t := by
      cases i <;> simp_all
    refine ⟨?_, by simp⟩
    cases job with
    | retire buildId full => cases hother
    | _ => trivial
  | drop i => trivial
  | restart => trivial

theorem retries_upload_once_retried :
    ∃ c, jobs.run ⟨twoRunners, []⟩ retryOnce = some c ∧
      (∀ row₁ ∈ c.shared.db.builds.rows, ∀ row₂ ∈ c.shared.db.builds.rows, ∀ origin step,
        RunsUpload c.shared.history row₁ origin step →
        RunsUpload c.shared.history row₂ origin step → row₁ = row₂) ∧
      ∀ q ∈ c.shared.history.retries, ∀ step ∈ q.steps, step ∉ q.uploaded := by
  have hrun : (jobs.run ⟨twoRunners, []⟩ retryOnce).isSome = true := by decide +kernel
  obtain ⟨c, hc⟩ := Option.isSome_iff_exists.mp hrun
  have hchecks : jobs.checks plainRetries ⟨twoRunners, []⟩ retryOnce = true := by decide +kernel
  exact ⟨c, hc, retries_upload_once twoRunners ⟨rfl, rfl⟩ retryOnce c hc
    (meets_of_checks jobs (fun _ _ => met_of_plainRetries) hchecks)⟩

/-- The retry of the upload fails too; then the build and its retry are both retried. -/
def retryBoth : List (Event JobInput JobAnswer) :=
  retryOnce ++ uploadRun 2 false ++
    [.enter (.retry 2 publishPlayStep playReady), .advance 0 { now := 6 },
      .enter (.retry 1 publishPlayStep playReady), .advance 0 { now := 7 }]

/-- Both retries upload the artifact of the first build at the same time. -/
theorem retry_of_retry_uploads_twice :
    ¬∀ (s : JobStore), s.Fresh → ∀ (events : List (Event JobInput JobAnswer))
      (c : Config JobStore Job), jobs.run ⟨s, []⟩ events = some c →
      (∀ row₁ ∈ c.shared.db.builds.rows, ∀ row₂ ∈ c.shared.db.builds.rows, ∀ origin step,
        RunsUpload c.shared.history row₁ origin step →
        RunsUpload c.shared.history row₂ origin step → row₁ = row₂) ∧
      ∀ q ∈ c.shared.history.retries, ∀ step ∈ q.steps, step ∉ q.uploaded := by
  intro h
  have hruns : ((jobs.run ⟨twoRunners, []⟩ retryBoth).map fun c =>
      (c.shared.db.builds.rows.filter fun row => row.status.isTerminal = false).map fun row =>
        (row.id, c.shared.history.origin row.id, row.snapshot.retrySteps)) =
      some [(3, 1, [publishPlayStep]), (4, 1, [publishPlayStep])] := by decide +kernel
  obtain ⟨c, hc, hrows⟩ := Option.map_eq_some_iff.mp hruns
  have huploads : ∀ k, (k, 1, [publishPlayStep]) ∈ [(3, 1, [publishPlayStep]), (4, 1, [publishPlayStep])] →
      ∃ row ∈ c.shared.db.builds.rows, row.id = k ∧
        RunsUpload c.shared.history row 1 publishPlayStep := by
    intro k hk
    rw [← hrows] at hk
    obtain ⟨row, hmem, heq⟩ := List.mem_map.mp hk
    obtain ⟨hrow, hlive⟩ := List.mem_filter.mp hmem
    simp only [Prod.mk.injEq] at heq
    refine ⟨row, hrow, heq.1, by simpa using hlive, heq.2.1, .inr ?_⟩
    rw [heq.2.2]
    exact List.mem_singleton_self _
  obtain ⟨row₁, hmem₁, hid₁, h₁⟩ := huploads 3 (by simp)
  obtain ⟨row₂, hmem₂, hid₂, h₂⟩ := huploads 4 (by simp)
  have heq := (h twoRunners ⟨rfl, rfl⟩ retryBoth c hc).1 row₁ hmem₁ row₂ hmem₂ 1 publishPlayStep h₁ h₂
  rw [heq, hid₂] at hid₁
  cases hid₁

end OoreBuild
