import OoreBuild.BuildNumbers

/-!
# Builds with releases

Cleanups leave builds with a release under way alone when they choose what to clean, and do not look
again before they delete. `releases_kept` is what that protects: a build with a release never loses
its row, and a build with a release under way loses nothing unless that release comes while a
cleanup or the monitor of expired artifacts has already chosen the build.
-/

namespace OoreBuild

open Text Interleave

/-! ## What a loss may be -/

/-- Nothing was taken from a build with a release under way, and no row from one with a release. -/
structure Loss.Ok (loss : Loss) : Prop where
  settled : ∀ state ∈ loss.releases, state.isTerminal = true
  unreleased : loss.kind = .buildRow → loss.releases = []

def RetentionStore.Safe (s : RetentionStore) : Prop := ∀ loss ∈ s.losses, loss.Ok

/-- No build that the call has chosen has a release under way. -/
def RetentionCall.Clear (s : RetentionStore) (call : RetentionCall) : Prop :=
  ∀ buildId ∈ call.selected, s.releasing buildId = false

variable {s s' : RetentionStore} {buildId : ℕ}

theorem settled_of_not_releasing (h : s.releasing buildId = false) :
    ∀ state ∈ s.releaseStates buildId, state.isTerminal = true := by
  intro state hstate
  have hnot := List.any_eq_false.mp h state hstate
  simpa using hnot

theorem not_releasing_iff : s.releasing buildId = false ↔
    ∀ release ∈ s.releases.rows, release.buildId = buildId → release.state.isTerminal = true := by
  constructor
  · intro h release hrelease hbuild
    exact settled_of_not_releasing h _ (List.mem_map_of_mem
      (List.mem_filter.mpr ⟨hrelease, decide_eq_true hbuild⟩))
  · intro h
    refine List.any_eq_false.mpr fun state hstate => ?_
    obtain ⟨release, hrelease, rfl⟩ := List.mem_map.mp hstate
    obtain ⟨hin, hbuild⟩ := List.mem_filter.mp hrelease
    simp [h release hin (of_decide_eq_true hbuild)]

theorem releasing_congr (h : s'.releases = s.releases) (buildId : ℕ) :
    s'.releasing buildId = s.releasing buildId := by
  unfold RetentionStore.releasing RetentionStore.releaseStates
  rw [h]

/-- A build that a cleanup may touch has no release under way. -/
theorem not_releasing_of_allows {eligible : Eligible} {row : Build}
    (h : eligible.allows s row = true) : s.releasing row.id = false := by
  unfold Eligible.allows at h
  rw [Bool.and_eq_true, Bool.not_eq_true', List.any_eq_false] at h
  refine not_releasing_iff.mpr fun release hrelease hbuild => ?_
  have hnot := h.2 release hrelease
  simp only [hbuild, decide_true, Bool.true_and, Bool.or_eq_true, Bool.not_eq_true', not_or,
    Bool.not_eq_false] at hnot
  exact hnot.1

/-! ## What a cleanup chooses -/

theorem mem_of_orderedBy {le : Option ℤ → Option ℤ → Bool} {rows : List Build} {ids : List ℕ}
    (h : orderedBy le rows ids = true) {id : ℕ} (hid : id ∈ ids) : ∃ row ∈ rows, row.id = id := by
  unfold orderedBy at h
  rw [Bool.and_eq_true, List.isPerm_iff] at h
  exact List.mem_map.mp (h.1.mem_iff.mp hid)

theorem not_releasing_of_eligible {projectId : Text} {policy : RetentionPolicy} {row : Build}
    (h : row ∈ eligibleBuilds s projectId policy) : s.releasing row.id = false := by
  obtain ⟨-, hallowed⟩ := List.mem_filter.mp h
  rw [Bool.and_eq_true] at hallowed
  exact not_releasing_of_allows hallowed.2

theorem mem_takeUntilFits {maxSize remaining : ℤ} {candidates ids : List ℕ} {id : ℕ}
    (h : id ∈ takeUntilFits s maxSize remaining candidates ids) : id ∈ candidates ∨ id ∈ ids := by
  induction ids generalizing remaining candidates with
  | nil => exact .inl h
  | cons first ids ih =>
    unfold takeUntilFits at h
    split at h
    · exact .inl h
    · split at h
      · exact (ih h).imp_right (List.mem_cons_of_mem _)
      · rcases ih h with hin | hin
        · rcases List.mem_append.mp hin with hin | hin
          · exact .inl hin
          · exact .inr (List.mem_singleton.mp hin ▸ List.mem_cons_self)
        · exact .inr (List.mem_cons_of_mem _ hin)

/-- A cleanup that is choosing, with the candidates of one kind of query. -/
theorem selected_afterExcess (c : Collecting) :
    c.afterExcess.selected = if c.policy.dryRun then [] else c.candidates := by
  unfold Collecting.afterExcess
  split <;> rfl

theorem selected_afterExpired (c : Collecting) :
    c.afterExpired.selected = if c.policy.dryRun then [] else c.candidates := by
  unfold Collecting.afterExpired
  split
  · rfl
  · exact selected_afterExcess c

theorem selected_start (c : Collecting) :
    c.start.selected = if c.policy.dryRun then [] else c.candidates := by
  unfold Collecting.start
  split
  · rfl
  · exact selected_afterExpired c

/-- The candidates that a query adds are clear, so all are. -/
theorem clear_candidates {c : Collecting} {candidates : List ℕ}
    (hold : ∀ id ∈ if c.policy.dryRun then [] else c.candidates, s.releasing id = false)
    (hnew : ∀ id ∈ candidates, id ∈ c.candidates ∨ s.releasing id = false) :
    ∀ id ∈ if c.policy.dryRun then [] else candidates, s.releasing id = false := by
  intro id hid
  split at hid
  · cases hid
  · rename_i hdry
    rw [if_neg hdry] at hold
    rcases hnew id hid with hin | hclear
    · exact hold id hin
    · exact hclear

theorem mem_add {c : Collecting} {ids : List ℕ} {id : ℕ} (h : id ∈ (c.add ids).candidates) :
    id ∈ c.candidates ∨ id ∈ ids :=
  (List.mem_append.mp h).imp_right fun hin => (List.mem_filter.mp hin).1

theorem selected_nextBuild {target : RetentionCleanupTarget} {work : List (ℕ × List Text)}
    {call : RetentionCall} (h : call ∈ nextBuild target work) :
    call.selected = work.map Prod.fst := by
  unfold nextBuild at h
  split at h
  · cases h
  · obtain rfl := Option.some.inj h
    rfl

theorem selected_nextExpired {artifacts : List StoredArtifact} {call : RetentionCall}
    (h : call ∈ nextExpired artifacts) : call.selected = artifacts.map StoredArtifact.buildId := by
  unfold nextExpired at h
  split at h
  · cases h
  · obtain rfl := Option.some.inj h
    rfl

/-- The query goes on with the builds that were chosen before. -/
theorem sizes_clear {call : RetentionCall} {answer : RetentionAnswer}
    {next : Option RetentionCall} (hclear : call.Clear s) (h : collect s answer call = some next)
    (hsizes : (∃ c, call = .totalSize c) ∨ (∃ c total, call = .eligibleSize c total) ∨
      ∃ c total, call = .pickedSize c total) : ∀ call' ∈ next, call'.Clear s := by
  have hsame : ∀ call' ∈ next, call'.selected = call.selected := by
    rcases hsizes with ⟨c, rfl⟩ | ⟨c, total, rfl⟩ | ⟨c, total, rfl⟩ <;>
      simp only [collect] at h <;> split at h
    all_goals first
      | cases h
        simp
      | split at h <;> cases h <;> rintro call' hcall' <;> obtain rfl := Option.some.inj hcall' <;>
          rfl
  intro call' hcall' id hid
  exact hclear id (hsame call' hcall' ▸ hid)

/-- The queries of a cleanup choose builds without a release under way. -/
theorem collect_clear {call : RetentionCall} {answer : RetentionAnswer}
    {next : Option RetentionCall} (hclear : call.Clear s) (h : collect s answer call = some next) :
    ∀ call' ∈ next, call'.Clear s := by
  cases call with
  | expiredIds c =>
    simp only [collect] at h
    split at h
    · cases h
      simp
    · split at h
      · rename_i hordered
        cases h
        rintro call' hcall' id hid
        obtain rfl := Option.some.inj hcall'
        rw [selected_afterExpired] at hid
        refine clear_candidates (c := c) hclear (fun id hin => ?_) id hid
        refine (mem_add hin).imp_right fun hin => ?_
        obtain ⟨row, hrow, rfl⟩ := mem_of_orderedBy hordered (List.mem_of_mem_take hin)
        exact not_releasing_of_eligible (List.mem_filter.mp hrow).1
      · cases h
  | excessIds c =>
    simp only [collect] at h
    split at h
    · cases h
      simp
    · split at h
      · rename_i hordered
        cases h
        rintro call' hcall' id hid
        obtain rfl := Option.some.inj hcall'
        rw [selected_afterExcess] at hid
        refine clear_candidates (c := c) hclear (fun id hin => ?_) id hid
        refine (mem_add hin).imp_right fun hin => ?_
        obtain ⟨row, hrow, rfl⟩ := mem_of_orderedBy hordered
          (List.mem_of_mem_drop (List.mem_of_mem_take hin))
        exact not_releasing_of_eligible hrow
      · cases h
  | totalSize c => exact sizes_clear hclear h (.inl ⟨c, rfl⟩)
  | eligibleSize c total => exact sizes_clear hclear h (.inr (.inl ⟨c, total, rfl⟩))
  | pickedSize c total => exact sizes_clear hclear h (.inr (.inr ⟨c, total, rfl⟩))
  | oldestSizes c remaining =>
    simp only [collect] at h
    split at h
    · cases h
      simp
    · split at h
      · rename_i hordered
        cases h
        rintro call' hcall' id hid
        obtain rfl := Option.some.inj hcall'
        refine clear_candidates (c := c) hclear (fun id hin => ?_) id hid
        refine (mem_takeUntilFits hin).imp_right fun hin => ?_
        obtain ⟨row, hrow, rfl⟩ := mem_of_orderedBy hordered (List.mem_of_mem_take hin)
        exact not_releasing_of_eligible (List.mem_filter.mp hrow).1
      · cases h
  | loadArtifacts c =>
    simp only [collect] at h
    split at h
    · cases h
      simp
    · split at h
      · rename_i hperm
        cases h
        rintro call' hcall' id hid
        split at hcall'
        · cases hcall'
        · rename_i hdry
          rw [selected_nextBuild hcall', List.map_map] at hid
          obtain ⟨id', hin, rfl⟩ := List.mem_map.mp hid
          refine hclear id' ?_
          show id' ∈ if c.policy.dryRun then [] else c.candidates
          rw [if_neg hdry]
          exact (List.isPerm_iff.mp hperm).mem_iff.mp hin
      · cases h
  | _ => cases h

/-! ## Statements -/

theorem releases_moveBuild (s : RetentionStore) (buildId : ℕ) (target : BuildStatus) (now : ℤ) :
    (s.moveBuild buildId target now).releases = s.releases ∧
      (s.moveBuild buildId target now).losses = s.losses := by
  unfold RetentionStore.moveBuild
  split <;> exact ⟨rfl, rfl⟩

theorem releases_deleteArtifactRows (s : RetentionStore) (buildId : ℕ) :
    (s.deleteArtifactRows buildId).releases = s.releases := by
  unfold RetentionStore.deleteArtifactRows
  split <;> rfl

/-- What a statement adds to the losses: at most one, of a build that its call has chosen, and a
build's row only where it has no release. -/
inductive LossStep (call : RetentionCall) (s s' : RetentionStore) : Prop where
  | none (h : s'.losses = s.losses)
  | loss (buildId : ℕ) (kind : LossKind) (hselected : buildId ∈ call.selected)
      (hrow : kind = .buildRow → s.releaseStates buildId = [])
      (h : s'.losses = ⟨buildId, kind, s.releaseStates buildId⟩ :: s.losses)

theorem lossStep_deleteArtifactRows {call : RetentionCall} (hselected : buildId ∈ call.selected) :
    LossStep call s (s.deleteArtifactRows buildId) := by
  unfold RetentionStore.deleteArtifactRows
  split
  · exact .loss buildId .artifactRows hselected (fun hkind => by cases hkind) rfl
  · exact .none rfl

theorem advanceRetention_losses {call : RetentionCall} {answer : RetentionAnswer}
    {next : Option RetentionCall} (h : advanceRetention s call answer = some (s', next)) :
    LossStep call s s' := by
  cases call with
  | insertRelease buildId state =>
    simp only [advanceRetention] at h
    split at h
    · cases h
      exact .none rfl
    · split at h
      · cases h
        exact .none rfl
      · cases h
  | deleteFiles target buildId files rest =>
    cases files with
    | cons file files =>
      simp only [advanceRetention] at h
      split at h
      · cases h
        exact .none rfl
      · cases h
        exact .loss buildId .file List.mem_cons_self (fun hkind => by cases hkind) rfl
    | nil =>
      cases target with
      | artifactsOnly =>
        cases h
        exact .none rfl
      | full =>
        simp only [advanceRetention] at h
        split at h <;> cases h <;> exact .none rfl
  | deleteBuild buildId rest =>
    simp only [advanceRetention] at h
    split at h
    · cases h
      exact .none rfl
    · split at h
      · rename_i hfree
        rw [Bool.and_eq_true, List.isEmpty_iff] at hfree
        cases h
        exact .loss buildId .buildRow List.mem_cons_self (fun _ => hfree.2) rfl
      · cases h
        exact .none rfl
  | deleteArtifacts target buildId rest =>
    simp only [advanceRetention] at h
    split at h
    · cases h
      exact .none rfl
    · cases h
      exact lossStep_deleteArtifactRows List.mem_cons_self
  | rememberStatus target buildId rest =>
    simp only [advanceRetention] at h
    split at h <;> cases h <;> exact .none rfl
  | expireBuild target buildId rest =>
    simp only [advanceRetention] at h
    obtain ⟨rfl, -⟩ := Prod.mk.inj (Option.some.inj h)
    split
    · exact .none rfl
    · exact .none (releases_moveBuild s buildId .expired answer.now).2
  | deleteExpiredFile artifact rest =>
    simp only [advanceRetention] at h
    split at h
    · cases h
      exact .none rfl
    · cases h
      exact .loss artifact.buildId .file List.mem_cons_self (fun hkind => by cases hkind) rfl
  | deleteExpiredRow artifact rest =>
    simp only [advanceRetention] at h
    split at h
    · cases h
      exact .none rfl
    · cases h
      exact .loss artifact.buildId .artifactRows List.mem_cons_self (fun hkind => by cases hkind) rfl
  | _ =>
    obtain ⟨next', -, heq⟩ := Option.map_eq_some_iff.mp h
    cases heq
    exact .none rfl

theorem LossStep.safe {call : RetentionCall} (h : LossStep call s s') (hsafe : s.Safe)
    (hclear : call.Clear s) : s'.Safe := by
  cases h with
  | none hlosses =>
    unfold RetentionStore.Safe
    rw [hlosses]
    exact hsafe
  | loss buildId kind hselected hrow hlosses =>
    intro loss hloss
    rw [hlosses] at hloss
    rcases List.mem_cons.mp hloss with rfl | hloss
    · exact ⟨settled_of_not_releasing (hclear buildId hselected), hrow⟩
    · exact hsafe loss hloss

/-- Calls that go on with fewer builds are clear. -/
theorem clear_of_subset {call : RetentionCall} {next : Option RetentionCall}
    (hclear : call.Clear s) (h : ∀ call' ∈ next, call'.selected ⊆ call.selected) :
    ∀ call' ∈ next, call'.Clear s :=
  fun call' hcall' id hid => hclear id (h call' hcall' hid)

/-- A statement of a call other than the insert of a release. -/
theorem advanceRetention_clear {call : RetentionCall} {answer : RetentionAnswer}
    {next : Option RetentionCall} (hclear : call.Clear s)
    (hnot : ∀ buildId state, call ≠ .insertRelease buildId state)
    (h : advanceRetention s call answer = some (s', next)) :
    s'.releases = s.releases ∧ ∀ call' ∈ next, call'.Clear s := by
  have hbuilds : ∀ {target : RetentionCleanupTarget} {rest : List (ℕ × List Text)},
      rest.map Prod.fst ⊆ call.selected → ∀ call' ∈ nextBuild target rest, call'.Clear s :=
    fun hsub => clear_of_subset hclear fun call' hcall' => selected_nextBuild hcall' ▸ hsub
  have hexpired : ∀ {rest : List StoredArtifact},
      rest.map StoredArtifact.buildId ⊆ call.selected →
        ∀ call' ∈ nextExpired rest, call'.Clear s :=
    fun hsub => clear_of_subset hclear fun call' hcall' => selected_nextExpired hcall' ▸ hsub
  have hgo : ∀ {call' : RetentionCall}, call'.selected ⊆ call.selected →
      ∀ call'' ∈ some call', call''.Clear s :=
    fun hsub => clear_of_subset hclear fun call'' hcall'' => Option.some.inj hcall'' ▸ hsub
  cases call with
  | insertRelease buildId state => exact absurd rfl (hnot buildId state)
  | deleteFiles target buildId files rest =>
    cases files with
    | cons file files =>
      simp only [advanceRetention] at h
      split at h
      · cases h
        exact ⟨rfl, hbuilds (List.subset_cons_self _ _)⟩
      · cases h
        exact ⟨rfl, hgo (List.Subset.refl _)⟩
    | nil =>
      cases target with
      | artifactsOnly =>
        cases h
        exact ⟨rfl, hgo (List.Subset.refl _)⟩
      | full =>
        simp only [advanceRetention] at h
        split at h
        · cases h
          exact ⟨rfl, hbuilds (List.subset_cons_self _ _)⟩
        · cases h
          exact ⟨rfl, hgo (List.Subset.refl _)⟩
  | deleteBuild buildId rest =>
    simp only [advanceRetention] at h
    split at h
    · cases h
      exact ⟨rfl, hbuilds (List.subset_cons_self _ _)⟩
    · split at h
      · cases h
        exact ⟨rfl, hbuilds (List.subset_cons_self _ _)⟩
      · cases h
        exact ⟨rfl, hgo (List.Subset.refl _)⟩
  | deleteArtifacts target buildId rest =>
    simp only [advanceRetention] at h
    split at h
    · cases h
      exact ⟨rfl, hbuilds (List.subset_cons_self _ _)⟩
    · cases h
      exact ⟨releases_deleteArtifactRows s buildId, hgo (List.subset_cons_self _ _)⟩
  | rememberStatus target buildId rest =>
    simp only [advanceRetention] at h
    split at h
    · cases h
      exact ⟨rfl, hbuilds (List.Subset.refl _)⟩
    · cases h
      exact ⟨rfl, hgo (List.Subset.refl _)⟩
  | expireBuild target buildId rest =>
    simp only [advanceRetention] at h
    obtain ⟨rfl, rfl⟩ := Prod.mk.inj (Option.some.inj h)
    split
    · exact ⟨rfl, hbuilds (List.Subset.refl _)⟩
    · exact ⟨(releases_moveBuild s buildId .expired answer.now).1, hbuilds (List.Subset.refl _)⟩
  | deleteExpiredFile artifact rest =>
    simp only [advanceRetention] at h
    split at h
    · cases h
      exact ⟨rfl, hexpired (List.subset_cons_self _ _)⟩
    · cases h
      exact ⟨rfl, hgo (List.Subset.refl _)⟩
  | deleteExpiredRow artifact rest =>
    simp only [advanceRetention] at h
    split at h
    · cases h
      exact ⟨rfl, hexpired (List.subset_cons_self _ _)⟩
    · cases h
      exact ⟨rfl, hexpired (List.subset_cons_self _ _)⟩
  | _ =>
    obtain ⟨next', hnext, heq⟩ := Option.map_eq_some_iff.mp h
    obtain ⟨rfl, rfl⟩ := Prod.mk.inj heq
    exact ⟨rfl, collect_clear hclear hnext⟩

/-- The insert of a release. -/
theorem insertRelease_releases {state : ReleaseState} {answer : RetentionAnswer}
    {next : Option RetentionCall}
    (h : advanceRetention s (.insertRelease buildId state) answer = some (s', next)) :
    next = none ∧ ∀ other, (other = buildId → state.isTerminal = true) →
      s.releasing other = false → s'.releasing other = false := by
  simp only [advanceRetention] at h
  split at h
  · cases h
    exact ⟨rfl, fun _ _ hclear => hclear⟩
  · split at h
    · cases h
      refine ⟨rfl, fun other hstate hclear => not_releasing_iff.mpr fun release hrelease hbuild => ?_⟩
      rcases List.mem_append.mp hrelease with hrelease | hrelease
      · exact not_releasing_iff.mp hclear release hrelease hbuild
      · obtain rfl := List.mem_singleton.mp hrelease
        exact hstate hbuild.symm
    · cases h

theorem not_canTransitionTo_of_isTerminal {state target : ReleaseState}
    (h : state.isTerminal = true) : state.canTransitionTo target = false := by
  cases state <;> first | rfl | cases h

/-- A release that settled does not go on. -/
theorem releasing_moveRelease {releaseId : ℕ} {target : ReleaseState}
    (hcan : (s.releases.find releaseId).any (fun release => release.state.canTransitionTo target) =
      true) (hreleases : s'.releases =
        s.releases.modify releaseId (fun release => { release with state := target }) fun _ => rfl)
    (hclear : s.releasing buildId = false) : s'.releasing buildId = false := by
  refine not_releasing_iff.mpr fun release hrelease hid => ?_
  rw [hreleases] at hrelease
  obtain ⟨before, hbefore, rfl⟩ := List.mem_map.mp hrelease
  split at hid
  · rename_i hsame
    have hterminal := not_releasing_iff.mp hclear before hbefore hid
    have hfind := Table.find_of_mem hbefore
    rw [hsame] at hfind
    rw [hfind, Option.any_some, not_canTransitionTo_of_isTerminal hterminal] at hcan
    cases hcan
  · rename_i hne
    rw [if_neg hne]
    exact not_releasing_iff.mp hclear before hbefore hid

theorem enterRetention_clear {input : RetentionInput} {started : List RetentionCall}
    (henter : enterRetention s input = some (s', started)) :
    s'.losses = s.losses ∧ (∀ buildId, s.releasing buildId = false → s'.releasing buildId = false) ∧
      ∀ call ∈ started, call.Clear s' := by
  have hsame : ∀ {s' : RetentionStore}, s'.releases = s.releases → ∀ buildId,
      s.releasing buildId = false → s'.releasing buildId = false :=
    fun hreleases buildId hclear => (releasing_congr hreleases buildId).trans hclear
  cases input with
  | createBuild binds =>
    obtain ⟨db, hinsert, heq⟩ := Option.map_eq_some_iff.mp henter
    cases heq
    exact ⟨rfl, hsame rfl, by simp⟩
  | transitionBuild buildId target now =>
    cases henter
    obtain ⟨hreleases, hlosses⟩ := releases_moveBuild s buildId target now
    exact ⟨hlosses, hsame hreleases, by simp⟩
  | upload artifact =>
    simp only [enterRetention] at henter
    split at henter
    · split at henter
      · cases henter
        exact ⟨rfl, hsame rfl, by simp⟩
      · cases henter
    · cases henter
  | createRelease buildId state =>
    simp only [enterRetention] at henter
    split at henter
    · cases henter
      exact ⟨rfl, hsame rfl, by simp [RetentionCall.Clear, RetentionCall.selected]⟩
    · cases henter
  | promote buildId state =>
    simp only [enterRetention] at henter
    split at henter
    · cases henter
    · cases henter
      exact ⟨rfl, hsame rfl, by simp [RetentionCall.Clear, RetentionCall.selected]⟩
  | moveRelease releaseId target =>
    simp only [enterRetention] at henter
    split at henter
    · rename_i hcan
      cases henter
      exact ⟨rfl,
        fun buildId hclear => releasing_moveRelease hcan rfl hclear, by simp⟩
    · cases henter
  | cleanupProject projectId policy now =>
    simp only [enterRetention] at henter
    split at henter
    · cases henter
      refine ⟨rfl, hsame rfl, fun call hcall id hid => ?_⟩
      rw [List.mem_singleton.mp hcall, selected_start] at hid
      split at hid <;> cases hid
    · cases henter
      exact ⟨rfl, hsame rfl, by simp⟩
  | expireArtifacts now artifacts =>
    simp only [enterRetention] at henter
    split at henter
    · rename_i hloaded
      cases henter
      refine ⟨rfl, hsame rfl, fun call hcall id hid => ?_⟩
      rw [selected_nextExpired (Option.mem_toList.mp hcall)] at hid
      obtain ⟨artifact, hartifact, rfl⟩ := List.mem_map.mp hid
      unfold loadExpiredArtifacts at hloaded
      rw [Bool.and_eq_true, List.all_eq_true] at hloaded
      have hartifact := hloaded.2 artifact hartifact
      rw [Bool.and_eq_true, Bool.not_eq_true'] at hartifact
      exact hartifact.2
    · cases henter

/-! ## Runs -/

/-- No release under way comes to a build that a cleanup or the monitor has chosen and not
finished. -/
def chosenUnreleased : Condition RetentionStore RetentionCall RetentionInput RetentionAnswer :=
  { Condition.any with advanceBeside := fun _ call _ other =>
      ∀ buildId state, call = .insertRelease buildId state → state.isTerminal = false →
        buildId ∉ other.selected }

theorem enterRetention_safe {input : RetentionInput} {started : List RetentionCall} (h : s.Safe)
    (henter : enterRetention s input = some (s', started)) : s'.Safe := by
  unfold RetentionStore.Safe
  rw [(enterRetention_clear henter).1]
  exact h

theorem releases_stable : Stable retention chosenUnreleased RetentionStore.Safe
    (fun s call => call.Clear s) fun _ _ => True where
  symm _ _ _ := trivial
  enter _ _ _ _ h _ henter :=
    ⟨enterRetention_safe h henter, (enterRetention_clear henter).2.2,
      List.pairwise_of_forall fun _ _ => trivial⟩
  enterBeside _ _ _ _ _ _ _ henter hu _ :=
    ⟨fun id hid => (enterRetention_clear henter).2.1 id (hu id hid), fun _ _ => trivial⟩
  advance s call answer s' next h hcall _ hadvance := by
    refine ⟨(advanceRetention_losses hadvance).safe h hcall, ?_⟩
    by_cases hinsert : ∃ buildId state, call = .insertRelease buildId state
    · obtain ⟨buildId, state, rfl⟩ := hinsert
      obtain ⟨rfl, -⟩ := insertRelease_releases hadvance
      simp
    · obtain ⟨hreleases, hclear⟩ := advanceRetention_clear hcall
        (fun buildId state heq => hinsert ⟨buildId, state, heq⟩) hadvance
      exact fun call' hcall' id hid =>
        (releasing_congr hreleases id).trans (hclear call' hcall' id hid)
  advanceBeside s call answer s' next other _ hcall _ hadvance hother _ hbeside := by
    refine ⟨fun id hid => ?_, fun _ _ => trivial⟩
    by_cases hinsert : ∃ buildId state, call = .insertRelease buildId state
    · obtain ⟨buildId, state, rfl⟩ := hinsert
      refine (insertRelease_releases hadvance).2 id (fun heq => ?_) (hother id hid)
      by_contra hstate
      exact hbeside buildId state rfl (Bool.eq_false_iff.mpr hstate) (heq ▸ hid)
    · have hclear := advanceRetention_clear hcall
        (fun buildId state heq => hinsert ⟨buildId, state, heq⟩) hadvance
      exact (releasing_congr hclear.1 id).trans (hother id hid)
  drop _ _ h _ := h
  dropBeside _ _ _ _ _ hu _ := hu
  restart _ h := h

/-- No row of a build with a release was taken. -/
def RetentionStore.RowsKept (s : RetentionStore) : Prop :=
  ∀ loss ∈ s.losses, loss.kind = .buildRow → loss.releases = []

theorem rows_stable : Stable retention .any RetentionStore.RowsKept (fun _ _ => True)
    fun _ _ => True where
  symm _ _ _ := trivial
  enter _ _ _ _ h _ henter := by
    refine ⟨?_, fun _ _ => trivial, List.pairwise_of_forall fun _ _ => trivial⟩
    unfold RetentionStore.RowsKept
    rw [(enterRetention_clear henter).1]
    exact h
  enterBeside _ _ _ _ _ _ _ _ _ _ := ⟨trivial, fun _ _ => trivial⟩
  advance _ _ _ _ _ h _ _ hadvance := by
    refine ⟨?_, fun _ _ => trivial⟩
    intro loss hloss
    cases advanceRetention_losses hadvance with
    | none hlosses => exact h loss (hlosses ▸ hloss)
    | loss buildId kind _ hrow hlosses =>
      rw [hlosses] at hloss
      rcases List.mem_cons.mp hloss with rfl | hloss
      · exact hrow
      · exact h loss hloss
  advanceBeside _ _ _ _ _ _ _ _ _ _ _ _ _ := ⟨trivial, fun _ _ => trivial⟩
  drop _ _ h _ := h
  dropBeside _ _ _ _ _ _ _ := trivial
  restart _ h := h

/-- No build with a release loses its row, and where no release under way comes to a build that is
already chosen, no build with a release under way loses a file or a row. -/
theorem releases_kept {s : RetentionStore} (hfresh : s.Fresh)
    {es : List (Event RetentionInput RetentionAnswer)} {c : Config RetentionStore RetentionCall}
    (hrun : retention.run ⟨s, []⟩ es = some c) :
    (∀ loss ∈ c.shared.losses, loss.kind = .buildRow → loss.releases = []) ∧
      (retention.Meets chosenUnreleased ⟨s, []⟩ es → ∀ loss ∈ c.shared.losses,
        ∀ state ∈ loss.releases, state.isTerminal = true) := by
  have hrows : s.RowsKept := by
    intro loss hloss
    rw [hfresh.losses] at hloss
    cases hloss
  have hsafe : s.Safe := by
    intro loss hloss
    rw [hfresh.losses] at hloss
    cases hloss
  exact ⟨(rows_stable.run (.start hrows) (meets_any _ _ _) hrun).shared, fun hmeets loss hloss =>
    ((releases_stable.run (.start hsafe) hmeets hrun).shared loss hloss).settled⟩

/-! ## Two runs -/

/-- A build that succeeded, with an artifact. -/
def builtArtifact : List (Event RetentionInput RetentionAnswer) :=
  [.enter (.createBuild plainBinds), .enter (.transitionBuild 1 .scheduled 0),
    .enter (.transitionBuild 1 .assigned 0), .enter (.transitionBuild 1 .running 0),
    .enter (.transitionBuild 1 .succeeded 0),
    .enter (.upload ⟨1, 1, "artifacts/1/1/app.aab", some 5, .available, none⟩)]

/-- A cleanup ten days later chooses it and is about to delete its file. -/
def chooseBuild : List (Event RetentionInput RetentionAnswer) :=
  [.enter (.cleanupProject "p" dayPolicy 864000), .advance 0 { ordered := [1] },
    .advance 0 { ordered := [1] }]

def checkChosen (c : Config RetentionStore RetentionCall) :
    Event RetentionInput RetentionAnswer → Bool
  | .advance i _ =>
    match c.calls[i]? with
    | some (.insertRelease buildId state) =>
      state.isTerminal || (c.calls.eraseIdx i).all fun other => !other.selected.contains buildId
    | _ => true
  | _ => true

theorem met_of_checkChosen {c : Config RetentionStore RetentionCall}
    {e : Event RetentionInput RetentionAnswer} (h : checkChosen c e = true) :
    chosenUnreleased.Met c e := by
  cases e with
  | enter input => exact ⟨trivial, fun _ _ => trivial⟩
  | drop i => trivial
  | restart => trivial
  | advance i answer =>
    intro call hcall
    refine ⟨trivial, fun other hother => ?_⟩
    rintro buildId state rfl hstate
    simp only [checkChosen, hcall, hstate, Bool.false_or] at h
    simpa using List.all_eq_true.mp h other hother

/-- A cleanup takes the file of a build without a release, which is released later. -/
theorem releases_kept_later : ∃ c, retention.run ⟨noBuilds, []⟩
      (builtArtifact ++ chooseBuild ++ [.advance 0 {}, .advance 0 {}, .advance 0 {}]) = some c ∧
    (∀ loss ∈ c.shared.losses, ∀ state ∈ loss.releases, state.isTerminal = true) ∧
    c.shared.losses ≠ [] := by
  have hmeets := meets_of_checks retention (fun _ _ => met_of_checkChosen)
    (show retention.checks checkChosen ⟨noBuilds, []⟩
      (builtArtifact ++ chooseBuild ++ [.advance 0 {}, .advance 0 {}, .advance 0 {}]) = true by
      decide +kernel)
  have hsome : (retention.run ⟨noBuilds, []⟩ (builtArtifact ++ chooseBuild ++
      [.advance 0 {}, .advance 0 {}, .advance 0 {}])).any (fun c => c.shared.losses ≠ []) = true := by
    decide +kernel
  obtain ⟨c, hc, hlosses⟩ := Option.any_eq_true _ _ |>.mp hsome
  exact ⟨c, hc, (releases_kept fresh_noBuilds hc).2 hmeets, of_decide_eq_true hlosses⟩

/-- A release between the choice of its build and the deletion of its file. -/
theorem release_loses_file : ¬ ∀ (s : RetentionStore), s.Fresh →
    ∀ (es : List (Event RetentionInput RetentionAnswer)) (c : Config RetentionStore RetentionCall),
    retention.run ⟨s, []⟩ es = some c →
    (∀ loss ∈ c.shared.losses, loss.kind = .buildRow → loss.releases = []) ∧
      ∀ loss ∈ c.shared.losses, ∀ state ∈ loss.releases, state.isTerminal = true := by
  intro h
  have hlast : (retention.run ⟨noBuilds, []⟩ (builtArtifact ++ chooseBuild ++
      [.enter (.createRelease 1 .rolling), .advance 1 {}, .advance 0 {}])).any (fun c =>
      c.shared.losses.any fun loss => loss.releases.contains .rolling) = true := by
    decide +kernel
  obtain ⟨c, hc, hlosses⟩ := Option.any_eq_true _ _ |>.mp hlast
  obtain ⟨loss, hloss, hrolling⟩ := List.any_eq_true.mp hlosses
  have hterminal := (h noBuilds fresh_noBuilds _ c hc).2 loss hloss .rolling
    (List.contains_iff_mem.mp hrolling)
  cases hterminal

end OoreBuild
