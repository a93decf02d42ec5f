import OoreBuild.Baselines
import OoreBuild.Lib.Steps

/-!
# No baseline comes from a pull request

A build that a pull request started, or a rerun of one, must not be what others compare with. The
chain of reruns leads back to the pull request as long as no build of it is deleted and the chain
is not too long (`baselines_sound`).
-/

namespace OoreBuild

namespace Baselines

open Text Steps

/-! ## What a build was started by -/

/-- The build was started by a pull request, or is a rerun of one that was. -/
inductive FromPullRequest (history : Table Provenance.buildId) : ℕ → Prop where
  | started {id : ℕ} {p : Provenance} (hfind : history.find id = some p)
      (hstarted : p.pullRequest = true) : FromPullRequest history id
  | rerun {id source : ℕ} {p : Provenance} (hfind : history.find id = some p)
      (hsource : p.sourceBuildId = some source) (h : FromPullRequest history source) :
      FromPullRequest history id

/-- The pull request's build is so many reruns back. -/
def Store.StartedBack (s : Store) : ℕ → BuildRow → Prop
  | 0, row => row.isPullRequest = true ∧ row.sourceBuildId = none
  | n + 1, row => ∃ source, s.sourceOf row = some source ∧ s.StartedBack n source

/-- What is known of the builds that are still there. -/
structure Store.Sound (s : Store) : Prop where
  fresh : ∀ id p, s.history.find id = some p →
    id < s.nextId ∧ ∀ source, p.sourceBuildId = some source → source < id
  started : ∀ id p, s.history.find id = some p → p.pullRequest = true → p.sourceBuildId = none
  known : ∀ id row, s.builds.find id = some row → ∃ p, s.history.find id = some p ∧
    p.pullRequest = row.isPullRequest ∧
      (row.sourceBuildId = none ∨ row.sourceBuildId = p.sourceBuildId)
  commit : ∀ id row, s.builds.find id = some row → ∃ sha, row.commitSha = some sha ∧ sha ≠ []
  back : ∀ id row, s.builds.find id = some row → FromPullRequest s.history id →
    ∃ n ≤ maxRerunDepth, s.StartedBack n row

/-! ## The origin -/

theorem isPullRequest_originOf {s : Store} {n depth : ℕ} {row : BuildRow}
    (h : s.StartedBack n row) (hle : n ≤ depth) : (s.originOf depth row).isPullRequest = true := by
  induction n generalizing depth row with
  | zero =>
    have hsource : s.sourceOf row = none := by rw [Store.sourceOf, h.2]; rfl
    cases depth with
    | zero => exact h.1
    | succ depth =>
      rw [Store.originOf, hsource]
      exact h.1
  | succ n ih =>
    obtain ⟨source, hsource, hback⟩ := h
    cases depth with
    | zero => cases hle
    | succ depth =>
      rw [Store.originOf, hsource]
      exact ih hback (Nat.le_of_succ_le_succ hle)

theorem find_of_sourceOf {s : Store} {row source : BuildRow} (h : s.sourceOf row = some source) :
    row.sourceBuildId = some source.id ∧ s.builds.find source.id = some source := by
  obtain ⟨id, hid, hfind⟩ := Option.bind_eq_some_iff.mp h
  obtain rfl := Table.key_of_find hfind
  exact ⟨hid, hfind⟩

namespace Store.Sound

variable {s : Store}

/-- A rerun of a build that a pull request started is one too. -/
theorem fromPullRequest_of_source (h : s.Sound) {id : ℕ} {row source : BuildRow}
    (hrow : s.builds.find id = some row) (hsource : s.sourceOf row = some source)
    (hfrom : FromPullRequest s.history source.id) : FromPullRequest s.history id := by
  obtain ⟨p, hp, -, hnone | hsame⟩ := h.known id row hrow
  · rw [(find_of_sourceOf hsource).1] at hnone
    cases hnone
  · exact .rerun hp (hsame.symm.trans (find_of_sourceOf hsource).1) hfrom

theorem fromPullRequest_of_back (h : s.Sound) {n id : ℕ} {row : BuildRow}
    (hrow : s.builds.find id = some row) (hback : s.StartedBack n row) :
    FromPullRequest s.history id := by
  induction n generalizing id row with
  | zero =>
    obtain ⟨p, hp, hstarted, -⟩ := h.known id row hrow
    exact .started hp (hstarted.trans hback.1)
  | succ n ih =>
    obtain ⟨source, hsource, hback⟩ := hback
    exact h.fromPullRequest_of_source hrow hsource (ih (find_of_sourceOf hsource).2 hback)

theorem fromPullRequest_of_origin (h : s.Sound) {depth id : ℕ} {row : BuildRow}
    (hrow : s.builds.find id = some row)
    (horigin : (s.originOf depth row).isPullRequest = true) : FromPullRequest s.history id := by
  have hself : row.isPullRequest = true → FromPullRequest s.history id := by
    intro hstarted
    obtain ⟨p, hp, heq, -⟩ := h.known id row hrow
    exact .started hp (heq.trans hstarted)
  induction depth generalizing id row with
  | zero => exact hself horigin
  | succ depth ih =>
    unfold Store.originOf at horigin
    split at horigin
    · rename_i source hsource
      have hfind := (find_of_sourceOf hsource).2
      refine h.fromPullRequest_of_source hrow hsource (ih hfind horigin fun hstarted => ?_)
      obtain ⟨p, hp, heq, -⟩ := h.known _ source hfind
      exact .started hp (heq.trans hstarted)
    · exact hself horigin

/-- The origin shows the pull request wherever there is one. -/
theorem pullRequestOrigin_eq_none_iff (h : s.Sound) {id : ℕ} {row : BuildRow}
    (hrow : s.builds.find id = some row) :
    s.pullRequestOrigin id = none ↔ ¬ FromPullRequest s.history id := by
  unfold Store.pullRequestOrigin
  rw [hrow]
  dsimp only
  constructor
  · intro hnone hfrom
    obtain ⟨n, hle, hback⟩ := h.back id row hrow hfrom
    rw [if_pos (isPullRequest_originOf hback hle)] at hnone
    cases hnone
  · intro hnot
    rw [if_neg fun horigin => hnot (h.fromPullRequest_of_origin hrow horigin)]

end Store.Sound

/-! ## The baseline -/

/-- What a baseline must be: an earlier successful build of the pipeline on the branch, of another
commit. -/
structure Store.Earlier (s : Store) (build : BuildRow) (branch : Text)
    (baseline : BuildSizeBaseline) (row : BuildRow) : Prop where
  found : s.builds.find baseline.buildId = some row
  buildNumber : baseline.buildNumber = row.buildNumber
  pipeline : row.pipelineId = build.pipelineId
  branch : row.branch = some branch
  earlier : row.buildNumber < build.buildNumber
  succeeded : row.succeeded = true
  commit : row.commitSha ≠ build.commitSha

/-- No baseline comes from a pull request; it is an earlier successful build, and the newest of
those that qualify where there are not too many of them. -/
def Store.BaselinesSound (s : Store) : Prop :=
  ∀ id data build base result, s.builds.find id = some build →
    s.findBaseline id data = some (base, result) →
      (∀ baseline, result = some baseline → ¬ FromPullRequest s.history baseline.buildId ∧
        ∃ branch row, base = some branch ∧ s.Earlier build branch baseline row) ∧
      ∀ branch, base = some branch →
        (s.qualifying build branch data).length ≤ maxBaselineCandidates →
        ∀ row ∈ s.qualifying build branch data, ¬ FromPullRequest s.history row.id →
          ∃ baseline, result = some baseline ∧ row.buildNumber ≤ baseline.buildNumber

theorem Store.Sound.earlier {s : Store} (h : s.Sound) {build row : BuildRow} {branch : Text}
    {data : BaselineData} {id : ℕ} (hbuild : s.builds.find id = some build)
    (hrow : row ∈ s.qualifying build branch data) :
    s.Earlier build branch ⟨row.id, row.buildNumber, row.branch⟩ row := by
  obtain ⟨hmem, hqualifies⟩ := List.mem_filter.mp hrow
  unfold Store.qualifies at hqualifies
  simp only [Bool.and_eq_true, decide_eq_true_eq] at hqualifies
  obtain ⟨⟨⟨⟨⟨hpipeline, hbranch⟩, hearlier⟩, hsucceeded⟩, -⟩, hcommit⟩ := hqualifies
  obtain ⟨sha, hsha, hne⟩ := h.commit id build hbuild
  refine ⟨Table.find_of_mem hmem, rfl, hpipeline, hbranch, hearlier, hsucceeded, ?_⟩
  rw [hsha, Option.filter_some, if_pos (decide_eq_true hne), Option.all_some,
    decide_eq_true_eq] at hcommit
  rw [hsha]
  exact hcommit

instance : Std.Total fun a b : BuildRow => b.buildNumber ≤ a.buildNumber :=
  ⟨fun a b => le_total b.buildNumber a.buildNumber⟩

instance : IsTrans BuildRow fun a b => b.buildNumber ≤ a.buildNumber :=
  ⟨fun _ _ _ hab hbc => hbc.trans hab⟩

/-- The first one that is found among builds in the order of their numbers is the newest. -/
theorem le_of_find? {rows : List BuildRow} {p : BuildRow → Bool} {found row : BuildRow}
    (hsorted : rows.Pairwise fun a b => b.buildNumber ≤ a.buildNumber)
    (hfound : rows.find? p = some found) (hrow : row ∈ rows) (hp : p row = true) :
    row.buildNumber ≤ found.buildNumber := by
  obtain ⟨-, before, after, rfl, hbefore⟩ := List.find?_eq_some_iff_append.mp hfound
  rcases List.mem_append.mp hrow with hin | hin
  · have hnot := hbefore row hin
    rw [hp] at hnot
    cases hnot
  · rcases List.mem_cons.mp hin with rfl | hafter
    · exact le_rfl
    · exact (List.pairwise_cons.mp (List.pairwise_append.mp hsorted).2.1).1 row hafter

theorem Store.Sound.baselines {s : Store} (h : s.Sound) : s.BaselinesSound := by
  intro id data build base result hbuild hfound
  unfold Store.findBaseline at hfound
  rw [hbuild, Option.map_some, Option.some.injEq, Prod.mk.injEq] at hfound
  obtain ⟨hbase, hresult⟩ := hfound
  rw [hbase] at hresult
  have hmem : ∀ {branch : Text} {row : BuildRow}, row ∈ s.candidates build branch data →
      row ∈ s.qualifying build branch data := fun hin =>
    (List.mem_insertionSort _).mp (List.mem_of_mem_take hin)
  refine ⟨fun baseline hsome => ?_, fun branch hsome hle row hrow hnot => ?_⟩
  · rw [hsome] at hresult
    obtain ⟨branch, hbranch, hfind⟩ := Option.bind_eq_some_iff.mp hresult
    obtain ⟨row, hrow, rfl⟩ := Option.map_eq_some_iff.mp hfind
    have hin := hmem (List.mem_of_find?_eq_some hrow)
    have hearlier := h.earlier hbuild hin
    refine ⟨?_, branch, row, hbranch, hearlier⟩
    rw [← h.pullRequestOrigin_eq_none_iff hearlier.found, ← Option.isNone_iff_eq_none]
    have hnone := List.find?_some hrow
    exact hnone
  · rw [hsome, Option.bind_some] at hresult
    have hearlier := h.earlier hbuild hrow
    have horigin : (s.pullRequestOrigin row.id).isNone = true :=
      Option.isNone_iff_eq_none.mpr ((h.pullRequestOrigin_eq_none_iff hearlier.found).mpr hnot)
    -- none of those that qualify is cut off
    have hall : s.candidates build branch data = (s.qualifying build branch data).insertionSort
        fun a b => b.buildNumber ≤ a.buildNumber := by
      unfold Store.candidates
      rw [List.take_of_length_le]
      rwa [List.length_insertionSort]
    have hsorted : (s.candidates build branch data).Pairwise
        fun a b => b.buildNumber ≤ a.buildNumber := by
      rw [hall]
      exact List.pairwise_insertionSort _ _
    have hin : row ∈ s.candidates build branch data := by
      rw [hall]
      exact (List.mem_insertionSort _).mpr hrow
    cases hfind : (s.candidates build branch data).find? fun row =>
        (s.pullRequestOrigin row.id).isNone with
    | none =>
      rw [List.find?_eq_none] at hfind
      exact absurd horigin (hfind row hin)
    | some found =>
      rw [hfind] at hresult
      exact ⟨_, hresult.symm, le_of_find? hsorted hfind hin horigin⟩

/-! ## Runs -/

/-- What a build keeps of how it was started. -/
structure SameStart (row row' : BuildRow) : Prop where
  pullRequest : row'.isPullRequest = row.isPullRequest
  commit : row'.commitSha = row.commitSha

/-- Changes of rows that leave the sources alone keep the chains. -/
theorem StartedBack.mapRows {s s' : Store} {f : BuildRow → BuildRow}
    (hfind : ∀ id, s'.builds.find id = (s.builds.find id).map f)
    (hstart : ∀ row, SameStart row (f row))
    (hsource : ∀ row, (f row).sourceBuildId = row.sourceBuildId) {n : ℕ} {row : BuildRow}
    (h : s.StartedBack n row) : s'.StartedBack n (f row) := by
  induction n generalizing row with
  | zero => exact ⟨(hstart row).pullRequest.trans h.1, (hsource row).trans h.2⟩
  | succ n ih =>
    obtain ⟨source, hfound, hback⟩ := h
    obtain ⟨hid, hold⟩ := find_of_sourceOf hfound
    refine ⟨f source, ?_, ih hback⟩
    rw [Store.sourceOf, hsource, hid, Option.bind_some, hfind, hold, Option.map_some]

theorem Store.Sound.mapRows {s s' : Store} {f : BuildRow → BuildRow} (h : s.Sound)
    (hfind : ∀ id, s'.builds.find id = (s.builds.find id).map f)
    (hhistory : s'.history = s.history) (hnext : s'.nextId = s.nextId)
    (hstart : ∀ row, SameStart row (f row))
    (hsource : ∀ row, (f row).sourceBuildId = row.sourceBuildId) : s'.Sound where
  fresh := by
    rw [hhistory, hnext]
    exact h.fresh
  started := by
    rw [hhistory]
    exact h.started
  known id row' hrow' := by
    rw [hfind] at hrow'
    obtain ⟨row, hrow, rfl⟩ := Option.map_eq_some_iff.mp hrow'
    rw [hhistory, (hstart row).pullRequest, hsource]
    exact h.known id row hrow
  commit id row' hrow' := by
    rw [hfind] at hrow'
    obtain ⟨row, hrow, rfl⟩ := Option.map_eq_some_iff.mp hrow'
    rw [(hstart row).commit]
    exact h.commit id row hrow
  back id row' hrow' hfrom := by
    rw [hfind] at hrow'
    obtain ⟨row, hrow, rfl⟩ := Option.map_eq_some_iff.mp hrow'
    rw [hhistory] at hfrom
    obtain ⟨n, hle, hback⟩ := h.back id row hrow hfrom
    exact ⟨n, hle, StartedBack.mapRows hfind hstart hsource hback⟩

theorem Store.Sound.of_builds {s s' : Store} (h : s.Sound) (hbuilds : s'.builds = s.builds)
    (hhistory : s'.history = s.history) (hnext : s'.nextId = s.nextId) : s'.Sound := by
  refine h.mapRows (f := id) (fun k => ?_) hhistory hnext (fun _ => ⟨rfl, rfl⟩) fun _ => rfl
  rw [hbuilds, Option.map_id_fun, id_eq]

theorem Store.Sound.modify {s : Store} (h : s.Sound) (id : ℕ) (f : BuildRow → BuildRow)
    (hf : ∀ row, (f row).id = row.id) (hstart : ∀ row, SameStart row (f row))
    (hsource : ∀ row, (f row).sourceBuildId = row.sourceBuildId) :
    Store.Sound { s with builds := s.builds.modify id f hf } := by
  refine h.mapRows (fun k => ?_) rfl rfl (f := fun row => if row.id = id then f row else row)
    (fun row => ?_) fun row => ?_
  · have hif : ∀ row : BuildRow, (if row.id = id then f row else row).id = row.id := by
      intro row
      split
      · exact hf row
      · rfl
    rw [Table.modify_eq_mapRows _ _ _ _ hif, Table.find_mapRows]
  · split
    · exact hstart row
    · exact ⟨rfl, rfl⟩
  · split
    · exact hsource row
    · rfl

theorem BuildRow.sameStart_expire (row : BuildRow) :
    SameStart row row.expire ∧ row.expire.sourceBuildId = row.sourceBuildId := by
  unfold BuildRow.expire
  split_ifs <;> exact ⟨⟨rfl, rfl⟩, rfl⟩

/-! ### Deletion -/

theorem find_deleteBuild (s : Store) (id k : ℕ) : (s.deleteBuild id).builds.find k =
    if k = id then none else (s.builds.find k).map (·.forget id) := by
  refine (Table.find_mapRows (s.builds.erase id) (·.forget id) (fun _ => rfl) k).trans ?_
  rw [Table.find_erase]
  split <;> rfl

/-- A build is deleted that no pull request is behind, or that no rerun needs. -/
theorem Store.Sound.deleteBuild {s : Store} (h : s.Sound) {id : ℕ}
    (hcond : FromPullRequest s.history id →
      ∀ row ∈ s.builds.rows, row.sourceBuildId ≠ some id) : (s.deleteBuild id).Sound := by
  have hold : ∀ {k : ℕ} {row' : BuildRow}, (s.deleteBuild id).builds.find k = some row' →
      k ≠ id ∧ ∃ row, s.builds.find k = some row ∧ row' = row.forget id := by
    intro k row' hrow'
    rw [find_deleteBuild] at hrow'
    split at hrow'
    · cases hrow'
    · rename_i hne
      obtain ⟨row, hrow, heq⟩ := Option.map_eq_some_iff.mp hrow'
      exact ⟨hne, row, hrow, heq.symm⟩
  have hback : ∀ {n k : ℕ} {row : BuildRow}, s.builds.find k = some row → s.StartedBack n row →
      (s.deleteBuild id).StartedBack n (row.forget id) := by
    intro n
    induction n with
    | zero =>
      intro k row hrow hback
      refine ⟨hback.1, ?_⟩
      show row.sourceBuildId.filter _ = none
      rw [hback.2]
      rfl
    | succ n ih =>
      intro k row hrow hback
      obtain ⟨source, hsource, hback⟩ := hback
      obtain ⟨hid, hfind⟩ := find_of_sourceOf hsource
      have hne : source.id ≠ id := by
        intro heq
        rw [heq] at hid hfind
        exact hcond (h.fromPullRequest_of_back hfind hback) row (Table.mem_of_find hrow) hid
      refine ⟨source.forget id, ?_, ih hfind hback⟩
      show (row.sourceBuildId.filter _).bind _ = _
      rw [hid, Option.filter_some, if_pos (decide_eq_true hne), Option.bind_some,
        find_deleteBuild, if_neg hne, hfind, Option.map_some]
  refine ⟨h.fresh, h.started, fun k row' hrow' => ?_, fun k row' hrow' => ?_,
    fun k row' hrow' hfrom => ?_⟩
  · obtain ⟨-, row, hrow, rfl⟩ := hold hrow'
    obtain ⟨p, hp, hstarted, hsource⟩ := h.known k row hrow
    refine ⟨p, hp, hstarted, ?_⟩
    show row.sourceBuildId.filter _ = none ∨ row.sourceBuildId.filter _ = _
    cases hid : row.sourceBuildId with
    | none => exact .inl rfl
    | some source =>
      rw [Option.filter_some]
      split
      · rw [hid] at hsource
        exact .inr (hsource.resolve_left nofun)
      · exact .inl rfl
  · obtain ⟨-, row, hrow, rfl⟩ := hold hrow'
    exact h.commit k row hrow
  · obtain ⟨-, row, hrow, rfl⟩ := hold hrow'
    obtain ⟨n, hle, hstarted⟩ := h.back k row hrow hfrom
    exact ⟨n, hle, hback hrow hstarted⟩

/-! ### New builds -/

/-- A new build changes nothing for the others. -/
theorem fromPullRequest_of_insert {s : Store} (h : s.Sound) {p : Provenance}
    (hnew : p.buildId ∉ s.history.rows.map (·.buildId)) {id : ℕ} (hid : id < s.nextId)
    (hp : p.buildId = s.nextId) (hfrom : FromPullRequest (s.history.insert p hnew) id) :
    FromPullRequest s.history id := by
  have hfind : ∀ {k : ℕ}, k < s.nextId →
      (s.history.insert p hnew).find k = s.history.find k := by
    intro k hk
    rw [Table.find_insert, if_neg (by omega)]
  induction hfrom with
  | started hp hstarted =>
    rw [hfind hid] at hp
    exact .started hp hstarted
  | rerun hp hsource _ ih =>
    rw [hfind hid] at hp
    have hlt := (h.fresh _ _ hp).2 _ hsource
    exact .rerun hp hsource (ih (by omega))

theorem Store.Sound.insertBuild {s s' : Store} (h : s.Sound) {row : BuildRow}
    (hinsert : s.insertBuild row = some s') (hid : row.id = s.nextId)
    (hcommit : ∃ sha, row.commitSha = some sha ∧ sha ≠ [])
    (hstarted : row.isPullRequest = true → row.sourceBuildId = none)
    (hsource : ∀ id, row.sourceBuildId = some id → ∃ source, s.builds.find id = some source ∧
      (FromPullRequest s.history id → ∃ n < maxRerunDepth, s.StartedBack n source)) :
    s'.Sound := by
  unfold Store.insertBuild at hinsert
  split at hinsert
  swap
  · cases hinsert
  rename_i hnew
  split at hinsert
  swap
  · cases hinsert
  rename_i hhistory
  cases hinsert
  have hlt : ∀ {id : ℕ} {p : Provenance}, s.history.find id = some p → id < s.nextId :=
    fun hp => (h.fresh _ _ hp).1
  have hknown : ∀ {id : ℕ} {row : BuildRow}, s.builds.find id = some row → id < s.nextId := by
    intro id row hrow
    obtain ⟨p, hp, -⟩ := h.known id row hrow
    exact hlt hp
  have hback : ∀ {n : ℕ} {old : BuildRow}, s.StartedBack n old → Store.StartedBack
      { s with
        builds := s.builds.insert row hnew
        history := s.history.insert ⟨row.id, row.sourceBuildId, row.isPullRequest⟩ hhistory
        nextId := row.id + 1 } n old := by
    intro n
    induction n with
    | zero => exact fun hback => hback
    | succ n ih =>
      intro old hback
      obtain ⟨source, hfound, hback⟩ := hback
      obtain ⟨hsid, hfind⟩ := find_of_sourceOf hfound
      refine ⟨source, ?_, ih hback⟩
      have := hknown hfind
      rw [Store.sourceOf, hsid, Option.bind_some, Table.find_insert, if_neg (by omega), hfind]
  refine ⟨fun id p hp => ?_, fun id p hp => ?_, fun id old hold => ?_, fun id old hold => ?_,
    fun id old hold hfrom => ?_⟩
  · rw [Table.find_insert] at hp
    split at hp
    · rename_i heq
      cases hp
      refine ⟨by simp [heq], fun source hsome => ?_⟩
      obtain ⟨found, hfind, -⟩ := hsource source hsome
      have := hknown hfind
      simp only at heq
      omega
    · have := h.fresh id p hp
      exact ⟨by simp only [hid]; omega, this.2⟩
  · rw [Table.find_insert] at hp
    split at hp
    · cases hp
      exact hstarted
    · exact h.started id p hp
  · rw [Table.find_insert] at hold ⊢
    split at hold
    · rename_i heq
      cases hold
      rw [if_pos heq]
      exact ⟨_, rfl, rfl, .inr rfl⟩
    · rename_i hne
      rw [if_neg hne]
      exact h.known id old hold
  · rw [Table.find_insert] at hold
    split at hold
    · cases hold
      exact hcommit
    · exact h.commit id old hold
  · rw [Table.find_insert] at hold
    split at hold
    · rename_i heq
      cases hold
      cases hfrom with
      | started hp hpull =>
        rw [Table.find_insert, if_pos heq] at hp
        cases hp
        exact ⟨0, Nat.zero_le _, hpull, hstarted hpull⟩
      | rerun hp hsome hfrom =>
        rw [Table.find_insert, if_pos heq] at hp
        cases hp
        replace hsome : row.sourceBuildId = some _ := hsome
        obtain ⟨source, hfind, hwhen⟩ := hsource _ hsome
        have hsid := hknown hfind
        obtain ⟨n, hn, hstartedBack⟩ := hwhen (fromPullRequest_of_insert h hhistory hsid hid hfrom)
        refine ⟨n + 1, hn, source, ?_, hback hstartedBack⟩
        rw [Store.sourceOf, hsome, Option.bind_some, Table.find_insert,
          if_neg (hid.symm ▸ hsid.ne), hfind]
    · have hlt := hknown hold
      obtain ⟨n, hle, hstartedBack⟩ :=
        h.back id old hold (fromPullRequest_of_insert h hhistory hlt hid hfrom)
      exact ⟨n, hle, hback hstartedBack⟩

/-! ### Every run -/

/-- No build that a pull request is behind is deleted while a rerun of it is there, and none is
rerun that is 50 reruns away from the pull request's build already. -/
def Store.KeepsChains (s : Store) : Event → Prop
  | .rerun source _ => FromPullRequest s.history source → ∀ row, s.builds.find source = some row →
    ∃ n < maxRerunDepth, s.StartedBack n row
  | .cleanup id true => FromPullRequest s.history id → id ∉ s.released →
    ∀ row ∈ s.builds.rows, row.sourceBuildId ≠ some id
  | _ => True

theorem Store.Sound.step {s s' : Store} {event : Event} (h : s.Sound)
    (hcond : s.KeepsChains event) (hstep : s.step event = some s') : s'.Sound := by
  cases event with
  | branches projectId branches =>
    cases hstep
    exact h.of_builds rfl rfl rfl
  | trigger projectId pipelineId trigger branch commit =>
    exact h.insertBuild hstep rfl ⟨commit.1, rfl, commit.2⟩ (fun _ => rfl) nofun
  | rerun source retry =>
    obtain ⟨row, hrow, hinsert⟩ := Option.bind_eq_some_iff.mp hstep
    refine h.insertBuild hinsert rfl (h.commit source row hrow) (fun hpull => ?_) fun id hid => ?_
    · cases retry <;> cases hpull
    · cases hid
      exact ⟨row, hrow, fun hfrom => hcond hfrom row hrow⟩
  | transition id status =>
    obtain ⟨row, -, hstep⟩ := Option.bind_eq_some_iff.mp hstep
    split at hstep
    · cases hstep
      exact h.modify id _ _ (fun _ => ⟨rfl, rfl⟩) fun _ => rfl
    · cases hstep
  | record id data =>
    obtain ⟨row, -, hstep⟩ := Option.bind_eq_some_iff.mp hstep
    cases hstep
    exact h.of_builds rfl rfl rfl
  | release id =>
    obtain ⟨row, -, hstep⟩ := Option.bind_eq_some_iff.mp hstep
    cases hstep
    exact h.of_builds rfl rfl rfl
  | cleanup id full =>
    cases hstep
    unfold Store.cleanupBuildRecord
    split
    · rename_i hdeleted
      obtain ⟨rfl, hreleased⟩ := hdeleted
      exact h.deleteBuild fun hfrom => hcond hfrom hreleased
    · exact h.modify id _ _ (fun row => row.sameStart_expire.1) fun row => row.sameStart_expire.2

theorem Store.sound_new : Store.new.Sound := by
  refine ⟨?_, ?_, ?_, ?_, ?_⟩
  all_goals
    intro id row hrow
    cases hrow

/-- While the chains of reruns are kept, no build compares with one of a pull request. -/
theorem baselines_sound {events : List Event} {s : Store}
    (hkept : Meets Store.step Store.KeepsChains .new events)
    (hrun : run Store.step .new events = some s) : s.BaselinesSound :=
  (keeps_run (fun _ _ _ h hcond hstep => h.step hcond hstep) Store.sound_new hkept hrun).baselines

/-- Only builds that a pull request started itself are rerun, and none with a rerun is deleted. -/
def Store.looksKept (s : Store) : Event → Bool
  | .rerun source _ => (s.builds.find source).all fun row =>
    row.isPullRequest && row.sourceBuildId.isNone
  | .cleanup id true => s.builds.rows.all (·.sourceBuildId ≠ some id)
  | _ => true

theorem Store.keepsChains_of_looksKept (s : Store) (event : Event)
    (h : s.looksKept event = true) : s.KeepsChains event := by
  cases event with
  | rerun source retry =>
    intro _ row hrow
    simp only [looksKept, hrow, Option.all_some, Bool.and_eq_true, Option.isNone_iff_eq_none] at h
    exact ⟨0, by decide, h⟩
  | cleanup id full =>
    cases full with
    | false => trivial
    | true =>
      intro _ _
      simpa [looksKept] using h
  | _ => trivial

def pullRequestDelivery : Webhook := ⟨"pull_request", none⟩

def main : Text := "main".toList

/-- A build that succeeds and records its sizes. -/
def succeeds (id : ℕ) : List Event :=
  [.transition id .scheduled, .transition id .assigned, .transition id .running,
    .transition id .succeeded, .record id .sizes]

/-- A push to the default branch, a pull request from a branch of the same name, its rerun, and
another push. -/
def keptRun : List Event :=
  .branches "app".toList ⟨some main, none⟩ ::
  .trigger "app".toList "ci".toList (.webhook "push".toList ⟨"push".toList, none⟩) (some main)
    ⟨"a1".toList, by decide⟩ :: succeeds 0 ++
  .trigger "app".toList "ci".toList (.webhook "pull_request".toList pullRequestDelivery)
    (some main) ⟨"b1".toList, by decide⟩ :: succeeds 1 ++
  .rerun 1 false :: succeeds 2 ++
  [.trigger "app".toList "ci".toList (.webhook "push".toList ⟨"push".toList, none⟩) (some main)
    ⟨"c1".toList, by decide⟩]

theorem keptRun_sound : ∃ s, run Store.step .new keptRun = some s ∧
    s.findBaseline 3 .sizes = some (some main, some ⟨0, 1, some main⟩) ∧ s.BaselinesSound := by
  have hrun : (run Store.step .new keptRun).any (fun s =>
      s.findBaseline 3 .sizes = some (some main, some ⟨0, 1, some main⟩)) = true := by
    decide +kernel
  obtain ⟨s, hs, hbaseline⟩ := Option.any_eq_true _ _ |>.mp hrun
  exact ⟨s, hs, of_decide_eq_true hbaseline,
    baselines_sound (meets_of_checks Store.keepsChains_of_looksKept (by decide +kernel)) hs⟩

/-- A pull request from a branch with the default branch's name, a rerun of its build, and
retention that deletes the build but not the rerun. -/
def orphanedRun : List Event :=
  .branches "app".toList ⟨some main, none⟩ ::
  .trigger "app".toList "ci".toList (.webhook "pull_request".toList pullRequestDelivery)
    (some main) ⟨"b1".toList, by decide⟩ :: succeeds 0 ++
  .rerun 0 false :: succeeds 1 ++
  [.cleanup 0 true,
    .trigger "app".toList "ci".toList (.webhook "push".toList ⟨"push".toList, none⟩) (some main)
    ⟨"c1".toList, by decide⟩]

/-- The push compares with the rerun of the pull request's build. -/
theorem orphaned_rerun_is_baseline : ¬ ∀ events s,
    run Store.step .new events = some s → s.BaselinesSound := by
  intro hall
  have hrun : (run Store.step .new orphanedRun).any (fun s =>
      s.findBaseline 2 .sizes = some (some main, some ⟨1, 2, some main⟩) &&
      s.history.find 0 = some ⟨0, none, true⟩ && s.history.find 1 = some ⟨1, some 0, false⟩ &&
      (s.builds.find 2).isSome) = true := by
    decide +kernel
  obtain ⟨s, hs, hstate⟩ := Option.any_eq_true _ _ |>.mp hrun
  simp only [Bool.and_eq_true, decide_eq_true_eq, Option.isSome_iff_exists] at hstate
  obtain ⟨⟨⟨hbaseline, hfirst⟩, hrerun⟩, row, hrow⟩ := hstate
  exact (((hall _ s hs) 2 .sizes row _ _ hrow hbaseline).1 _ rfl).1
    (.rerun hrerun rfl (.started hfirst rfl))

end Baselines

end OoreBuild
