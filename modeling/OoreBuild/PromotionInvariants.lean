import OoreBuild.PromotionSteps

/-!
# Promotions happen once

What holds in every state that any interleaving of the calls of `promotions` reaches, whatever is
cut short: a promotion calls the store at most once, and after an approval where it waits for one;
a completed or rejected promotion stays as it is; and a build has at most one release by promotion
in an environment that did not fail.

A call owns the promotions and the releases of the locks it holds (`BoardFrame`): no statement of
another call changes them, other than to delete them with their environment.
-/

namespace OoreBuild

open Text Interleave

/-! ## What a lock protects -/

/-- The release puts the build into the environment, by promotion. -/
structure ProjectRelease.PromotedInto (release : ProjectRelease) (buildId environmentId : ℕ) :
    Prop where
  promoted : release.promotedFromReleaseId.isSome = true
  build : release.buildId = buildId
  environment : release.environmentId = some environmentId
  live : release.state ≠ .failed

/-- No release by promotion holds the build in the environment. -/
def Clear (s : Board) (buildId environmentId : ℕ) : Prop :=
  ∀ release ∈ s.releases.rows, ¬release.PromotedInto buildId environmentId

theorem clear_of_hasRelease {s : Board} {buildId environmentId : ℕ}
    (h : hasRelease s buildId environmentId = false) : Clear s buildId environmentId := by
  intro release hmem hinto
  unfold hasRelease at h
  rw [List.any_eq_false] at h
  refine h release hmem ?_
  simp [hinto.build, hinto.environment, hinto.live]

/-- The promotion, while its row is there, is under one of the locks, in one of the states. -/
def Locked (s : Board) (guards : List LockKey) (id : ℕ) (p : PromotionState → Prop) : Prop :=
  id < s.nextId ∧ ∀ row, s.promotions.find id = some row → p row.state ∧ row.lockKey ∈ guards

/-- The promotion is `promoting` under one of the locks. -/
def Promoting (s : Board) (guards : List LockKey) (id : ℕ) : Prop :=
  Locked s guards id (· = .promoting)

/-- The promotion has not called the store, and may. -/
def Uncalled (s : Board) (id : ℕ) : Prop :=
  (∀ call ∈ s.history.storeCalls, call.promotionId ≠ id) ∧
    (id ∈ s.history.createdPending → id ∈ s.history.approved)

/-- The release to promote from is of the build. -/
def SourceOk (s : Board) (sourceReleaseId buildId : ℕ) : Prop :=
  sourceReleaseId < s.nextId ∧
    ∀ release, s.releases.find sourceReleaseId = some release → release.buildId = buildId

/-- What a decision read of its promotion. -/
structure Known (s : Board) (d : PromotionDecision) (promotion : EnvironmentPromotion) : Prop where
  id : d.promotionId < s.nextId
  row : ∀ row, s.promotions.find d.promotionId = some row → row.lockKey = promotion.lockKey
  source : SourceOk s promotion.sourceReleaseId promotion.buildId

/-- What one statement under some locks leaves of what the other locks protect, and the promotion
it calls the store for. -/
structure BoardFrame (guards : List LockKey) (called : Option ℕ) (s s' : Board) : Prop where
  nextId : s.nextId ≤ s'.nextId
  rows : ∀ id row', s'.promotions.find id = some row' → s.nextId ≤ id ∨
    s.promotions.find id = some row' ∨
    ∃ row, s.promotions.find id = some row ∧ row.lockKey = row'.lockKey ∧ row.lockKey ∈ guards ∧
      row.state ≠ .completed ∧ row.state ≠ .rejected
  releases : ∀ id release', s'.releases.find id = some release' → s.nextId ≤ id ∨
    ∃ release, s.releases.find id = some release ∧ release.buildId = release'.buildId
  clear : ∀ buildId environmentId, LockKey.promotion buildId environmentId ∉ guards →
    Clear s buildId environmentId → Clear s' buildId environmentId
  calls : ∀ call ∈ s'.history.storeCalls,
    call ∈ s.history.storeCalls ∨ called = some call.promotionId
  pending : ∀ id ∈ s'.history.createdPending, id ∈ s.history.createdPending ∨ s.nextId ≤ id
  approved : ∀ id ∈ s.history.approved, id ∈ s'.history.approved

/-- A statement that leaves the promotions and the releases alone. -/
theorem frame_of_eq {guards : List LockKey} {called : Option ℕ} {s s' : Board}
    (hnext : s.nextId ≤ s'.nextId) (hpromotions : s'.promotions = s.promotions)
    (hreleases : s'.releases = s.releases) (hhistory : s'.history = s.history) :
    BoardFrame guards called s s' where
  nextId := hnext
  rows _ _ h := .inr (.inl (hpromotions ▸ h))
  releases _ release' h := .inr ⟨release', hreleases ▸ h, rfl⟩
  clear _ _ _ h := by
    unfold Clear
    rw [hreleases]
    exact h
  calls _ h := .inl (hhistory ▸ h)
  pending _ h := .inl (hhistory ▸ h)
  approved _ h := hhistory ▸ h

theorem BoardFrame.trans {guards : List LockKey} {called : Option ℕ} {s mid s' : Board}
    (h₁ : BoardFrame guards called s mid) (h₂ : BoardFrame guards called mid s') :
    BoardFrame guards called s s' where
  nextId := h₁.nextId.trans h₂.nextId
  rows id row' h := by
    rcases h₂.rows id row' h with hnew | hsame | ⟨row, hrow, hkey, hin⟩
    · exact .inl (h₁.nextId.trans hnew)
    · exact h₁.rows id row' hsame
    · rcases h₁.rows id row hrow with hnew | hsame | ⟨old, hold, hkey', hin'⟩
      · exact .inl hnew
      · exact .inr (.inr ⟨row, hsame, hkey, hin⟩)
      · exact .inr (.inr ⟨old, hold, hkey'.trans hkey, hin'⟩)
  releases id release' h := by
    rcases h₂.releases id release' h with hnew | ⟨release, hrelease, hbuild⟩
    · exact .inl (h₁.nextId.trans hnew)
    · exact (h₁.releases id release hrelease).imp_right fun ⟨old, hold, heq⟩ =>
        ⟨old, hold, heq.trans hbuild⟩
  clear buildId environmentId hout h :=
    h₂.clear buildId environmentId hout (h₁.clear buildId environmentId hout h)
  calls call h := (h₂.calls call h).elim (h₁.calls call) .inr
  pending id h := (h₂.pending id h).elim (h₁.pending id) fun hnew => .inr (h₁.nextId.trans hnew)
  approved id h := h₂.approved id (h₁.approved id h)

theorem find_updatePromotions (s : Board) (p : EnvironmentPromotion → Bool)
    (f : EnvironmentPromotion → EnvironmentPromotion) (hf : ∀ row, (f row).id = row.id) (id : ℕ) :
    (s.updatePromotions p f hf).promotions.find id =
      (s.promotions.find id).map fun row => if p row then f row else row := by
  unfold Board.updatePromotions
  rw [Table.find_mapRows]

/-- An update of promotions under their locks. -/
theorem frame_updatePromotions {guards : List LockKey} {called : Option ℕ} {s : Board}
    {p : EnvironmentPromotion → Bool} {f : EnvironmentPromotion → EnvironmentPromotion}
    (hf : ∀ row, (f row).id = row.id) (hkey : ∀ row, (f row).lockKey = row.lockKey)
    (hin : ∀ id row, s.promotions.find id = some row → p row = true → row.lockKey ∈ guards)
    (hopen : ∀ id row, s.promotions.find id = some row → p row = true →
      row.state ≠ .completed ∧ row.state ≠ .rejected) :
    BoardFrame guards called s (s.updatePromotions p f hf) where
  nextId := le_rfl
  rows id row' h := by
    rw [find_updatePromotions] at h
    obtain ⟨row, hrow, rfl⟩ := Option.map_eq_some_iff.mp h
    right
    split
    · rename_i hp
      exact .inr ⟨row, hrow, (hkey row).symm, hin id row hrow hp, hopen id row hrow hp⟩
    · exact .inl hrow
  releases id release' h := .inr ⟨release', h, rfl⟩
  clear _ _ _ h := h
  calls _ h := .inl h
  pending _ h := .inl h
  approved _ h := h

theorem frame_outcome {guards : List LockKey} {called : Option ℕ} {s : Board} (id : ℕ)
    (recorded : Bool) : BoardFrame guards called s (s.outcome id recorded) where
  nextId := le_rfl
  rows _ _ h := .inr (.inl h)
  releases _ release' h := .inr ⟨release', h, rfl⟩
  clear _ _ _ h := h
  calls _ h := .inl h
  pending _ h := .inl h
  approved _ h := h

theorem frame_callStore {guards : List LockKey} {s : Board} (id : ℕ) :
    BoardFrame guards (some id) s (s.callStore id) where
  nextId := le_rfl
  rows _ _ h := .inr (.inl h)
  releases _ release' h := .inr ⟨release', h, rfl⟩
  clear _ _ _ h := h
  calls call h := by
    refine (List.mem_append.mp h).imp_right fun hnew => ?_
    rw [List.mem_singleton.mp hnew]
  pending id h := .inl h
  approved id h := h

theorem frame_decide {guards : List LockKey} {s : Board} (d : PromotionDecision)
    (environmentId : ℕ)
    (hin : ∀ row, s.promotions.find d.promotionId = some row → row.lockKey ∈ guards) :
    BoardFrame guards none s (s.decide d environmentId) := by
  have hupdate : BoardFrame guards none s
      (s.updatePromotions (fun row => row.id = d.promotionId && row.state = .pending)
        (decidedRow d) (decidedRow_id d)) := by
    refine frame_updatePromotions _ (fun _ => rfl) (fun id row hrow hp => hin row ?_)
      fun id row _ hp => ?_
    · simp only [Bool.and_eq_true, decide_eq_true_eq] at hp
      rw [← hp.1, Table.key_of_find hrow]
      exact hrow
    · simp only [Bool.and_eq_true, decide_eq_true_eq] at hp
      rw [hp.2]
      exact ⟨nofun, nofun⟩
  unfold Board.decide
  dsimp only
  split
  · exact ⟨hupdate.nextId, hupdate.rows, hupdate.releases, hupdate.clear, hupdate.calls,
      hupdate.pending, fun id h => List.mem_cons_of_mem _ (hupdate.approved id h)⟩
  · exact hupdate

/-- What an insert of a promotion is. -/
theorem addPromotion_eq_some {s added : Board} {r : PromotionRequest}
    {environment : ProjectEnvironment} {source : ProjectRelease}
    (h : s.addPromotion r environment source = some added) :
    (s.environments.find environment.id).isSome = true ∧
      (∀ id, added.promotions.find id =
        if id = s.nextId then some (newPromotion s r environment source)
        else s.promotions.find id) ∧
      added = { s with
        promotions := added.promotions
        nextId := s.nextId + 1
        history :=
          if environment.approvalRequired then
            { s.history with createdPending := s.nextId :: s.history.createdPending }
          else { s.history with
            starts := s.history.starts ++ [⟨s.nextId, startAllowed s environment.id none⟩] } } := by
  unfold Board.addPromotion at h
  dsimp only at h
  split at h
  · rename_i hnew
    split at h
    · rename_i hsome
      cases h
      exact ⟨hsome, Table.find_insert s.promotions _ hnew, rfl⟩
    · cases h
  · cases h

theorem frame_addPromotion {guards : List LockKey} {s added : Board} {r : PromotionRequest}
    {environment : ProjectEnvironment} {source : ProjectRelease}
    (h : s.addPromotion r environment source = some added) : BoardFrame guards none s added := by
  obtain ⟨-, hfind, hadded⟩ := addPromotion_eq_some h
  have hreleases : added.releases = s.releases := by rw [hadded]
  have hnext : added.nextId = s.nextId + 1 := by rw [hadded]
  constructor
  · omega
  · intro id row' hrow'
    rw [hfind] at hrow'
    split at hrow'
    · rename_i hid
      exact .inl hid.ge
    · exact .inr (.inl hrow')
  · intro id release' h'
    exact .inr ⟨release', hreleases ▸ h', rfl⟩
  · intro buildId environmentId _ hclear
    unfold Clear
    rw [hreleases]
    exact hclear
  · intro call hcall
    rw [hadded] at hcall
    dsimp only at hcall
    split at hcall <;> exact .inl hcall
  · intro id hid
    rw [hadded] at hid
    dsimp only at hid
    split at hid
    · rcases List.mem_cons.mp hid with rfl | hid
      · exact .inr le_rfl
      · exact .inl hid
    · exact .inl hid
  · intro id hid
    rw [hadded]
    dsimp only
    split <;> exact hid

/-- What an insert of a release is. -/
theorem insertRelease_eq_some {s inserted : Board} {input : NewRelease} {ascBuildId : Option Text}
    {now : ℤ} (h : insertRelease s input ascBuildId now = some inserted) :
    (∀ environmentId, releaseEnvironment s input = some environmentId →
      (s.environments.find environmentId).isSome = true) ∧
      inserted.releases.rows = s.releases.rows ++ [newReleaseRow s input ascBuildId now] ∧
      (∀ id, inserted.releases.find id =
        if id = s.nextId then some (newReleaseRow s input ascBuildId now)
        else s.releases.find id) ∧
      inserted = { s with releases := inserted.releases, nextId := s.nextId + 1 } := by
  unfold insertRelease at h
  dsimp only at h
  split at h
  · rename_i hnew
    split at h
    · rename_i hguard
      cases h
      simp only [Bool.and_eq_true] at hguard
      refine ⟨fun environmentId henvironment => ?_, rfl, Table.find_insert s.releases _ hnew, rfl⟩
      have hall := hguard.2
      rw [show (newReleaseRow s input ascBuildId now).environmentId = some environmentId from
        henvironment] at hall
      exact hall
    · cases h
  · cases h

/-- A release by promotion is inserted under the lock of its build and environment. -/
theorem frame_insertRelease {guards : List LockKey} {called : Option ℕ} {s inserted : Board}
    {input : NewRelease} {ascBuildId : Option Text} {now : ℤ}
    (hin : input.promotedFromReleaseId.isSome = true → ∀ environmentId,
      input.environmentId = some environmentId →
      LockKey.promotion input.buildId environmentId ∈ guards)
    (hnamed : input.promotedFromReleaseId.isSome = true → input.environmentId.isSome = true)
    (h : insertRelease s input ascBuildId now = some inserted) :
    BoardFrame guards called s inserted := by
  obtain ⟨-, hrows, hfind, hinserted⟩ := insertRelease_eq_some h
  have hpromotions : inserted.promotions = s.promotions := by rw [hinserted]
  have hnext : inserted.nextId = s.nextId + 1 := by rw [hinserted]
  have hhistory : inserted.history = s.history := by rw [hinserted]
  constructor
  · omega
  · exact fun id row' hrow' => .inr (.inl (hpromotions ▸ hrow'))
  · intro id release' h'
    rw [hfind] at h'
    split at h'
    · rename_i hid
      exact .inl hid.ge
    · exact .inr ⟨release', h', rfl⟩
  · intro buildId environmentId hout hclear release hmem hinto
    rw [hrows] at hmem
    rcases List.mem_append.mp hmem with hold | hnew
    · exact hclear release hold hinto
    · rw [List.mem_singleton.mp hnew] at hinto
      obtain ⟨named, hnamed⟩ := Option.isSome_iff_exists.mp (hnamed hinto.promoted)
      have henvironment := hinto.environment
      have hbuild : input.buildId = buildId := hinto.build
      change releaseEnvironment s input = some environmentId at henvironment
      unfold releaseEnvironment at henvironment
      rw [hnamed] at henvironment
      have hkey := hin hinto.promoted named hnamed
      rw [Option.some.inj henvironment, hbuild] at hkey
      exact hout hkey
  · exact fun call hcall => .inl (hhistory ▸ hcall)
  · exact fun id hid => .inl (hhistory ▸ hid)
  · exact fun id hid => hhistory ▸ hid

/-- Releases that change in place. -/
theorem frame_releases {guards : List LockKey} {s : Board} (f : ProjectRelease → ProjectRelease)
    (hf : ∀ release, (f release).id = release.id)
    (hbuild : ∀ release, (f release).buildId = release.buildId)
    (hinto : ∀ release buildId environmentId, (f release).PromotedInto buildId environmentId →
      release.PromotedInto buildId environmentId) :
    BoardFrame guards none s { s with releases := s.releases.mapRows f hf } where
  nextId := le_rfl
  rows _ _ h := .inr (.inl h)
  releases id release' h := by
    change (s.releases.mapRows f hf).find id = some release' at h
    rw [Table.find_mapRows] at h
    obtain ⟨release, hrelease, rfl⟩ := Option.map_eq_some_iff.mp h
    exact .inr ⟨release, hrelease, (hbuild release).symm⟩
  clear buildId environmentId _ hclear release' hmem h := by
    obtain ⟨release, hrelease, rfl⟩ := List.mem_map.mp hmem
    exact hclear release hrelease (hinto release buildId environmentId h)
  calls _ h := .inl h
  pending _ h := .inl h
  approved _ h := h

/-- An environment that is deleted takes promotions with it. -/
theorem frame_removeEnvironment {guards : List LockKey} (s : Board) (environmentId : ℕ) :
    BoardFrame guards none s (s.removeEnvironment environmentId) := by
  have hreleases : BoardFrame guards none s _ := frame_releases (fun release => { release with
      environmentId := release.environmentId.filter (· ≠ environmentId) })
    (fun _ => rfl) (fun _ => rfl) fun release buildId into h =>
      ⟨h.promoted, h.build, (Option.filter_eq_some_iff.mp h.environment).1, h.live⟩
  refine ⟨le_rfl, fun id row' h => ?_, hreleases.releases, hreleases.clear, fun _ h => .inl h,
    fun _ h => .inl h, fun _ h => h⟩
  change (s.promotions.filter _).find id = some row' at h
  rw [Table.find_filter] at h
  exact .inr (.inl (Option.filter_eq_some_iff.mp h).1)

/-! ## What the calls know -/

/-- The promotion that a call carries through. -/
def PromotionPoint.running : PromotionPoint → Option ℕ
  | .requester d _ _ => if d.approve then some d.promotionId else none
  | .check (.decide d _) _ _ | .source (.decide d _) _ => some d.promotionId
  | .slot x | .promote x | .record x _ | .unrecorded x => some x.promotionId
  | .refuse promotionId _ => some promotionId
  | _ => none

/-- What takes a build into an environment has not called the store yet. -/
def PurposeOk (s : Board) (guards : List LockKey) : Purpose → Prop
  | .request _ => True
  | .decide d promotion =>
    Known s d promotion ∧ Promoting s guards d.promotionId ∧ Uncalled s d.promotionId

/-- What the checks have found so far. -/
def CheckOk (s : Board) (guards : List LockKey) (purpose : Purpose) (environmentId : ℕ) :
    CheckPoint → Prop
  | .environment | .releases => True
  | .promotions => Clear s purpose.buildId environmentId
  | .stale rest => Clear s purpose.buildId environmentId ∧ (rest.map Prod.fst).Nodup ∧
      ∀ entry ∈ rest, entry.2 ≠ .pending → some entry.1 ≠ purpose.skipPromotion →
        Promoting s guards entry.1

/-- What holds of a promotion that is about to call the store. -/
structure ReadyToCall (s : Board) (guards : List LockKey) (x : Execution) : Prop where
  promoting : Promoting s guards x.promotionId
  uncalled : Uncalled s x.promotionId
  locked : LockKey.promotion x.source.buildId x.environment.id ∈ guards
  clear : Clear s x.source.buildId x.environment.id

/-- The open promotions that a deletion read. -/
def OpenOk (s : Board) (d : EnvironmentDeletion) (rest : List (ℕ × ℕ)) : Prop :=
  ∀ entry ∈ rest, entry.1 < s.nextId ∧ ∀ row, s.promotions.find entry.1 = some row →
    row.lockKey = .promotion entry.2 d.environmentId

/-- What a call knows of the promotions and releases, and the locks it has for them. -/
def PointOk (s : Board) (guards : List LockKey) : PromotionPoint → Prop
  | .environment (.promote (.decide d promotion)) => Known s d promotion
  | .approvers (.promote (.decide d promotion)) environment
  | .lock (.decide d promotion) environment =>
    Known s d promotion ∧ environment.id = promotion.environmentId
  | .decision d promotion environment =>
    Known s d promotion ∧ environment.id = promotion.environmentId ∧ promotion.lockKey ∈ guards
  | .requester d promotion environment =>
    Known s d promotion ∧ environment.id = promotion.environmentId ∧ promotion.lockKey ∈ guards ∧
      (d.approve = true → Promoting s guards d.promotionId ∧ Uncalled s d.promotionId)
  | .check purpose environment at_ =>
    LockKey.promotion purpose.buildId environment.id ∈ guards ∧ PurposeOk s guards purpose ∧
      CheckOk s guards purpose environment.id at_
  | .source purpose environment =>
    LockKey.promotion purpose.buildId environment.id ∈ guards ∧ PurposeOk s guards purpose ∧
      Clear s purpose.buildId environment.id
  | .insert r environment source =>
    LockKey.promotion r.buildId environment.id ∈ guards ∧ Clear s r.buildId environment.id ∧
      source.buildId = r.buildId ∧ SourceOk s source.id r.buildId
  | .slot x | .promote x => ReadyToCall s guards x
  | .record x _ => Promoting s guards x.promotionId ∧
      LockKey.promotion x.source.buildId x.environment.id ∈ guards ∧
      Clear s x.source.buildId x.environment.id
  | .refuse promotionId _ => Promoting s guards promotionId
  | .unrecorded x => Promoting s guards x.promotionId
  | .tryLock d rest => OpenOk s d rest
  | .state d promotionId rest => OpenOk s d rest ∧ Locked s guards promotionId fun _ => True
  | .close d promotionId state rest => OpenOk s d rest ∧
      (state = .pending ∨ state = .promoting) ∧ Locked s guards promotionId (· = state)
  | _ => True

/-! ## What the statements of others leave -/

section Beside

variable {s s' : Board} {guards gs : List LockKey} {called : Option ℕ}

theorem Locked.frame (hframe : BoardFrame gs called s s') (hapart : ∀ key ∈ guards, key ∉ gs)
    {id : ℕ} {p : PromotionState → Prop} (h : Locked s guards id p) : Locked s' guards id p := by
  refine ⟨lt_of_lt_of_le h.1 hframe.nextId, fun row' hrow' => ?_⟩
  rcases hframe.rows id row' hrow' with hnew | hsame | ⟨row, hrow, -, hin, -⟩
  · have hid := h.1
    omega
  · exact h.2 row' hsame
  · exact absurd hin (hapart _ (h.2 row hrow).2)

theorem Promoting.frame (hframe : BoardFrame gs called s s') (hapart : ∀ key ∈ guards, key ∉ gs)
    {id : ℕ} (h : Promoting s guards id) : Promoting s' guards id := Locked.frame hframe hapart h

theorem Uncalled.frame (hframe : BoardFrame gs called s s') {id : ℕ} (hid : id < s.nextId)
    (hcalled : called ≠ some id) (h : Uncalled s id) : Uncalled s' id := by
  constructor
  · rintro call hcall rfl
    rcases hframe.calls call hcall with hold | hnew
    · exact h.1 call hold rfl
    · exact hcalled hnew
  · intro hpending
    rcases hframe.pending id hpending with hold | hnew
    · exact hframe.approved id (h.2 hold)
    · omega

theorem SourceOk.frame (hframe : BoardFrame gs called s s') {sourceReleaseId buildId : ℕ}
    (h : SourceOk s sourceReleaseId buildId) : SourceOk s' sourceReleaseId buildId := by
  refine ⟨lt_of_lt_of_le h.1 hframe.nextId, fun release' h' => ?_⟩
  rcases hframe.releases _ release' h' with hnew | ⟨release, hrelease, hbuild⟩
  · have hid := h.1
    omega
  · exact hbuild.symm.trans (h.2 release hrelease)

theorem Known.frame (hframe : BoardFrame gs called s s') {d : PromotionDecision}
    {promotion : EnvironmentPromotion} (h : Known s d promotion) : Known s' d promotion where
  id := lt_of_lt_of_le h.id hframe.nextId
  row row' hrow' := by
    rcases hframe.rows _ row' hrow' with hnew | hsame | ⟨row, hrow, hkey, -⟩
    · have hid := h.id
      omega
    · exact h.row row' hsame
    · exact hkey.symm.trans (h.row row hrow)
  source := h.source.frame hframe

theorem OpenOk.frame (hframe : BoardFrame gs called s s') {d : EnvironmentDeletion}
    {rest : List (ℕ × ℕ)} (h : OpenOk s d rest) : OpenOk s' d rest := by
  intro entry hentry
  obtain ⟨hid, hrows⟩ := h entry hentry
  refine ⟨lt_of_lt_of_le hid hframe.nextId, fun row' hrow' => ?_⟩
  rcases hframe.rows _ row' hrow' with hnew | hsame | ⟨row, hrow, hkey, -⟩
  · omega
  · exact hrows row' hsame
  · exact hkey.symm.trans (hrows row hrow)

theorem PurposeOk.frame (hframe : BoardFrame gs called s s') (hapart : ∀ key ∈ guards, key ∉ gs)
    {purpose : Purpose} (hcalled : ∀ d promotion, purpose = .decide d promotion →
      called ≠ some d.promotionId) (h : PurposeOk s guards purpose) :
    PurposeOk s' guards purpose := by
  cases purpose with
  | request r => trivial
  | decide d promotion =>
    obtain ⟨hknown, hpromoting, huncalled⟩ := h
    exact ⟨hknown.frame hframe, hpromoting.frame hframe hapart,
      huncalled.frame hframe hknown.id (hcalled d promotion rfl)⟩

theorem CheckOk.frame (hframe : BoardFrame gs called s s') (hapart : ∀ key ∈ guards, key ∉ gs)
    {purpose : Purpose} {environmentId : ℕ} {at_ : CheckPoint}
    (hkey : LockKey.promotion purpose.buildId environmentId ∈ guards)
    (h : CheckOk s guards purpose environmentId at_) :
    CheckOk s' guards purpose environmentId at_ := by
  cases at_ with
  | environment => trivial
  | releases => trivial
  | promotions => exact hframe.clear _ _ (hapart _ hkey) h
  | stale rest =>
    exact ⟨hframe.clear _ _ (hapart _ hkey) h.1, h.2.1, fun entry hentry hstate hskip =>
      (h.2.2 entry hentry hstate hskip).frame hframe hapart⟩

theorem ReadyToCall.frame (hframe : BoardFrame gs called s s') (hapart : ∀ key ∈ guards, key ∉ gs)
    {x : Execution} (hcalled : called ≠ some x.promotionId) (h : ReadyToCall s guards x) :
    ReadyToCall s' guards x where
  promoting := h.promoting.frame hframe hapart
  uncalled := h.uncalled.frame hframe h.promoting.1 hcalled
  locked := h.locked
  clear := hframe.clear _ _ (hapart _ h.locked) h.clear

/-- A statement under other locks leaves what a call knows. -/
theorem PointOk.frame (hframe : BoardFrame gs called s s') (hapart : ∀ key ∈ guards, key ∉ gs)
    {point : PromotionPoint} (hcalled : ∀ id, point.running = some id → called ≠ some id)
    (h : PointOk s guards point) : PointOk s' guards point := by
  cases point with
  | environment loader =>
    cases loader with
    | promote purpose =>
      cases purpose with
      | request r => trivial
      | decide d promotion => exact Known.frame hframe h
    | update u => trivial
  | approvers loader environment =>
    cases loader with
    | promote purpose =>
      cases purpose with
      | request r => trivial
      | decide d promotion => exact ⟨h.1.frame hframe, h.2⟩
    | update u => trivial
  | lock purpose environment =>
    cases purpose with
    | request r => trivial
    | decide d promotion => exact ⟨h.1.frame hframe, h.2⟩
  | decision d promotion environment => exact ⟨h.1.frame hframe, h.2⟩
  | requester d promotion environment =>
    obtain ⟨hknown, hid, hkey, hrunning⟩ := h
    refine ⟨hknown.frame hframe, hid, hkey, fun happrove => ?_⟩
    obtain ⟨hpromoting, huncalled⟩ := hrunning happrove
    exact ⟨hpromoting.frame hframe hapart,
      huncalled.frame hframe hknown.id (hcalled _ (if_pos happrove))⟩
  | check purpose environment at_ =>
    obtain ⟨hkey, hpurpose, hcheck⟩ := h
    refine ⟨hkey, hpurpose.frame hframe hapart ?_, hcheck.frame hframe hapart hkey⟩
    rintro d promotion rfl
    exact hcalled _ rfl
  | source purpose environment =>
    obtain ⟨hkey, hpurpose, hclear⟩ := h
    refine ⟨hkey, hpurpose.frame hframe hapart ?_, hframe.clear _ _ (hapart _ hkey) hclear⟩
    rintro d promotion rfl
    exact hcalled _ rfl
  | insert r environment source =>
    obtain ⟨hkey, hclear, hbuild, hsource⟩ := h
    exact ⟨hkey, hframe.clear _ _ (hapart _ hkey) hclear, hbuild, hsource.frame hframe⟩
  | slot x => exact ReadyToCall.frame hframe hapart (hcalled _ rfl) h
  | promote x => exact ReadyToCall.frame hframe hapart (hcalled _ rfl) h
  | record x promoted =>
    exact ⟨Locked.frame hframe hapart h.1, h.2.1, hframe.clear _ _ (hapart _ h.2.1) h.2.2⟩
  | refuse promotionId message => exact Promoting.frame hframe hapart h
  | unrecorded x => exact Promoting.frame hframe hapart h
  | tryLock d rest => exact OpenOk.frame hframe h
  | state d promotionId rest => exact ⟨h.1.frame hframe, h.2.frame hframe hapart⟩
  | close d promotionId state rest => exact ⟨h.1.frame hframe, h.2.1, h.2.2.frame hframe hapart⟩
  | _ => trivial

end Beside

/-! ## The tables -/

/-- What holds of the tables and of what happened so far. -/
structure BoardOk (s : Board) : Prop where
  promotionIds : ∀ id row, s.promotions.find id = some row → id < s.nextId
  releaseIds : ∀ id release, s.releases.find id = some release → id < s.nextId
  /-- A promotion is of the build of its source. -/
  sources : ∀ id row, s.promotions.find id = some row → SourceOk s row.sourceReleaseId row.buildId
  /-- A promotion that called the store waits for nothing any more. -/
  called : ∀ call ∈ s.history.storeCalls, call.promotionId < s.nextId ∧
    ∀ row, s.promotions.find call.promotionId = some row → row.state ≠ .pending
  pendingIds : ∀ id ∈ s.history.createdPending, id < s.nextId
  once : ∀ id, s.history.storeCalls.countP (·.promotionId = id) ≤ 1
  approved : ∀ call ∈ s.history.storeCalls,
    call.promotionId ∈ s.history.createdPending → call.approved = true
  settled : ∀ change ∈ s.history.changes, change.source ≠ .completed ∧ change.source ≠ .rejected
  unique : ∀ first second, first ∈ s.releases.rows → second ∈ s.releases.rows →
    ∀ buildId environmentId, first.PromotedInto buildId environmentId →
      second.PromotedInto buildId environmentId → first = second

/-- The tables and the history decide; ids may be taken for other rows. -/
theorem BoardOk.later {s s' : Board} (h : BoardOk s) (hnext : s.nextId ≤ s'.nextId)
    (hpromotions : s'.promotions = s.promotions) (hreleases : s'.releases = s.releases)
    (hhistory : s'.history = s.history) : BoardOk s' := by
  obtain ⟨environments, approvers, members, builds, releases, promotions, nextId, held, history⟩ :=
    s'
  dsimp only at hnext hpromotions hreleases hhistory
  subst hpromotions hreleases hhistory
  exact ⟨fun id row hrow => (h.promotionIds id row hrow).trans_le hnext,
    fun id release hrelease => (h.releaseIds id release hrelease).trans_le hnext,
    fun id row hrow => ⟨(h.sources id row hrow).1.trans_le hnext, (h.sources id row hrow).2⟩,
    fun call hcall => ⟨(h.called call hcall).1.trans_le hnext, (h.called call hcall).2⟩,
    fun id hid => (h.pendingIds id hid).trans_le hnext, h.once, h.approved, h.settled, h.unique⟩

theorem BoardOk.congr {s s' : Board} (h : BoardOk s) (hpromotions : s'.promotions = s.promotions)
    (hreleases : s'.releases = s.releases) (hnext : s'.nextId = s.nextId)
    (hhistory : s'.history = s.history) : BoardOk s' :=
  h.later hnext.ge hpromotions hreleases hhistory

/-- An update of open promotions, to a state other than pending. -/
theorem BoardOk.updatePromotions {s : Board} (h : BoardOk s) {p : EnvironmentPromotion → Bool}
    {f : EnvironmentPromotion → EnvironmentPromotion} (hf : ∀ row, (f row).id = row.id)
    (hkeep : ∀ row, (f row).buildId = row.buildId ∧ (f row).sourceReleaseId = row.sourceReleaseId)
    (hopen : ∀ id row, s.promotions.find id = some row → p row = true →
      row.state ≠ .completed ∧ row.state ≠ .rejected)
    (hpending : ∀ row, p row = true → (f row).state ≠ .pending) :
    BoardOk (s.updatePromotions p f hf) := by
  have hrow : ∀ id row', (s.updatePromotions p f hf).promotions.find id = some row' →
      ∃ row, s.promotions.find id = some row ∧ row'.buildId = row.buildId ∧
        row'.sourceReleaseId = row.sourceReleaseId ∧
        (row'.state = .pending → row.state = .pending) := by
    intro id row' hrow'
    rw [find_updatePromotions] at hrow'
    obtain ⟨row, hrow, rfl⟩ := Option.map_eq_some_iff.mp hrow'
    refine ⟨row, hrow, ?_⟩
    split
    · rename_i hp
      exact ⟨(hkeep row).1, (hkeep row).2, fun hst => absurd hst (hpending row hp)⟩
    · exact ⟨rfl, rfl, fun hst => hst⟩
  refine ⟨?_, h.releaseIds, ?_, ?_, h.pendingIds, h.once, h.approved, ?_, h.unique⟩
  · intro id row' hrow'
    obtain ⟨row, hold, -⟩ := hrow id row' hrow'
    exact h.promotionIds id row hold
  · intro id row' hrow'
    obtain ⟨row, hold, hbuild, hsource, -⟩ := hrow id row' hrow'
    rw [hbuild, hsource]
    exact h.sources id row hold
  · intro call hcall
    refine ⟨(h.called call hcall).1, fun row' hrow' hst => ?_⟩
    obtain ⟨row, hold, -, -, hback⟩ := hrow _ row' hrow'
    exact (h.called call hcall).2 row hold (hback hst)
  · intro change hchange
    rcases List.mem_append.mp hchange with hold | hnew
    · exact h.settled change hold
    · obtain ⟨row, hmem, rfl⟩ := List.mem_map.mp hnew
      obtain ⟨hin, hp⟩ := List.mem_filter.mp hmem
      exact hopen row.id row (Table.find_of_mem hin) hp

theorem BoardOk.outcome {s : Board} (h : BoardOk s) (id : ℕ) (recorded : Bool) :
    BoardOk (s.outcome id recorded) :=
  ⟨h.promotionIds, h.releaseIds, h.sources, h.called, h.pendingIds, h.once, h.approved, h.settled,
    h.unique⟩

/-- A promotion fails that is open. -/
theorem BoardOk.markFailed {s : Board} (h : BoardOk s) {id : ℕ} (message : Text)
    (hopen : ∀ row, s.promotions.find id = some row →
      row.state = .pending ∨ row.state = .promoting) :
    BoardOk (s.markFailed id message) := by
  refine h.updatePromotions _ (fun _ => ⟨rfl, rfl⟩) (fun k row hrow hp => ?_) fun _ _ => nofun
  have hk : row.id = id := by simpa using hp
  rw [← Table.key_of_find hrow, hk] at hrow
  rcases hopen row hrow with hst | hst <;> rw [hst] <;> exact ⟨nofun, nofun⟩

/-- A pending promotion is decided. -/
theorem BoardOk.decide {s : Board} (h : BoardOk s) (d : PromotionDecision) (environmentId : ℕ) :
    BoardOk (s.decide d environmentId) := by
  have hdecided : BoardOk (s.updatePromotions
      (fun row => row.id = d.promotionId && row.state = .pending) (decidedRow d)
      (decidedRow_id d)) := by
    refine h.updatePromotions _ (fun _ => ⟨rfl, rfl⟩) (fun _ row _ hp => ?_) fun row _ => ?_
    · simp only [Bool.and_eq_true, decide_eq_true_eq] at hp
      rw [hp.2]
      exact ⟨nofun, nofun⟩
    · change (if d.approve then PromotionState.promoting else .rejected) ≠ .pending
      split <;> nofun
  unfold Board.decide
  dsimp only
  split
  · exact ⟨hdecided.promotionIds, hdecided.releaseIds, hdecided.sources, hdecided.called,
      hdecided.pendingIds, hdecided.once, hdecided.approved, hdecided.settled, hdecided.unique⟩
  · exact hdecided

/-- A promotion that may call the store calls it. -/
theorem BoardOk.callStore {s : Board} (h : BoardOk s) {guards : List LockKey} {id : ℕ}
    (hpromoting : Promoting s guards id) (huncalled : Uncalled s id) :
    BoardOk (s.callStore id) := by
  refine ⟨h.promotionIds, h.releaseIds, h.sources, ?_, h.pendingIds, ?_, ?_, h.settled, h.unique⟩
  · intro call hcall
    rcases List.mem_append.mp hcall with hold | hnew
    · exact h.called call hold
    · rw [List.mem_singleton.mp hnew]
      refine ⟨hpromoting.1, fun row hrow => ?_⟩
      rw [(hpromoting.2 row hrow).1]
      nofun
  · intro other
    have hother := h.once other
    change (s.history.storeCalls ++ [_]).countP _ ≤ 1
    rw [List.countP_append, List.countP_singleton]
    split
    · rename_i hid
      obtain rfl : id = other := by simpa using hid
      have hzero : s.history.storeCalls.countP (·.promotionId = id) = 0 :=
        List.countP_eq_zero.mpr fun call hcall => by simpa using huncalled.1 call hcall
      omega
    · exact hother
  · intro call hcall hpending
    rcases List.mem_append.mp hcall with hold | hnew
    · exact h.approved call hold hpending
    · rw [List.mem_singleton.mp hnew] at hpending ⊢
      simpa using huncalled.2 hpending

theorem BoardOk.addPromotion {s added : Board} (h : BoardOk s) {r : PromotionRequest}
    {environment : ProjectEnvironment} {source : ProjectRelease}
    (hsource : SourceOk s source.id r.buildId)
    (hadded : s.addPromotion r environment source = some added) : BoardOk added := by
  obtain ⟨-, hfind, heq⟩ := addPromotion_eq_some hadded
  have hreleases : added.releases = s.releases := by rw [heq]
  have hnext : added.nextId = s.nextId + 1 := by rw [heq]
  have hcalls : added.history.storeCalls = s.history.storeCalls := by
    rw [heq]
    dsimp only
    split <;> rfl
  have hchanges : added.history.changes = s.history.changes := by
    rw [heq]
    dsimp only
    split <;> rfl
  have hpending : ∀ id ∈ added.history.createdPending,
      id = s.nextId ∨ id ∈ s.history.createdPending := by
    intro id hid
    rw [heq] at hid
    dsimp only at hid
    split at hid
    · exact List.mem_cons.mp hid
    · exact .inr hid
  refine ⟨?_, ?_, ?_, ?_, ?_, ?_, ?_, ?_, ?_⟩
  · intro id row hrow
    rw [hfind] at hrow
    split at hrow
    · omega
    · have hid := h.promotionIds id row hrow
      omega
  · intro id release hrelease
    have hid := h.releaseIds id release (hreleases ▸ hrelease)
    omega
  · intro id row hrow
    rw [hfind] at hrow
    unfold SourceOk
    rw [hreleases, hnext]
    split at hrow
    · obtain rfl := Option.some.inj hrow
      exact ⟨Nat.lt_succ_of_lt hsource.1, hsource.2⟩
    · obtain ⟨hid, hbuilds⟩ := h.sources id row hrow
      exact ⟨Nat.lt_succ_of_lt hid, hbuilds⟩
  · intro call hcall
    rw [hcalls] at hcall
    obtain ⟨hid, hrows⟩ := h.called call hcall
    refine ⟨by omega, fun row hrow => ?_⟩
    rw [hfind, if_neg hid.ne] at hrow
    exact hrows row hrow
  · intro id hid
    rcases hpending id hid with rfl | hold
    · omega
    · have hlt := h.pendingIds id hold
      omega
  · rw [hcalls]
    exact h.once
  · intro call hcall hin
    rw [hcalls] at hcall
    rcases hpending _ hin with heq | hold
    · exact absurd heq (h.called call hcall).1.ne
    · exact h.approved call hcall hold
  · rw [hchanges]
    exact h.settled
  · rw [hreleases]
    exact h.unique

/-- A release is inserted: one of no promotion, or the first of its build in its environment. -/
theorem BoardOk.insertRelease {s inserted : Board} (h : BoardOk s) {input : NewRelease}
    {ascBuildId : Option Text} {now : ℤ}
    (hfirst : ∀ buildId environmentId,
      (newReleaseRow s input ascBuildId now).PromotedInto buildId environmentId →
        Clear s buildId environmentId)
    (hinserted : insertRelease s input ascBuildId now = some inserted) : BoardOk inserted := by
  obtain ⟨-, hrows, hfind, heq⟩ := insertRelease_eq_some hinserted
  have hpromotions : inserted.promotions = s.promotions := by rw [heq]
  have hnext : inserted.nextId = s.nextId + 1 := by rw [heq]
  have hhistory : inserted.history = s.history := by rw [heq]
  refine ⟨?_, ?_, ?_, ?_, ?_, ?_, ?_, ?_, ?_⟩
  · intro id row hrow
    have hid := h.promotionIds id row (hpromotions ▸ hrow)
    omega
  · intro id release hrelease
    rw [hfind] at hrelease
    split at hrelease
    · omega
    · have hid := h.releaseIds id release hrelease
      omega
  · intro id row hrow
    obtain ⟨hid, hbuilds⟩ := h.sources id row (hpromotions ▸ hrow)
    refine ⟨by omega, fun release hrelease => ?_⟩
    rw [hfind, if_neg hid.ne] at hrelease
    exact hbuilds release hrelease
  · intro call hcall
    obtain ⟨hid, hstates⟩ := h.called call (hhistory ▸ hcall)
    exact ⟨by omega, fun row hrow => hstates row (hpromotions ▸ hrow)⟩
  · intro id hid
    have hlt := h.pendingIds id (hhistory ▸ hid)
    omega
  · rw [hhistory]
    exact h.once
  · rw [hhistory]
    exact h.approved
  · rw [hhistory]
    exact h.settled
  · intro first second hmem₁ hmem₂ buildId environmentId h₁ h₂
    rw [hrows] at hmem₁ hmem₂
    rcases List.mem_append.mp hmem₁ with hold₁ | hnew₁ <;>
      rcases List.mem_append.mp hmem₂ with hold₂ | hnew₂
    · exact h.unique first second hold₁ hold₂ buildId environmentId h₁ h₂
    · rw [List.mem_singleton.mp hnew₂] at h₂
      exact absurd h₁ (hfirst buildId environmentId h₂ first hold₁)
    · rw [List.mem_singleton.mp hnew₁] at h₁
      exact absurd h₂ (hfirst buildId environmentId h₁ second hold₂)
    · rw [List.mem_singleton.mp hnew₁, List.mem_singleton.mp hnew₂]

/-- Releases that change in place. -/
theorem BoardOk.mapReleases {s : Board} (h : BoardOk s) (f : ProjectRelease → ProjectRelease)
    (hf : ∀ release, (f release).id = release.id)
    (hbuild : ∀ release, (f release).buildId = release.buildId)
    (hinto : ∀ release buildId environmentId, (f release).PromotedInto buildId environmentId →
      release.PromotedInto buildId environmentId) :
    BoardOk { s with releases := s.releases.mapRows f hf } := by
  have hfind : ∀ id release', (s.releases.mapRows f hf).find id = some release' →
      ∃ release, s.releases.find id = some release ∧ release'.buildId = release.buildId := by
    intro id release' h'
    rw [Table.find_mapRows] at h'
    obtain ⟨release, hrelease, rfl⟩ := Option.map_eq_some_iff.mp h'
    exact ⟨release, hrelease, hbuild release⟩
  refine ⟨h.promotionIds, ?_, ?_, h.called, h.pendingIds, h.once, h.approved, h.settled, ?_⟩
  · intro id release' h'
    obtain ⟨release, hrelease, -⟩ := hfind id release' h'
    exact h.releaseIds id release hrelease
  · intro id row hrow
    obtain ⟨hid, hbuilds⟩ := h.sources id row hrow
    refine ⟨hid, fun release' h' => ?_⟩
    obtain ⟨release, hrelease, heq⟩ := hfind _ release' h'
    exact heq.trans (hbuilds release hrelease)
  · intro first second hmem₁ hmem₂ buildId environmentId h₁ h₂
    obtain ⟨old₁, hold₁, rfl⟩ := List.mem_map.mp hmem₁
    obtain ⟨old₂, hold₂, rfl⟩ := List.mem_map.mp hmem₂
    rw [h.unique old₁ old₂ hold₁ hold₂ buildId environmentId
      (hinto old₁ buildId environmentId h₁) (hinto old₂ buildId environmentId h₂)]

theorem BoardOk.removeEnvironment {s : Board} (h : BoardOk s) (environmentId : ℕ) :
    BoardOk (s.removeEnvironment environmentId) := by
  have hreleases := h.mapReleases (fun release => { release with
      environmentId := release.environmentId.filter (· ≠ environmentId) })
    (fun _ => rfl) (fun _ => rfl) fun release buildId into hinto =>
      ⟨hinto.promoted, hinto.build, (Option.filter_eq_some_iff.mp hinto.environment).1, hinto.live⟩
  have hrow : ∀ id row, (s.removeEnvironment environmentId).promotions.find id = some row →
      s.promotions.find id = some row := by
    intro id row hrow
    change (s.promotions.filter _).find id = some row at hrow
    rw [Table.find_filter] at hrow
    exact (Option.filter_eq_some_iff.mp hrow).1
  exact ⟨fun id row h' => h.promotionIds id row (hrow id row h'), hreleases.releaseIds,
    fun id row h' => hreleases.sources id row (hrow id row h'),
    fun call hcall => ⟨(h.called call hcall).1, fun row h' =>
      (h.called call hcall).2 row (hrow _ row h')⟩,
    h.pendingIds, h.once, h.approved, h.settled, hreleases.unique⟩

end OoreBuild
