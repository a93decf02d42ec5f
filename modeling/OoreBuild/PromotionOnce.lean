import OoreBuild.PromotionInvariants

/-!
# Every statement keeps the promotions

Each statement of a call leaves what the locks of the other calls protect, keeps the tables
(`writeTo_kept`) and leads to a point whose facts hold (`pointOk_of_readTo`, `pointOk_of_lockTo`,
`pointOk_of_writeTo`). `promotions_happen_once` is what this comes to for every run.
-/

namespace OoreBuild

open Text Interleave

variable {s s' : Board} {guards : List LockKey}

/-! ## Writes -/

/-- The promotion whose store call the statement is. -/
def PromotionPoint.calls : PromotionPoint → Option ℕ
  | .promote x => some x.promotionId
  | _ => none

/-- A promotion fails that is open under one of the locks. -/
theorem frame_markFailed {called : Option ℕ} {id : ℕ} (message : Text)
    (h : Locked s guards id fun state => state = .pending ∨ state = .promoting) :
    BoardFrame guards called s (s.markFailed id message) := by
  have hrow : ∀ k row, s.promotions.find k = some row → decide (row.id = id) = true →
      s.promotions.find id = some row := by
    intro k row hrow hp
    rw [← of_decide_eq_true hp, Table.key_of_find hrow]
    exact hrow
  refine frame_updatePromotions _ (fun _ => rfl) (fun k row hfind hp => ?_)
    fun k row hfind hp => ?_
  · exact (h.2 row (hrow k row hfind hp)).2
  · rcases (h.2 row (hrow k row hfind hp)).1 with hst | hst <;> rw [hst] <;> exact ⟨nofun, nofun⟩

theorem Locked.mono {id : ℕ} {p q : PromotionState → Prop} (h : Locked s guards id p)
    (hpq : ∀ state, p state → q state) : Locked s guards id q :=
  ⟨h.1, fun row hrow => ⟨hpq _ (h.2 row hrow).1, (h.2 row hrow).2⟩⟩

/-- What a promotion that fails leaves. -/
theorem markFailed_kept {called : Option ℕ} {id : ℕ} (hok : BoardOk s) (message : Text)
    (h : Locked s guards id fun state => state = .pending ∨ state = .promoting) :
    BoardFrame guards called s (s.markFailed id message) ∧ BoardOk (s.markFailed id message) :=
  ⟨frame_markFailed message h, hok.markFailed message fun row hrow => (h.2 row hrow).1⟩

/-- An update of an environment changes the environments and the named approvers. -/
theorem commitUpdate_eq_ok {current : ProjectEnvironment} {name track : Text}
    {request : UpdateProjectEnvironmentRequest} {updated : Board}
    (h : commitUpdate s current name track request = .ok updated) :
    updated = { s with environments := updated.environments, approvers := updated.approvers } := by
  unfold commitUpdate at h
  simp only [bind, Except.bind, pure, Except.pure, throw, throwThe, MonadExceptOf.throw] at h
  repeat' split at h
  all_goals cases h
  rfl

/-- A release is recorded and its promotion completed. -/
theorem recordPromotion_kept {x : Execution} {promoted : Promoted} {now : ℤ} {recorded : Board}
    (hok : BoardOk s) (hpromoting : Promoting s guards x.promotionId)
    (hkey : LockKey.promotion x.source.buildId x.environment.id ∈ guards)
    (hclear : Clear s x.source.buildId x.environment.id)
    (h : s.recordPromotion x promoted now = some recorded) :
    BoardFrame guards none s recorded ∧ BoardOk recorded := by
  obtain ⟨inserted, hinserted, rfl⟩ := Option.map_eq_some_iff.mp h
  have hpromotions : inserted.promotions = s.promotions := by
    rw [(insertRelease_eq_some hinserted).2.2.2]
  have hrow : ∀ k row, inserted.promotions.find k = some row →
      decide (row.id = x.promotionId) = true → row.state = .promoting ∧ row.lockKey ∈ guards := by
    intro k row hrow hp
    rw [hpromotions, ← Table.key_of_find hrow, of_decide_eq_true hp] at hrow
    exact hpromoting.2 row hrow
  have hopen : ∀ k row, inserted.promotions.find k = some row →
      decide (row.id = x.promotionId) = true → row.state ≠ .completed ∧ row.state ≠ .rejected := by
    intro k row hfind hp
    rw [(hrow k row hfind hp).1]
    exact ⟨nofun, nofun⟩
  have hfirst : ∀ buildId environmentId,
      (newReleaseRow s (x.release promoted) promoted.ascBuildId now).PromotedInto buildId
        environmentId → Clear s buildId environmentId := by
    intro buildId environmentId hinto
    have hbuild : x.source.buildId = buildId := hinto.build
    have henvironment : x.environment.id = environmentId := Option.some.inj hinto.environment
    rwa [hbuild, henvironment] at hclear
  constructor
  · have hframe : BoardFrame guards none s inserted := by
      refine frame_insertRelease (fun _ environmentId hnamed => ?_) (fun _ => rfl) hinserted
      rwa [← Option.some.inj hnamed]
    have hcompleted : BoardFrame guards none inserted (inserted.updatePromotions
        (·.id = x.promotionId) (completedRow s.nextId) (completedRow_id s.nextId)) :=
      frame_updatePromotions _ (fun _ => rfl) (fun k row hfind hp => (hrow k row hfind hp).2) hopen
    exact (hframe.trans hcompleted).trans (frame_outcome _ _)
  · exact (((hok.insertRelease hfirst hinserted).updatePromotions (completedRow_id s.nextId)
      (fun _ => ⟨rfl, rfl⟩) hopen fun _ _ => nofun).outcome _ _)

/-- A write leaves what the other locks protect, and keeps the tables. -/
theorem writeTo_kept {point : PromotionPoint} {next : Option PromotionPoint} (hok : BoardOk s)
    (hpoint : PointOk s guards point) (h : WriteTo s point s' next) :
    BoardFrame guards point.calls s s' ∧ BoardOk s' := by
  cases h with
  | @decide d promotion row environment hrow hpending =>
    obtain ⟨hknown, -, hkey⟩ := hpoint
    exact ⟨frame_decide d _ fun other hother => hknown.row other hother ▸ hkey, hok.decide d _⟩
  | @stale purpose environment id state rest hstate hskip =>
    have hpromoting := hpoint.2.2.2.2 (id, state) List.mem_cons_self hstate hskip
    exact markFailed_kept hok _ (hpromoting.mono fun _ => .inr)
  | insertPending hadded hrequired =>
    exact ⟨frame_addPromotion hadded, hok.addPromotion hpoint.2.2.2 hadded⟩
  | insertPromoting hadded hrequired =>
    exact ⟨frame_addPromotion hadded, hok.addPromotion hpoint.2.2.2 hadded⟩
  | refused => exact ⟨frame_callStore _, hok.callStore hpoint.promoting hpoint.uncalled⟩
  | accepted => exact ⟨frame_callStore _, hok.callStore hpoint.promoting hpoint.uncalled⟩
  | record hrecorded => exact recordPromotion_kept hok hpoint.1 hpoint.2.1 hpoint.2.2 hrecorded
  | fail =>
    have hpromoting : Promoting s guards _ := hpoint
    exact markFailed_kept hok _ (hpromoting.mono fun _ => .inr)
  | @unrecorded x message =>
    have hpromoting : Promoting s guards x.promotionId := hpoint
    obtain ⟨hframe, hfailed⟩ :=
      markFailed_kept hok message (hpromoting.mono fun _ => .inr)
    exact ⟨hframe.trans (frame_outcome _ _), hfailed.outcome _ _⟩
  | commit hupdated =>
    rw [commitUpdate_eq_ok hupdated]
    exact ⟨frame_of_eq le_rfl rfl rfl rfl, hok.congr rfl rfl rfl rfl⟩
  | @close d promotionId state rest =>
    obtain ⟨-, hopen, hlocked⟩ := hpoint
    rcases hopen with rfl | rfl
    · have hrow : ∀ k row, s.promotions.find k = some row →
          (decide (row.id = promotionId) && decide (row.state = .pending)) = true →
          row.lockKey ∈ guards ∧ row.state ≠ .completed ∧ row.state ≠ .rejected := by
        intro k row hrow hp
        simp only [Bool.and_eq_true, decide_eq_true_eq] at hp
        rw [← Table.key_of_find hrow, hp.1] at hrow
        refine ⟨(hlocked.2 row hrow).2, ?_⟩
        rw [hp.2]
        exact ⟨nofun, nofun⟩
      exact ⟨frame_updatePromotions (deletedRow_id d.actor) (fun _ => rfl)
          (fun k row hfind hp => (hrow k row hfind hp).1)
          fun k row hfind hp => (hrow k row hfind hp).2,
        hok.updatePromotions (deletedRow_id d.actor) (fun _ => ⟨rfl, rfl⟩)
          (fun k row hfind hp => (hrow k row hfind hp).2) fun _ _ => nofun⟩
    · exact markFailed_kept hok _ (hlocked.mono fun _ => .inr)
  | remove => exact ⟨frame_removeEnvironment s _, hok.removeEnvironment _⟩

/-- No write takes or gives back a lock. -/
theorem held_of_writeTo {point : PromotionPoint} {next : Option PromotionPoint}
    (h : WriteTo s point s' next) : s'.held = s.held := by
  cases h with
  | decide hrow hpending =>
    unfold Board.decide
    dsimp only
    split <;> rfl
  | insertPending hadded hrequired => rw [(addPromotion_eq_some hadded).2.2]
  | insertPromoting hadded hrequired => rw [(addPromotion_eq_some hadded).2.2]
  | record hrecorded =>
    obtain ⟨inserted, hinserted, rfl⟩ := Option.map_eq_some_iff.mp hrecorded
    change inserted.held = s.held
    rw [(insertRelease_eq_some hinserted).2.2.2]
  | commit hupdated => rw [commitUpdate_eq_ok hupdated]
  | @close d promotionId state rest => cases state <;> rfl
  | _ => rfl

/-! ## Reads and locks -/

/-- The open promotions of a build and an environment, under their lock. -/
theorem stale_of_openPromotions (hok : BoardOk s) {buildId environmentId : ℕ}
    (hkey : LockKey.promotion buildId environmentId ∈ guards) :
    ((openPromotions s buildId environmentId).map Prod.fst).Nodup ∧
      ∀ entry ∈ openPromotions s buildId environmentId, entry.2 ≠ .pending →
        Promoting s guards entry.1 := by
  constructor
  · unfold openPromotions
    rw [List.map_map]
    exact s.promotions.nodup.sublist ((List.filter_sublist).map _)
  · intro entry hentry hstate
    obtain ⟨row, hmem, rfl⟩ := List.mem_map.mp hentry
    obtain ⟨hin, hp⟩ := List.mem_filter.mp hmem
    simp only [Bool.and_eq_true, Bool.or_eq_true, decide_eq_true_eq] at hp
    have hrow := Table.find_of_mem hin
    refine ⟨hok.promotionIds _ row hrow, fun row' hrow' => ?_⟩
    rw [hrow] at hrow'
    obtain rfl := Option.some.inj hrow'
    refine ⟨hp.2.resolve_left hstate, ?_⟩
    unfold EnvironmentPromotion.lockKey
    rwa [hp.1.1, hp.1.2]

/-- A release to promote from is a release of the build. -/
theorem mem_of_findSourceRelease {buildId : ℕ} {environment : ProjectEnvironment}
    {source : ProjectRelease} (h : findSourceRelease s buildId environment = some source) :
    source ∈ s.releases.rows ∧ source.buildId = buildId ∧ source.store = environment.store := by
  have hmem := List.mem_of_mem_head? h
  rw [List.mem_mergeSort, List.mem_filter] at hmem
  simp only [Bool.and_eq_true, decide_eq_true_eq] at hmem
  exact ⟨hmem.1, hmem.2.1.1.1.1, hmem.2.1.1.1.2⟩

/-- The open promotions that a deletion reads. -/
theorem openOk_of_openInto (hok : BoardOk s) (d : EnvironmentDeletion) :
    OpenOk s d (openInto s d.environmentId) := by
  intro entry hentry
  obtain ⟨row, hmem, rfl⟩ := List.mem_map.mp hentry
  obtain ⟨hin, hp⟩ := List.mem_filter.mp hmem
  simp only [Bool.and_eq_true, decide_eq_true_eq] at hp
  have hrow := Table.find_of_mem hin
  refine ⟨hok.promotionIds _ row hrow, fun row' hrow' => ?_⟩
  rw [hrow] at hrow'
  obtain rfl := Option.some.inj hrow'
  unfold EnvironmentPromotion.lockKey
  rw [hp.1]

theorem pointOk_of_readTo {point next : PromotionPoint} (hok : BoardOk s)
    (hpoint : PointOk s guards point) (h : ReadTo s point next) : PointOk s guards next := by
  cases h with
  | @promotion d promotion hrow =>
    refine ⟨hok.promotionIds _ promotion hrow, fun row hother => ?_, hok.sources _ promotion hrow⟩
    rw [hrow] at hother
    rw [Option.some.inj hother]
  | @environment loader environment hfind =>
    match loader, hpoint, hfind with
    | .promote (.request _), _, _ => trivial
    | .promote (.decide _ _), hknown, hfind => exact ⟨hknown, Table.key_of_find hfind⟩
    | .update _, _, _ => trivial
  | lockDecide hbasis => exact hpoint
  | @requester d promotion environment happrove =>
    obtain ⟨hknown, hid, hkey, hrunning⟩ := hpoint
    refine ⟨?_, ⟨hknown, hrunning happrove⟩, trivial⟩
    change LockKey.promotion promotion.buildId environment.id ∈ guards
    rw [hid]
    exact hkey
  | checkEnvironment hsome => exact ⟨hpoint.1, hpoint.2.1, trivial⟩
  | checkReleases hnone => exact ⟨hpoint.1, hpoint.2.1, clear_of_hasRelease hnone⟩
  | checkPromotions =>
    obtain ⟨hkey, hpurpose, hclear⟩ := hpoint
    obtain ⟨hnodup, hstale⟩ := stale_of_openPromotions hok hkey
    exact ⟨hkey, hpurpose, hclear, hnodup, fun entry hentry hstate _ => hstale entry hentry hstate⟩
  | skip =>
    obtain ⟨hkey, hpurpose, hclear, hnodup, hstale⟩ := hpoint
    exact ⟨hkey, hpurpose, hclear, (List.nodup_cons.mp hnodup).2, fun entry hentry =>
      hstale entry (List.mem_cons_of_mem _ hentry)⟩
  | checked => exact ⟨hpoint.1, hpoint.2.1, hpoint.2.2.1⟩
  | refuseChecked => exact hpoint.2.1.2.1
  | refuseSource => exact hpoint.2.1.2.1
  | @insert r environment source hsource =>
    obtain ⟨hkey, -, hclear⟩ := hpoint
    obtain ⟨hmem, hbuild, -⟩ := mem_of_findSourceRelease hsource
    have hfind := Table.find_of_mem hmem
    refine ⟨hkey, hclear, hbuild, hok.releaseIds _ source hfind, fun other hother => ?_⟩
    rw [hfind] at hother
    rw [← Option.some.inj hother]
    exact hbuild
  | @slot d promotion environment source hsource =>
    obtain ⟨hkey, ⟨hknown, hpromoting, huncalled⟩, hclear⟩ := hpoint
    have hbuild : source.buildId = (Purpose.decide d promotion).buildId :=
      hknown.source.2 source hsource
    rw [← hbuild] at hkey hclear
    exact ⟨hpromoting, huncalled, hkey, hclear⟩
  | promote => exact hpoint
  | unrecorded => exact hpoint.1
  | open_ => exact openOk_of_openInto hok _
  | @state d promotionId row rest hrow hopen =>
    obtain ⟨hrest, hid, hrows⟩ := hpoint
    refine ⟨hrest, hopen, hid, fun other hother => ⟨?_, (hrows other hother).2⟩⟩
    rw [hrow] at hother
    rw [Option.some.inj hother]
  | closed => exact hpoint.1
  | _ => trivial

/-- A lock that is taken. -/
theorem frame_held {called : Option ℕ} (held : List LockKey) :
    BoardFrame guards called s { s with held } := frame_of_eq le_rfl rfl rfl rfl

theorem pointOk_of_lockTo {point next : PromotionPoint} {key : LockKey}
    (hpoint : PointOk s guards point) (h : LockTo point key next) :
    PointOk { s with held := key :: s.held } (key :: guards) next := by
  have hframe : BoardFrame [] none s { s with held := key :: s.held } := frame_held _
  have hmono : ∀ {id : ℕ}, Promoting s guards id → Promoting s (key :: guards) id := fun h =>
    ⟨h.1, fun row hrow => ⟨(h.2 row hrow).1, List.mem_cons_of_mem _ (h.2 row hrow).2⟩⟩
  cases h with
  | request => exact ⟨List.mem_cons_self, trivial, trivial⟩
  | @decide d promotion environment =>
    obtain ⟨hknown, hid⟩ := hpoint
    refine ⟨hknown.frame hframe, hid, List.mem_cons.mpr (.inl ?_)⟩
    unfold EnvironmentPromotion.lockKey
    rw [hid]
  | slot =>
    have hready : ReadyToCall s (key :: guards) _ :=
      ⟨hmono hpoint.promoting, hpoint.uncalled, List.mem_cons_of_mem _ hpoint.locked, hpoint.clear⟩
    exact hready.frame hframe (fun _ _ => List.not_mem_nil) nofun
  | @delete d promotionId buildId rest =>
    obtain ⟨hid, hrows⟩ := hpoint (promotionId, buildId) List.mem_cons_self
    have hrest : OpenOk s d rest := fun entry hentry =>
      hpoint entry (List.mem_cons_of_mem _ hentry)
    exact ⟨hrest.frame hframe, hid, fun row hrow =>
      ⟨trivial, List.mem_cons.mpr (.inl (hrows row hrow))⟩⟩

/-! ## Points after a write -/

/-- A promotion other than the one that fails. -/
theorem Promoting.markFailed_of_ne {id other : ℕ} (h : Promoting s guards other) (hne : other ≠ id)
    (message : Text) : Promoting (s.markFailed id message) guards other := by
  refine ⟨h.1, fun row' hrow' => ?_⟩
  unfold Board.markFailed at hrow'
  rw [find_updatePromotions] at hrow'
  obtain ⟨row, hrow, rfl⟩ := Option.map_eq_some_iff.mp hrow'
  have hid : row.id ≠ id := Table.key_of_find hrow ▸ hne
  rw [if_neg (by simpa using hid)]
  exact h.2 row hrow

/-- A pending promotion that is approved may call the store. -/
theorem promoting_of_decide {d : PromotionDecision} {row : EnvironmentPromotion}
    (hok : BoardOk s) (environmentId : ℕ) (hrow : s.promotions.find d.promotionId = some row)
    (hpending : row.state = .pending) (hkey : row.lockKey ∈ guards) (happrove : d.approve = true) :
    Promoting (s.decide d environmentId) guards d.promotionId ∧
      Uncalled (s.decide d environmentId) d.promotionId := by
  unfold Board.decide
  rw [if_pos happrove]
  refine ⟨⟨hok.promotionIds _ row hrow, fun row' hrow' => ?_⟩, fun call hcall heq => ?_, fun _ =>
    List.mem_cons_self⟩
  · change (s.updatePromotions _ _ (decidedRow_id d)).promotions.find d.promotionId = some row' at hrow'
    rw [find_updatePromotions, hrow, Option.map_some] at hrow'
    obtain rfl := Option.some.inj hrow'
    rw [if_pos (by simp [hpending, Table.key_of_find hrow])]
    unfold decidedRow
    rw [if_pos happrove]
    exact ⟨rfl, hkey⟩
  · exact (hok.called call hcall).2 row (heq ▸ hrow) hpending

theorem pointOk_of_writeTo {point next : PromotionPoint} (hok : BoardOk s)
    (hpoint : PointOk s guards point) (h : WriteTo s point s' (some next)) :
    PointOk s' guards next := by
  obtain ⟨hframe, -⟩ := writeTo_kept hok hpoint h
  cases h with
  | @decide d promotion row environment hrow hpending =>
    obtain ⟨hknown, hid, hkey⟩ := hpoint
    exact ⟨hknown.frame hframe, hid, hkey, promoting_of_decide hok _ hrow hpending
      (hknown.row row hrow ▸ hkey)⟩
  | @stale purpose environment id state rest hstate hskip =>
    obtain ⟨hkey, hpurpose, hclear, hnodup, hstale⟩ := hpoint
    obtain ⟨hnew, hnodup⟩ := List.nodup_cons.mp hnodup
    refine ⟨hkey, ?_, hclear, hnodup, fun entry hentry hstate' hskip' => ?_⟩
    · cases purpose with
      | request r => trivial
      | decide d promotion =>
        obtain ⟨hknown, hpromoting, huncalled⟩ := hpurpose
        exact ⟨hknown.frame hframe, hpromoting.markFailed_of_ne (fun heq => hskip (congrArg some heq.symm)) _,
          huncalled⟩
    · refine (hstale entry (List.mem_cons_of_mem _ hentry) hstate' hskip').markFailed_of_ne
        (fun heq => hnew ?_) _
      change id ∈ rest.map Prod.fst
      rw [← heq]
      exact List.mem_map_of_mem hentry
  | @insertPromoting r environment source _ hadded hrequired =>
    obtain ⟨hkey, hclear, hbuild, -⟩ := hpoint
    obtain ⟨-, hfind, heq⟩ := addPromotion_eq_some hadded
    have hhistory : s'.history.storeCalls = s.history.storeCalls ∧
        s'.history.createdPending = s.history.createdPending := by
      rw [heq, hrequired]
      exact ⟨rfl, rfl⟩
    have hclear' : Clear s' r.buildId environment.id := by
      rw [heq]
      exact hclear
    refine ⟨⟨?_, fun row hrow => ?_⟩, ⟨fun call hcall => ?_, fun hpending => ?_⟩, ?_, ?_⟩
    · rw [heq]
      exact Nat.lt_succ_self _
    · change s'.promotions.find s.nextId = some row at hrow
      rw [hfind, if_pos rfl] at hrow
      obtain rfl := Option.some.inj hrow
      refine ⟨?_, hkey⟩
      unfold newPromotion
      rw [hrequired]
      rfl
    · rw [hhistory.1] at hcall
      exact (hok.called call hcall).1.ne
    · rw [hhistory.2] at hpending
      exact absurd (hok.pendingIds _ hpending) (lt_irrefl _)
    · exact hbuild ▸ hkey
    · exact hbuild ▸ hclear'
  | refused => exact hpoint.promoting
  | accepted => exact ⟨hpoint.promoting, hpoint.locked, hpoint.clear⟩
  | close => exact hpoint.1.frame hframe

/-! ## The promotion a call carries through -/

theorem promoting_of_running {point : PromotionPoint} {id : ℕ} (hpoint : PointOk s guards point)
    (h : point.running = some id) : Promoting s guards id := by
  cases point with
  | requester d promotion environment =>
    obtain ⟨-, -, -, hrunning⟩ := hpoint
    by_cases happrove : d.approve = true
    · obtain rfl : d.promotionId = id := by simpa [PromotionPoint.running, happrove] using h
      exact (hrunning happrove).1
    · simp [PromotionPoint.running, happrove] at h
  | check purpose environment at_ =>
    cases purpose with
    | request r => cases h
    | decide d promotion =>
      cases h
      exact hpoint.2.1.2.1
  | source purpose environment =>
    cases purpose with
    | request r => cases h
    | decide d promotion =>
      cases h
      exact hpoint.2.1.2.1
  | slot x =>
    cases h
    exact hpoint.promoting
  | promote x =>
    cases h
    exact hpoint.promoting
  | record x promoted =>
    cases h
    exact hpoint.1
  | refuse promotionId message =>
    cases h
    exact hpoint
  | unrecorded x =>
    cases h
    exact hpoint
  | _ => cases h

theorem running_of_readTo {point next : PromotionPoint} {id : ℕ} (h : ReadTo s point next)
    (hrunning : next.running = some id) : point.running = some id := by
  cases h with
  | requester happrove =>
    rw [← hrunning]
    exact if_pos happrove
  | @skip purpose => cases purpose <;> exact hrunning
  | @checkEnvironment purpose => cases purpose <;> exact hrunning
  | @checkReleases purpose => cases purpose <;> exact hrunning
  | @checkPromotions purpose => cases purpose <;> exact hrunning
  | @checked purpose environment => cases purpose <;> exact hrunning
  | refuseChecked => exact hrunning
  | refuseSource => exact hrunning
  | slot => exact hrunning
  | promote => exact hrunning
  | unrecorded => exact hrunning
  | _ => cases hrunning

theorem running_of_lockTo {point next : PromotionPoint} {key : LockKey} {id : ℕ}
    (h : LockTo point key next) (hrunning : next.running = some id) : point.running = some id := by
  cases h with
  | slot => exact hrunning
  | _ => cases hrunning

/-- A write goes on with its promotion, with a new one, or with one that was pending. -/
theorem running_of_writeTo {point next : PromotionPoint} {id : ℕ}
    (h : WriteTo s point s' (some next)) (hrunning : next.running = some id) :
    point.running = some id ∨ id = s.nextId ∨
      ∃ row, s.promotions.find id = some row ∧ row.state = .pending := by
  cases h with
  | @decide d promotion row environment hrow hpending =>
    by_cases happrove : d.approve = true
    · obtain rfl : d.promotionId = id := by
        simpa [PromotionPoint.running, happrove] using hrunning
      exact .inr (.inr ⟨row, hrow, hpending⟩)
    · simp [PromotionPoint.running, happrove] at hrunning
  | @stale purpose => cases purpose <;> exact .inl hrunning
  | insertPromoting => exact .inr (.inl (Option.some.inj hrunning).symm)
  | refused => exact .inl hrunning
  | accepted => exact .inl hrunning
  | close => cases hrunning

/-! ## Requests -/

/-- A release that failed stays so. -/
theorem failed_not_canTransitionTo (target : ReleaseState) :
    ReleaseState.failed.canTransitionTo target = false := by
  cases target <;> rfl

theorem changeRelease_kept (hok : BoardOk s) (releaseId : ℕ) (target : ReleaseState) :
    BoardFrame [] none s (s.changeRelease releaseId target) ∧
      BoardOk (s.changeRelease releaseId target) := by
  have hbuild : ∀ release : ProjectRelease,
      (if release.id = releaseId && release.state.canTransitionTo target then
        { release with state := target } else release).buildId = release.buildId := by
    intro release
    split <;> rfl
  have hinto : ∀ (release : ProjectRelease) buildId environmentId,
      (if release.id = releaseId && release.state.canTransitionTo target then
        { release with state := target } else release).PromotedInto buildId environmentId →
      release.PromotedInto buildId environmentId := by
    intro release buildId environmentId hinto
    split at hinto
    · rename_i hguard
      simp only [Bool.and_eq_true] at hguard
      refine ⟨hinto.promoted, hinto.build, hinto.environment, fun hfailed => ?_⟩
      rw [hfailed, failed_not_canTransitionTo] at hguard
      exact Bool.false_ne_true hguard.2
    · exact hinto
  exact ⟨frame_releases _ _ hbuild hinto, hok.mapReleases _ _ hbuild hinto⟩

theorem linkRelease_kept (hok : BoardOk s) (releaseId : ℕ) (ascBuildId : Text) :
    BoardFrame [] none s (s.linkRelease releaseId ascBuildId) ∧
      BoardOk (s.linkRelease releaseId ascBuildId) := by
  have hid : ∀ release : ProjectRelease, (if release.id = releaseId then
      { release with ascBuildId := some ascBuildId } else release).id = release.id := by
    intro release
    split <;> rfl
  have hbuild : ∀ release : ProjectRelease, (if release.id = releaseId then
      { release with ascBuildId := some ascBuildId } else release).buildId = release.buildId := by
    intro release
    split <;> rfl
  have hinto : ∀ (release : ProjectRelease) buildId environmentId, (if release.id = releaseId then
      { release with ascBuildId := some ascBuildId } else release).PromotedInto buildId
        environmentId → release.PromotedInto buildId environmentId := by
    intro release buildId environmentId hinto
    split at hinto
    · exact ⟨hinto.promoted, hinto.build, hinto.environment, hinto.live⟩
    · exact hinto
  unfold Board.linkRelease
  rw [Table.modify_eq_mapRows _ _ _ _ hid]
  exact ⟨frame_releases _ _ hbuild hinto, hok.mapReleases _ _ hbuild hinto⟩

/-- An upload or a release recorded by hand is no promotion. -/
theorem insertRelease_kept {input : NewRelease} {ascBuildId : Option Text} {now : ℤ}
    (hok : BoardOk s) (hnone : input.promotedFromReleaseId = none)
    (h : insertRelease s input ascBuildId now = some s') :
    BoardFrame [] none s s' ∧ BoardOk s' := by
  have hfalse : input.promotedFromReleaseId.isSome ≠ true := by
    rw [hnone]
    nofun
  exact ⟨frame_insertRelease (fun hsome => absurd hsome hfalse)
      (fun hsome => absurd hsome hfalse) h,
    hok.insertRelease (fun _ _ hinto => absurd hinto.promoted hfalse) h⟩

/-- A new environment takes an id and changes the environments and the named approvers. -/
theorem createEnvironment_eq_ok {projectId : Text} {request : CreateProjectEnvironmentRequest}
    (h : createEnvironment s projectId request = .ok s') :
    s' = { s with
      environments := s'.environments, approvers := s'.approvers, nextId := s.nextId + 1 } := by
  unfold createEnvironment at h
  simp only [bind, Except.bind, pure, Except.pure, throw, throwThe, MonadExceptOf.throw] at h
  repeat' split at h
  all_goals try cases h
  rename_i created hadded
  unfold Board.addEnvironment at hadded
  split at hadded
  · cases hadded
    rfl
  · cases hadded

/-- A new environment takes one id. -/
theorem createEnvironment_kept {projectId : Text} {request : CreateProjectEnvironmentRequest}
    (hok : BoardOk s) (h : createEnvironment s projectId request = .ok s') :
    BoardFrame [] none s s' ∧ BoardOk s' := by
  have heq := createEnvironment_eq_ok h
  have hnext : s'.nextId = s.nextId + 1 := by rw [heq]
  have hpromotions : s'.promotions = s.promotions := by rw [heq]
  have hreleases : s'.releases = s.releases := by rw [heq]
  have hhistory : s'.history = s.history := by rw [heq]
  exact ⟨frame_of_eq (by omega) hpromotions hreleases hhistory,
    hok.later (by omega) hpromotions hreleases hhistory⟩

/-- The statements that calls start with. -/
inductive PromotionPoint.Starts : PromotionPoint → Prop where
  | decide (d : PromotionDecision) : Starts (.promotion d)
  | request (r : PromotionRequest) : Starts (.environment (.promote (.request r)))
  | update (u : EnvironmentUpdate) : Starts (.environment (.update u))
  | delete (d : EnvironmentDeletion) : Starts (.delete d)

theorem pointOk_of_starts {point : PromotionPoint} (h : point.Starts) : PointOk s guards point := by
  cases h <;> trivial

theorem running_of_starts {point : PromotionPoint} (h : point.Starts) : point.running = none := by
  cases h <;> rfl

/-- What a request leaves as it was, and the call it starts. -/
theorem enterPromotions_eq_some {x : PromotionInput} {calls : List PromotionCall}
    (h : enterPromotions s x = some (s', calls)) :
    s'.held = s.held ∧ s'.promotions = s.promotions ∧ s'.history = s.history ∧
      (calls = [] ∨ ∃ point, calls = [⟨[], point⟩] ∧ point.Starts) := by
  have hcall : ∀ {p : Prop} [Decidable p] {point : PromotionPoint}, point.Starts →
      (if p then starting s point else none) = some (s', calls) →
      s'.held = s.held ∧ s'.promotions = s.promotions ∧ s'.history = s.history ∧
        (calls = [] ∨ ∃ point, calls = [⟨[], point⟩] ∧ point.Starts) := by
    intro p _ point hstarts h
    split at h <;> cases h
    exact ⟨rfl, rfl, rfl, .inr ⟨point, rfl, hstarts⟩⟩
  cases x with
  | create projectId actor request =>
    simp only [enterPromotions] at h
    split at h
    · split at h
      · cases h
      · rename_i created hcreated
        cases h
        rw [createEnvironment_eq_ok hcreated]
        exact ⟨rfl, rfl, rfl, .inl rfl⟩
    · cases h
  | request r => exact hcall (.request r) h
  | decide d => exact hcall (.decide d) h
  | update u => exact hcall (.update u) h
  | delete d => exact hcall (.delete d) h
  | upload input now =>
    simp only [enterPromotions] at h
    split at h
    · cases h
    · obtain ⟨inserted, hinserted, heq⟩ := Option.map_eq_some_iff.mp h
      cases heq
      rw [(insertRelease_eq_some hinserted).2.2.2]
      exact ⟨rfl, rfl, rfl, .inl rfl⟩
  | _ =>
    cases h
    exact ⟨rfl, rfl, rfl, .inl rfl⟩

/-- What a request writes at once. -/
theorem enterPromotions_kept {x : PromotionInput} {calls : List PromotionCall} (hok : BoardOk s)
    (h : enterPromotions s x = some (s', calls)) : BoardFrame [] none s s' ∧ BoardOk s' := by
  have hcall : ∀ {p : Prop} [Decidable p] {point : PromotionPoint},
      (if p then starting s point else none) = some (s', calls) →
      BoardFrame [] none s s' ∧ BoardOk s' := by
    intro p _ point h
    split at h <;> cases h
    exact ⟨frame_of_eq le_rfl rfl rfl rfl, hok⟩
  cases x with
  | create projectId actor request =>
    simp only [enterPromotions] at h
    split at h
    · split at h
      · cases h
      · rename_i created hcreated
        cases h
        exact createEnvironment_kept hok hcreated
    · cases h
  | request r => exact hcall h
  | decide d => exact hcall h
  | update u => exact hcall h
  | delete d => exact hcall h
  | upload input now =>
    simp only [enterPromotions] at h
    split at h
    · cases h
    · rename_i hnone
      obtain ⟨inserted, hinserted, heq⟩ := Option.map_eq_some_iff.mp h
      cases heq
      simp only [Bool.or_eq_true, not_or] at hnone
      exact insertRelease_kept hok (by simpa using hnone.2) hinserted
  | release releaseId target =>
    cases h
    exact changeRelease_kept hok releaseId target
  | link releaseId ascBuildId =>
    cases h
    exact linkRelease_kept hok releaseId ascBuildId
  | _ =>
    cases h
    exact ⟨frame_of_eq le_rfl rfl rfl rfl, hok.congr rfl rfl rfl rfl⟩

/-! ## Every step -/

/-- A call has the locks it counts on and knows what its point needs. -/
structure PromotionCall.Ok (s : Board) (call : PromotionCall) : Prop where
  held : ∀ key ∈ call.guards, key ∈ s.held
  point : PointOk s call.guards call.point

/-- Two calls have different locks and carry different promotions through. -/
structure PromotionCall.Apart (t u : PromotionCall) : Prop where
  guards : ∀ key ∈ t.guards, key ∉ u.guards
  running : ∀ id, t.point.running = some id → u.point.running ≠ some id

theorem PromotionCall.Apart.symm {t u : PromotionCall} (h : t.Apart u) : u.Apart t :=
  ⟨fun key hkey hin => h.guards key hin hkey, fun id hu ht => h.running id ht hu⟩

theorem running_of_calls {point : PromotionPoint} {id : ℕ} (h : point.calls = some id) :
    point.running = some id := by
  cases point with
  | promote x => exact h
  | _ => cases h

theorem step_kept {call : PromotionCall} {next : Option PromotionCall} (hok : BoardOk s)
    (hcall : call.Ok s) (h : PromotionStep s call s' next) :
    (BoardFrame call.guards call.point.calls s s' ∧ BoardOk s') ∧ ∀ v ∈ next, v.Ok s' := by
  have hunlock : ∀ {written : Board}, BoardFrame call.guards call.point.calls s written →
      BoardOk written → BoardFrame call.guards call.point.calls s (written.unlock call.guards) ∧
        BoardOk (written.unlock call.guards) := fun hframe hwritten =>
    ⟨hframe.trans (frame_held _), hwritten.congr rfl rfl rfl rfl⟩
  cases h with
  | stop => exact ⟨hunlock (frame_of_eq le_rfl rfl rfl rfl) hok, by simp⟩
  | read hread =>
    refine ⟨⟨frame_of_eq le_rfl rfl rfl rfl, hok⟩, fun v hv => ?_⟩
    cases hv
    exact ⟨hcall.held, pointOk_of_readTo hok hcall.point hread⟩
  | @lock key point hlock hfree =>
    refine ⟨⟨frame_held _, hok.congr rfl rfl rfl rfl⟩, fun v hv => ?_⟩
    cases hv
    refine ⟨fun other hother => ?_, pointOk_of_lockTo hcall.point hlock⟩
    rcases List.mem_cons.mp hother with rfl | hin
    · exact List.mem_cons_self
    · exact List.mem_cons_of_mem _ (hcall.held other hin)
  | write hwrite =>
    refine ⟨writeTo_kept hok hcall.point hwrite, fun v hv => ?_⟩
    cases hv
    refine ⟨?_, pointOk_of_writeTo hok hcall.point hwrite⟩
    rw [held_of_writeTo hwrite]
    exact hcall.held
  | finish hwrite =>
    obtain ⟨hframe, hwritten⟩ := writeTo_kept hok hcall.point hwrite
    exact ⟨hunlock hframe hwritten, by simp⟩

/-- A call that gives back its locks leaves the other calls theirs. -/
theorem PromotionCall.Ok.unlock {t u : PromotionCall} (hu : u.Ok s) (hapart : t.Apart u) :
    u.Ok (s.unlock t.guards) := by
  refine ⟨fun key hkey => List.mem_filter.mpr ⟨hu.held key hkey, ?_⟩, ?_⟩
  · simpa using fun hin => hapart.guards key hin hkey
  · have hframe : BoardFrame [] none s (s.unlock t.guards) := frame_held _
    exact hu.point.frame hframe
      (fun _ _ => List.not_mem_nil) nofun

theorem step_beside {t u : PromotionCall} {next : Option PromotionCall} (hok : BoardOk s)
    (ht : t.Ok s) (h : PromotionStep s t s' next) (hu : u.Ok s) (hapart : t.Apart u) :
    u.Ok s' ∧ ∀ v ∈ next, u.Apart v := by
  obtain ⟨⟨hframe, -⟩, -⟩ := step_kept hok ht h
  have hpoint : PointOk s' u.guards u.point :=
    hu.point.frame hframe (fun key hkey hin => hapart.guards key hin hkey) fun id hrunning hcalls =>
      hapart.running id (running_of_calls hcalls) hrunning
  cases h with
  | stop => exact ⟨hu.unlock hapart, by simp⟩
  | read hread =>
    refine ⟨hu, fun v hv => ?_⟩
    cases hv
    exact ⟨hapart.symm.guards, fun id hrunning hnext =>
      hapart.running id (running_of_readTo hread hnext) hrunning⟩
  | @lock key point hlock hfree =>
    refine ⟨⟨fun other hother => List.mem_cons_of_mem _ (hu.held other hother), hpoint⟩,
      fun v hv => ?_⟩
    cases hv
    refine ⟨fun other hother hin => ?_, fun id hrunning hnext =>
      hapart.running id (running_of_lockTo hlock hnext) hrunning⟩
    rcases List.mem_cons.mp hin with rfl | hin
    · exact hfree (hu.held other hother)
    · exact hapart.guards other hin hother
  | write hwrite =>
    refine ⟨⟨?_, hpoint⟩, fun v hv => ?_⟩
    · rw [held_of_writeTo hwrite]
      exact hu.held
    · cases hv
      refine ⟨hapart.symm.guards, fun id hrunning hnext => ?_⟩
      have hpromoting := promoting_of_running hu.point hrunning
      rcases running_of_writeTo hwrite hnext with hsame | rfl | ⟨row, hrow, hpending⟩
      · exact hapart.running id hsame hrunning
      · exact absurd hpromoting.1 (lt_irrefl _)
      · rw [(hpromoting.2 row hrow).1] at hpending
        cases hpending
  | finish hwrite =>
    refine ⟨⟨fun key hkey => List.mem_filter.mpr ⟨?_, ?_⟩, hpoint⟩, by simp⟩
    · rw [held_of_writeTo hwrite]
      exact hu.held key hkey
    · simpa using fun hin => hapart.guards key hin hkey

/-- What a restart leaves: promotions under way have failed. -/
theorem failInterruptedPromotions_kept (hok : BoardOk s) :
    BoardFrame (s.promotions.rows.map EnvironmentPromotion.lockKey) none s
      (promotions.restart s) ∧ BoardOk (promotions.restart s) := by
  have hopen : ∀ id row, s.promotions.find id = some row →
      decide (row.state = .promoting) = true → row.state ≠ .completed ∧ row.state ≠ .rejected := by
    intro id row _ hp
    rw [of_decide_eq_true hp]
    exact ⟨nofun, nofun⟩
  have hheld : BoardOk { s with held := [] } := hok.congr rfl rfl rfl rfl
  exact ⟨(frame_held []).trans (frame_updatePromotions (s := { s with held := [] })
      (failedRow_id interruptedByRestart) (fun _ => rfl)
      (fun id row hrow _ => List.mem_map_of_mem (Table.mem_of_find hrow)) hopen),
    hheld.updatePromotions (failedRow_id interruptedByRestart) (fun _ => ⟨rfl, rfl⟩) hopen
      fun _ _ => nofun⟩

/-- Every step of every call keeps the tables and what the calls beside it know. -/
theorem promotions_stable :
    Stable promotions .any BoardOk (fun s call => call.Ok s) PromotionCall.Apart where
  symm _ _ h := h.symm
  enter s x s' calls hok _ h := by
    obtain ⟨-, -, -, hcalls⟩ := enterPromotions_eq_some h
    refine ⟨(enterPromotions_kept hok h).2, ?_⟩
    rcases hcalls with rfl | ⟨point, rfl, hstarts⟩
    · exact ⟨by simp, List.Pairwise.nil⟩
    · refine ⟨fun t ht => ?_, List.pairwise_singleton _ _⟩
      rw [List.mem_singleton.mp ht]
      exact ⟨nofun, pointOk_of_starts hstarts⟩
  enterBeside s x s' calls u hok _ h hu _ := by
    obtain ⟨hheld, -, -, hcalls⟩ := enterPromotions_eq_some h
    obtain ⟨hframe, -⟩ := enterPromotions_kept hok h
    refine ⟨⟨?_, hu.point.frame hframe (fun _ _ => List.not_mem_nil) nofun⟩, fun t ht => ?_⟩
    · rw [hheld]
      exact hu.held
    · rcases hcalls with rfl | ⟨point, rfl, hstarts⟩
      · cases ht
      · rw [List.mem_singleton.mp ht]
        refine ⟨fun _ _ => List.not_mem_nil, fun id _ hrunning => ?_⟩
        rw [running_of_starts hstarts] at hrunning
        cases hrunning
  advance s t e s' t' hok ht _ h := by
    obtain ⟨⟨-, hok'⟩, hnext⟩ := step_kept hok ht (step_of_advancePromotion h)
    exact ⟨hok', hnext⟩
  advanceBeside s t e s' t' u hok ht _ h hu hapart _ :=
    step_beside hok ht (step_of_advancePromotion h) hu hapart
  drop s t hok _ := hok.congr rfl rfl rfl rfl
  dropBeside s t u _ _ hu hapart := hu.unlock hapart
  restart s hok := (failInterruptedPromotions_kept hok).2

/-! ## Every run -/

/-- Completed and rejected promotions stay as they are, or go with their environment. -/
def KeepsSettled (s s' : Board) : Prop :=
  s.nextId ≤ s'.nextId ∧ ∀ id row', id < s.nextId → s'.promotions.find id = some row' →
    ∃ row, s.promotions.find id = some row ∧
      (row.state = .completed ∨ row.state = .rejected → row' = row)

theorem KeepsSettled.refl (s : Board) : KeepsSettled s s :=
  ⟨le_rfl, fun _ row' _ hrow' => ⟨row', hrow', fun _ => rfl⟩⟩

theorem KeepsSettled.trans {mid : Board} (h₁ : KeepsSettled s mid) (h₂ : KeepsSettled mid s') :
    KeepsSettled s s' := by
  refine ⟨h₁.1.trans h₂.1, fun id row' hid hrow' => ?_⟩
  obtain ⟨row, hrow, heq⟩ := h₂.2 id row' (hid.trans_le h₁.1) hrow'
  obtain ⟨old, hold, heq'⟩ := h₁.2 id row hid hrow
  refine ⟨old, hold, fun hsettled => ?_⟩
  have hsame := heq' hsettled
  rw [heq (hsame ▸ hsettled), hsame]

theorem keepsSettled_of_frame {called : Option ℕ} (h : BoardFrame guards called s s') :
    KeepsSettled s s' := by
  refine ⟨h.nextId, fun id row' hid hrow' => ?_⟩
  rcases h.rows id row' hrow' with hnew | hsame | ⟨row, hrow, -, -, hcompleted, hrejected⟩
  · omega
  · exact ⟨row', hsame, fun _ => rfl⟩
  · exact ⟨row, hrow, fun hsettled => (hsettled.elim hcompleted hrejected).elim⟩

theorem keepsSettled_of_next {c c' : Config Board PromotionCall}
    {e : Event PromotionInput PromotionAnswer}
    (h : Holds BoardOk (fun s call => call.Ok s) PromotionCall.Apart c)
    (hnext : promotions.next c e = some c') : KeepsSettled c.shared c'.shared := by
  cases e with
  | enter x =>
    obtain ⟨⟨s', calls⟩, henter, rfl⟩ := Option.map_eq_some_iff.mp hnext
    exact keepsSettled_of_frame (enterPromotions_kept h.shared henter).1
  | advance i e =>
    obtain ⟨t, ht, hmap⟩ := Option.bind_eq_some_iff.mp hnext
    obtain ⟨⟨s', t'⟩, hadv, rfl⟩ := Option.map_eq_some_iff.mp hmap
    exact keepsSettled_of_frame (step_kept h.shared (h.calls t (List.mem_of_getElem? ht))
      (step_of_advancePromotion hadv)).1.1
  | drop i =>
    obtain ⟨t, ht, rfl⟩ := Option.map_eq_some_iff.mp hnext
    have hframe : BoardFrame [] none c.shared (promotions.drop c.shared t) := frame_held _
    exact keepsSettled_of_frame hframe
  | restart =>
    cases hnext
    exact keepsSettled_of_frame (failInterruptedPromotions_kept h.shared).1

/-- Nothing was promoted yet. -/
theorem boardOk_of_fresh (h : s.Fresh) : BoardOk s := by
  have hpromotions : ∀ id row, s.promotions.find id ≠ some row := fun id row hrow => by
    have hmem := Table.mem_of_find hrow
    rw [h.promotions] at hmem
    cases hmem
  have hreleases : ∀ id release, s.releases.find id ≠ some release := fun id release hrelease => by
    have hmem := Table.mem_of_find hrelease
    rw [h.releases] at hmem
    cases hmem
  refine ⟨fun id row hrow => absurd hrow (hpromotions id row),
    fun id release hrelease => absurd hrelease (hreleases id release),
    fun id row hrow => absurd hrow (hpromotions id row), ?_, ?_, ?_, ?_, ?_, ?_⟩
  all_goals first
    | rw [h.history]
      simp
    | rw [h.releases]
      simp

/-- In every state that is reached: a promotion called the store at most once; one that was created
as pending called it after an approval; a completed or rejected promotion stays as it is for as
long as its environment is there; and at most one release by promotion that did not fail holds a
build in an environment. -/
theorem promotions_happen_once {s : Board} (hfresh : s.Fresh)
    {es : List (Event PromotionInput PromotionAnswer)} {c : Config Board PromotionCall}
    (hrun : promotions.run ⟨s, []⟩ es = some c) :
    (∀ id, c.shared.history.storeCalls.countP (·.promotionId = id) ≤ 1) ∧
      (∀ call ∈ c.shared.history.storeCalls,
        call.promotionId ∈ c.shared.history.createdPending → call.approved = true) ∧
      (∀ change ∈ c.shared.history.changes,
        change.source ≠ .completed ∧ change.source ≠ .rejected) ∧
      (∀ es' c', promotions.run c es' = some c' → ∀ id row row',
        c.shared.promotions.find id = some row → row.state = .completed ∨ row.state = .rejected →
        c'.shared.promotions.find id = some row' → row' = row) ∧
      ∀ first second, first ∈ c.shared.releases.rows → second ∈ c.shared.releases.rows →
        ∀ buildId environmentId, first.PromotedInto buildId environmentId →
          second.PromotedInto buildId environmentId → first = second := by
  have hholds := promotions_stable.run (Holds.start (boardOk_of_fresh hfresh))
    (meets_any promotions _ _) hrun
  have hok := hholds.shared
  refine ⟨hok.once, hok.approved, hok.settled, fun es' c' hrun' id row row' hrow hsettled hrow' => ?_,
    hok.unique⟩
  have hkeeps : KeepsSettled c.shared c'.shared :=
    promotions_stable.run_rel (R := KeepsSettled) KeepsSettled.refl (fun _ _ _ h₁ h₂ => h₁.trans h₂)
      (fun _ _ _ h _ hnext => keepsSettled_of_next h hnext) hholds (meets_any promotions _ _) hrun'
  obtain ⟨old, hold, heq⟩ := hkeeps.2 id row' (hok.promotionIds id row hrow) hrow'
  rw [hrow] at hold
  obtain rfl := Option.some.inj hold
  exact heq hsettled

/-! ## A promotion -/

/-- A maintainer of the project. -/
def maintainerActor : PromotionActor := ⟨.member .maintainer, "u2"⟩

/-- A policy that releases to everyone at once. -/
def atOncePolicy : ReleasePolicy where
  steps := [.finite 1]
  intervalHours := .finite 24
  crashRateThreshold := none
  approval := .none

/-- A request for a Google Play environment of a track. -/
def trackEnvironment (track : Text) (approvalRequired : Bool) : CreateProjectEnvironmentRequest where
  key := track
  name := track
  store := .googlePlay
  track := track
  approvalRequired := approvalRequired
  rolloutPolicy := atOncePolicy
  submitForReview := false
  approvers := none

/-- A build that succeeded. -/
def succeededBuild (id : ℕ) : Build where
  id := id
  projectId := "p"
  pipelineId := "l"
  buildNumber := id
  status := .succeeded
  branch := none
  commitSha := none
  snapshot :=
    { repositoryId := none, repoUrl := none, workflow := none, retrySteps := []
      androidIdentity := none, iosIdentity := none, publishDisabled := false, signingError := none }
  webhookId := none
  sourceBuildId := none
  approvalRequestedAt := none

/-- Two builds, and no environment yet. -/
def freshBoard : Board where
  environments := ⟨[], List.nodup_nil⟩
  approvers := []
  members := ⟨[], List.nodup_nil⟩
  builds := ⟨[succeededBuild 1, succeededBuild 2], by decide⟩
  releases := ⟨[], List.nodup_nil⟩
  promotions := ⟨[], List.nodup_nil⟩
  nextId := 1
  held := []
  history := {}

/-- An upload of a build to a track. -/
def uploadTo (buildId : ℕ) (track : Text) : NewRelease where
  projectId := "p"
  buildId := buildId
  store := .googlePlay
  track := track
  versionCode := some 7
  state := .complete
  rolloutFraction := .finite 1
  policy := atOncePolicy
  environmentId := none
  promotedFromReleaseId := none

/-- Statements of a call, with a store that accepts. -/
def statements (i n : ℕ) : List (Event PromotionInput PromotionAnswer) :=
  List.replicate n (.advance i { store := .ok ⟨none, none⟩ })

/-- Build 1 is uploaded, its promotion into `production` requested and approved. -/
def approvedPromotion : List (Event PromotionInput PromotionAnswer) :=
  [.enter (.create "p" maintainerActor (trackEnvironment "production" true)),
    .enter (.upload (uploadTo 1 "internal") 5),
    .enter (.request ⟨"p", 1, 1, maintainerActor, none⟩)] ++ statements 0 10 ++
  [.enter (.decide ⟨"p", 3, maintainerActor, true, true, none⟩)] ++ statements 0 15

/-- The promotion calls the store once, approved by then. -/
theorem promotions_happen_once_approved :
    ∃ c, promotions.run ⟨freshBoard, []⟩ approvedPromotion = some c ∧
      c.shared.history.storeCalls = [⟨3, true⟩] ∧ c.shared.history.createdPending = [3] ∧
      (∀ id, c.shared.history.storeCalls.countP (·.promotionId = id) ≤ 1) ∧
      (∀ change ∈ c.shared.history.changes,
        change.source ≠ .completed ∧ change.source ≠ .rejected) ∧
      ∀ first second, first ∈ c.shared.releases.rows → second ∈ c.shared.releases.rows →
        ∀ buildId environmentId, first.PromotedInto buildId environmentId →
          second.PromotedInto buildId environmentId → first = second := by
  have hcalls : ((promotions.run ⟨freshBoard, []⟩ approvedPromotion).map fun c =>
      (c.shared.history.storeCalls, c.shared.history.createdPending)) =
        some ([⟨3, true⟩], [3]) := by decide +kernel
  obtain ⟨c, hc, heq⟩ := Option.map_eq_some_iff.mp hcalls
  obtain ⟨honce, -, hsettled, -, hunique⟩ :=
    promotions_happen_once ⟨rfl, rfl, rfl, rfl, rfl, rfl⟩ hc
  exact ⟨c, hc, (Prod.mk.inj heq).1, (Prod.mk.inj heq).2, honce, hsettled, hunique⟩

end OoreBuild
