import OoreBuild.PromotionOnce

/-!
# Deleting an environment beside promotions into it

`delete_environment` holds the locks of the promotions that were open when it looked, until the row
of the environment is gone. A request that passes its re-check before it wrote its row is not among
them, nor is one that passes it after the deletion looked. `deletions_apart` says that these are the
only ways in which a deletion and a promotion meet.
-/

namespace OoreBuild

open Text Interleave

variable {s s' : Board} {guards : List LockKey}

/-! ## Where calls are -/

/-- The environment that a call takes a build into. -/
def PromotionPoint.target : PromotionPoint → Option ℕ
  | .requester _ _ loaded | .check _ loaded _ | .source _ loaded | .insert _ loaded _ =>
    some loaded.id
  | .slot x | .promote x | .record x _ | .unrecorded x => some x.environment.id
  | _ => none

/-- The environment of a promotion between its re-check and its recorded outcome. -/
def PromotionPoint.checkedInto (s : Board) : PromotionPoint → Option ℕ
  | .source _ loaded | .insert _ loaded _ => some loaded.id
  | .slot x | .promote x | .record x _ | .unrecorded x => some x.environment.id
  | .refuse promotionId _ => (s.promotions.find promotionId).map (·.environmentId)
  | _ => none

/-- The environment and the build of a request that passed its re-check and has no row yet. -/
def PromotionPoint.rowless : PromotionPoint → Option (ℕ × ℕ)
  | .source (.request r) loaded | .insert r loaded _ => some (loaded.id, r.buildId)
  | _ => none

/-- The environment of a deletion that has looked for open promotions, with the builds whose locks
it has not taken yet. -/
def PromotionPoint.deleting : PromotionPoint → Option (ℕ × List ℕ)
  | .tryLock d rest | .state d _ rest | .close d _ _ rest =>
    some (d.environmentId, rest.map Prod.snd)
  | .remove d => some (d.environmentId, [])
  | _ => none

/-- The promotion waits or is under way. -/
def EnvironmentPromotion.Open (row : EnvironmentPromotion) : Prop :=
  row.state = .pending ∨ row.state = .promoting

/-- A call that carries a promotion through has its row; a deletion that looked for open promotions
has the locks of all into its environment, or takes them yet. -/
structure PromotionPoint.Rows (s : Board) (guards : List LockKey) (point : PromotionPoint) :
    Prop where
  running : ∀ id, point.running = some id → ∃ row, s.promotions.find id = some row ∧
    ∀ environmentId, point.target = some environmentId → row.environmentId = environmentId
  deleting : ∀ environmentId builds, point.deleting = some (environmentId, builds) →
    ∀ row ∈ s.promotions.rows, row.environmentId = environmentId → row.Open →
      row.buildId ∈ builds ∨ row.lockKey ∈ guards

/-- A deletion takes the lock of a request without a row yet. -/
def PromotionPoint.DeletesApart (deletion request : PromotionPoint) : Prop :=
  ∀ environmentId builds buildId, deletion.deleting = some (environmentId, builds) →
    request.rowless = some (environmentId, buildId) → buildId ∈ builds

/-! ## What a write does to the rows -/

/-- An update that opens no promotion. -/
theorem open_of_updatePromotions {p : EnvironmentPromotion → Bool}
    {f : EnvironmentPromotion → EnvironmentPromotion} (hf : ∀ row, (f row).id = row.id)
    (hkeep : ∀ row, (f row).environmentId = row.environmentId ∧ (f row).buildId = row.buildId)
    (hopens : ∀ row, p row = true → (f row).Open → row.Open) {row' : EnvironmentPromotion}
    (hrow' : row' ∈ (s.updatePromotions p f hf).promotions.rows) (hopen : row'.Open) :
    ∃ row ∈ s.promotions.rows, row.Open ∧ row.environmentId = row'.environmentId ∧
      row.buildId = row'.buildId := by
  obtain ⟨row, hrow, rfl⟩ := List.mem_map.mp hrow'
  refine ⟨row, hrow, ?_⟩
  by_cases hp : p row = true
  · rw [if_pos hp] at hopen ⊢
    exact ⟨hopens row hp hopen, (hkeep row).1.symm, (hkeep row).2.symm⟩
  · rw [if_neg hp] at hopen ⊢
    exact ⟨hopen, rfl, rfl⟩

theorem open_of_markFailed {id : ℕ} {message : Text} {row' : EnvironmentPromotion}
    (hrow' : row' ∈ (s.markFailed id message).promotions.rows) (hopen : row'.Open) :
    ∃ row ∈ s.promotions.rows, row.Open ∧ row.environmentId = row'.environmentId ∧
      row.buildId = row'.buildId := by
  refine open_of_updatePromotions (failedRow_id message) (fun _ => ⟨rfl, rfl⟩)
    (fun row _ hfailed => ?_) hrow' hopen
  rcases hfailed with hst | hst <;> cases hst

theorem open_of_addPromotion {r : PromotionRequest} {environment : ProjectEnvironment}
    {source : ProjectRelease} (h : s.addPromotion r environment source = some s')
    {row' : EnvironmentPromotion} (hrow' : row' ∈ s'.promotions.rows) :
    row' ∈ s.promotions.rows ∨ row' = newPromotion s r environment source := by
  obtain ⟨-, hfind, -⟩ := addPromotion_eq_some h
  have hrow := Table.find_of_mem hrow'
  rw [hfind] at hrow
  split at hrow
  · exact .inr (Option.some.inj hrow).symm
  · exact .inl (Table.mem_of_find hrow)

/-- A promotion is open after a write if it was before, or is the new one. -/
theorem open_of_writeTo {point : PromotionPoint} {next : Option PromotionPoint}
    (h : WriteTo s point s' next) {row' : EnvironmentPromotion} (hrow' : row' ∈ s'.promotions.rows)
    (hopen : row'.Open) :
    (∃ row ∈ s.promotions.rows, row.Open ∧ row.environmentId = row'.environmentId ∧
      row.buildId = row'.buildId) ∨ point.rowless = some (row'.environmentId, row'.buildId) := by
  have hsame : row' ∈ s.promotions.rows → ∃ row ∈ s.promotions.rows, row.Open ∧
      row.environmentId = row'.environmentId ∧ row.buildId = row'.buildId := fun hrow =>
    ⟨row', hrow, hopen, rfl, rfl⟩
  cases h with
  | @decide d promotion row environment hrow hpending =>
    have hdecided : row' ∈ (s.updatePromotions
        (fun row => row.id = d.promotionId && row.state = .pending) (decidedRow d)
        (decidedRow_id d)).promotions.rows := by
      unfold Board.decide at hrow'
      dsimp only at hrow'
      split at hrow' <;> exact hrow'
    refine .inl (open_of_updatePromotions (decidedRow_id d) (fun _ => ⟨rfl, rfl⟩)
      (fun row hp _ => ?_) hdecided hopen)
    simp only [Bool.and_eq_true, decide_eq_true_eq] at hp
    exact .inl hp.2
  | stale => exact .inl (open_of_markFailed hrow' hopen)
  | insertPending hadded hrequired =>
    rcases open_of_addPromotion hadded hrow' with hold | rfl
    · exact .inl (hsame hold)
    · exact .inr rfl
  | insertPromoting hadded hrequired =>
    rcases open_of_addPromotion hadded hrow' with hold | rfl
    · exact .inl (hsame hold)
    · exact .inr rfl
  | refused => exact .inl (hsame hrow')
  | accepted => exact .inl (hsame hrow')
  | record hrecorded =>
    obtain ⟨inserted, hinserted, rfl⟩ := Option.map_eq_some_iff.mp hrecorded
    have hclosed : ∀ row, ¬(completedRow s.nextId row).Open := fun row hcompleted => by
      rcases hcompleted with hst | hst <;> cases hst
    have hrows := open_of_updatePromotions (completedRow_id s.nextId) (fun _ => ⟨rfl, rfl⟩)
      (fun row _ hcompleted => absurd hcompleted (hclosed row)) hrow' hopen
    rw [(insertRelease_eq_some hinserted).2.2.2] at hrows
    exact .inl hrows
  | fail => exact .inl (open_of_markFailed hrow' hopen)
  | unrecorded => exact .inl (open_of_markFailed hrow' hopen)
  | commit hupdated =>
    rw [commitUpdate_eq_ok hupdated] at hrow'
    exact .inl (hsame hrow')
  | @close d promotionId state rest =>
    cases state with
    | pending =>
      refine .inl (open_of_updatePromotions (deletedRow_id d.actor) (fun _ => ⟨rfl, rfl⟩)
        (fun row hp _ => ?_) hrow' hopen)
      simp only [Bool.and_eq_true, decide_eq_true_eq] at hp
      exact .inl hp.2
    | _ => exact .inl (open_of_markFailed hrow' hopen)
  | remove => exact .inl (hsame (List.mem_filter.mp hrow').1)

/-- A write keeps the rows of promotions, other than those of a deleted environment. -/
theorem find_of_writeTo {point : PromotionPoint} {next : Option PromotionPoint}
    (h : WriteTo s point s' next) {id : ℕ} {row : EnvironmentPromotion}
    (hnew : id < s.nextId) (hrow : s.promotions.find id = some row)
    (hstays : ∀ d, point = .remove d → row.environmentId ≠ d.environmentId) :
    ∃ row', s'.promotions.find id = some row' ∧ row'.environmentId = row.environmentId := by
  have hupdate : ∀ (mid : Board) (p : EnvironmentPromotion → Bool)
      (f : EnvironmentPromotion → EnvironmentPromotion) (hf : ∀ row, (f row).id = row.id),
      mid.promotions = s.promotions → (∀ row, (f row).environmentId = row.environmentId) →
      ∃ row', (mid.updatePromotions p f hf).promotions.find id = some row' ∧
        row'.environmentId = row.environmentId := by
    intro mid p f hf hmid hkeep
    rw [find_updatePromotions, hmid, hrow]
    refine ⟨_, rfl, ?_⟩
    dsimp only
    by_cases hp : p row = true
    · rw [if_pos hp, hkeep]
    · rw [if_neg hp]
  cases h with
  | @decide d promotion _ environment hpromotion hpending =>
    have hdecided := hupdate s (fun row => row.id = d.promotionId && row.state = .pending)
      (decidedRow d) (decidedRow_id d) rfl fun _ => rfl
    unfold Board.decide
    dsimp only
    split <;> exact hdecided
  | stale => exact hupdate s _ _ _ rfl fun _ => rfl
  | insertPending hadded hrequired =>
    rw [(addPromotion_eq_some hadded).2.1, if_neg hnew.ne]
    exact ⟨row, hrow, rfl⟩
  | insertPromoting hadded hrequired =>
    rw [(addPromotion_eq_some hadded).2.1, if_neg hnew.ne]
    exact ⟨row, hrow, rfl⟩
  | refused => exact ⟨row, hrow, rfl⟩
  | accepted => exact ⟨row, hrow, rfl⟩
  | record hrecorded =>
    obtain ⟨inserted, hinserted, rfl⟩ := Option.map_eq_some_iff.mp hrecorded
    refine hupdate inserted _ _ (completedRow_id s.nextId) ?_ fun _ => rfl
    rw [(insertRelease_eq_some hinserted).2.2.2]
  | fail => exact hupdate s _ _ _ rfl fun _ => rfl
  | @unrecorded x message => exact hupdate s _ _ (failedRow_id message) rfl fun _ => rfl
  | commit hupdated =>
    rw [commitUpdate_eq_ok hupdated]
    exact ⟨row, hrow, rfl⟩
  | @close d promotionId state rest =>
    cases state with
    | pending => exact hupdate s _ _ (deletedRow_id d.actor) rfl fun _ => rfl
    | _ => exact hupdate s _ _ (failedRow_id stalePromoting) rfl fun _ => rfl
  | @remove d =>
    refine ⟨row, ?_, rfl⟩
    change (s.promotions.filter _).find id = some row
    rw [Table.find_filter, hrow, Option.filter_some, if_pos (by simpa using hstays d rfl)]

/-! ## Where a statement leads -/

theorem target_of_readTo {point next : PromotionPoint} {id environmentId : ℕ}
    (h : ReadTo s point next) (hrunning : next.running = some id)
    (htarget : next.target = some environmentId) : point.target = some environmentId := by
  cases h with
  | requester => exact htarget
  | checkEnvironment => exact htarget
  | checkReleases => exact htarget
  | checkPromotions => exact htarget
  | skip => exact htarget
  | checked => exact htarget
  | slot => exact htarget
  | promote => exact htarget
  | unrecorded => exact htarget
  | refuseChecked => cases htarget
  | refuseSource => cases htarget
  | _ => cases hrunning

/-- A deletion looks for open promotions, or goes on with those it found. -/
theorem deleting_of_readTo {point next : PromotionPoint} {environmentId : ℕ} {builds : List ℕ}
    (h : ReadTo s point next) (hdeleting : next.deleting = some (environmentId, builds)) :
    point.deleting = some (environmentId, builds) ∨
      (∃ d, point = .open_ d ∧ d.environmentId = environmentId) ∧
        (openInto s environmentId).map Prod.snd = builds := by
  cases h with
  | @open_ d =>
    cases hdeleting
    exact .inr ⟨⟨d, rfl, rfl⟩, rfl⟩
  | locked => exact .inl hdeleting
  | state => exact .inl hdeleting
  | closed => exact .inl hdeleting
  | _ => cases hdeleting

/-- A request passes its re-check, or goes on to write its row. -/
theorem rowless_of_readTo {point next : PromotionPoint} {environmentId buildId : ℕ}
    (h : ReadTo s point next) (hrowless : next.rowless = some (environmentId, buildId)) :
    point.rowless = some (environmentId, buildId) ∨
      ∃ r loaded, point = .check (.request r) loaded (.stale []) ∧ loaded.id = environmentId ∧
        r.buildId = buildId := by
  cases h with
  | @checked purpose environment =>
    cases purpose with
    | request r =>
      cases hrowless
      exact .inr ⟨r, environment, rfl, rfl, rfl⟩
    | decide d promotion => cases hrowless
  | insert => exact .inl hrowless
  | _ => cases hrowless

theorem rowless_of_lockTo {point next : PromotionPoint} {key : LockKey}
    (h : LockTo point key next) : next.rowless = none := by
  cases h <;> rfl

theorem rowless_of_writeTo {point next : PromotionPoint} (h : WriteTo s point s' (some next)) :
    next.rowless = none := by
  cases h <;> rfl

theorem deleting_of_writeTo {point next : PromotionPoint} {environmentId : ℕ} {builds : List ℕ}
    (h : WriteTo s point s' (some next))
    (hdeleting : next.deleting = some (environmentId, builds)) :
    point.deleting = some (environmentId, builds) ∧ point.rowless = none := by
  cases h with
  | close => exact ⟨hdeleting, rfl⟩
  | _ => cases hdeleting

/-- A deletion takes one more lock. -/
theorem deleting_of_lockTo {point next : PromotionPoint} {key : LockKey} {environmentId : ℕ}
    {builds : List ℕ} (h : LockTo point key next)
    (hdeleting : next.deleting = some (environmentId, builds)) :
    ∃ buildId, key = .promotion buildId environmentId ∧
      point.deleting = some (environmentId, buildId :: builds) := by
  cases h with
  | @delete d promotionId buildId rest =>
    cases hdeleting
    exact ⟨buildId, rfl, rfl⟩
  | _ => cases hdeleting

/-! ## The rows that a call counts on -/

namespace PromotionPoint.Rows

theorem of_starts {point : PromotionPoint} (h : point.Starts) : point.Rows s guards := by
  cases h <;> exact ⟨nofun, nofun⟩

/-- The rows of promotions decide. -/
theorem congr {point : PromotionPoint} (h : point.Rows s guards)
    (hpromotions : s'.promotions = s.promotions) : point.Rows s' guards := by
  refine ⟨fun id hrunning => ?_, fun environmentId builds hdeleting row hrow => ?_⟩
  · rw [hpromotions]
    exact h.running id hrunning
  · rw [hpromotions] at hrow
    exact h.deleting environmentId builds hdeleting row hrow

/-- The open promotions that a deletion looks for are all there are. -/
theorem of_readTo {point next : PromotionPoint} (h : point.Rows s guards)
    (hread : ReadTo s point next) : next.Rows s guards := by
  refine ⟨fun id hrunning => ?_, fun environmentId builds hdeleting row hrow henvironment hopen =>
    ?_⟩
  · obtain ⟨row, hrow, htarget⟩ := h.running id (running_of_readTo hread hrunning)
    exact ⟨row, hrow, fun environmentId hnext =>
      htarget environmentId (target_of_readTo hread hrunning hnext)⟩
  · rcases deleting_of_readTo hread hdeleting with hold | ⟨-, hbuilds⟩
    · exact h.deleting environmentId builds hold row hrow henvironment hopen
    · left
      rw [← hbuilds]
      refine List.mem_map.mpr ⟨(row.id, row.buildId), List.mem_map.mpr ⟨row, ?_, rfl⟩, rfl⟩
      refine List.mem_filter.mpr ⟨hrow, ?_⟩
      rcases hopen with hst | hst <;> simp [henvironment, hst]

theorem of_lockTo {point next : PromotionPoint} {key : LockKey} (h : point.Rows s guards)
    (hlock : LockTo point key next) (held : List LockKey) :
    next.Rows { s with held } (key :: guards) := by
  refine ⟨fun id hrunning => ?_, fun environmentId builds hdeleting row hrow henvironment hopen =>
    ?_⟩
  · obtain ⟨row, hrow, htarget⟩ := h.running id (running_of_lockTo hlock hrunning)
    refine ⟨row, hrow, fun environmentId hnext => htarget environmentId ?_⟩
    cases hlock with
    | slot => exact hnext
    | _ => cases hrunning
  · obtain ⟨buildId, rfl, hold⟩ := deleting_of_lockTo hlock hdeleting
    rcases h.deleting environmentId _ hold row hrow henvironment hopen with hin | hin
    · rcases List.mem_cons.mp hin with hbuild | hin
      · refine .inr (List.mem_cons.mpr (.inl ?_))
        unfold EnvironmentPromotion.lockKey
        rw [hbuild, henvironment]
      · exact .inl hin
    · exact .inr (List.mem_cons_of_mem _ hin)

/-- A deletion knows the open promotions after the write of another call too, unless that call wrote
the row of a new one. -/
theorem deleting_of_writeTo {point other : PromotionPoint} {next : Option PromotionPoint}
    (h : point.Rows s guards) (hwrite : WriteTo s other s' next)
    (hapart : point.DeletesApart other) (environmentId : ℕ) (builds : List ℕ)
    (hdeleting : point.deleting = some (environmentId, builds)) (row' : EnvironmentPromotion)
    (hrow' : row' ∈ s'.promotions.rows) (henvironment : row'.environmentId = environmentId)
    (hopen : row'.Open) : row'.buildId ∈ builds ∨ row'.lockKey ∈ guards := by
  rcases open_of_writeTo hwrite hrow' hopen with ⟨row, hrow, hrowOpen, hsame, hbuild⟩ | hrowless
  · have hin := h.deleting environmentId builds hdeleting row hrow (hsame.trans henvironment) hrowOpen
    unfold EnvironmentPromotion.lockKey at hin ⊢
    rwa [← hbuild, ← hsame]
  · rw [henvironment] at hrowless
    exact .inl (hapart environmentId builds _ hdeleting hrowless)

/-- A write of the call itself. -/
theorem of_writeTo {point next : PromotionPoint} (h : point.Rows s guards)
    (hpoint : PointOk s guards point) (hwrite : WriteTo s point s' (some next)) :
    next.Rows s' guards := by
  refine ⟨fun id hrunning => ?_, fun environmentId builds hdeleting => ?_⟩
  · have hkept : ∀ {row}, id < s.nextId → s.promotions.find id = some row →
        ∃ row', s'.promotions.find id = some row' ∧ row'.environmentId = row.environmentId := by
      intro row hid hrow
      refine find_of_writeTo hwrite hid hrow fun d hremove => ?_
      subst hremove
      cases hwrite
    have hsame : point.running = some id → point.target = next.target →
        ∃ row, s'.promotions.find id = some row ∧
          ∀ environmentId, next.target = some environmentId →
            row.environmentId = environmentId := by
      intro hpointRunning htarget
      obtain ⟨row, hrow, hinto⟩ := h.running id hpointRunning
      obtain ⟨row', hrow', heq⟩ := hkept (promoting_of_running hpoint hpointRunning).1 hrow
      refine ⟨row', hrow', fun environmentId hnext => ?_⟩
      rw [heq]
      exact hinto environmentId (htarget.trans hnext)
    cases hwrite with
    | @decide d promotion row environment hrow hpending =>
      by_cases happrove : d.approve = true
      · obtain rfl : d.promotionId = id := by
          simpa [PromotionPoint.running, happrove] using hrunning
        obtain ⟨hknown, hid, -⟩ := hpoint
        obtain ⟨row', hrow', heq⟩ := hkept hknown.id hrow
        refine ⟨row', hrow', fun environmentId hnext => ?_⟩
        have hkey := hknown.row row hrow
        unfold EnvironmentPromotion.lockKey at hkey
        injection hkey with _ hkey
        rw [heq, hkey, ← hid]
        exact Option.some.inj hnext
      · simp [PromotionPoint.running, happrove] at hrunning
    | @stale purpose => cases purpose <;> exact hsame hrunning rfl
    | @insertPromoting r environment source _ hadded hrequired =>
      obtain rfl : s.nextId = id := Option.some.inj hrunning
      refine ⟨newPromotion s r environment source, ?_, fun environmentId hnext =>
        Option.some.inj hnext⟩
      rw [(addPromotion_eq_some hadded).2.1, if_pos rfl]
    | @refused x message =>
      obtain ⟨row, hrow, -⟩ := h.running id hrunning
      exact ⟨row, hrow, fun _ h => by cases h⟩
    | accepted => exact hsame hrunning rfl
    | close => cases hrunning
  · obtain ⟨hold, hrowless⟩ := OoreBuild.deleting_of_writeTo hwrite hdeleting
    refine deleting_of_writeTo h hwrite (fun _ _ _ _ hsome => ?_) environmentId builds hold
    rw [hrowless] at hsome
    cases hsome

end PromotionPoint.Rows

/-! ## Deletions apart from requests -/

/-- When a deletion looks for open promotions, no request into the environment is past its re-check
without its row; and no request passes its re-check while a deletion of the environment has looked
and does not take the lock of the build. -/
def deletionsApart : Condition Board PromotionCall PromotionInput PromotionAnswer where
  enter _ _ := True
  enterBeside _ _ _ := True
  advance _ _ _ := True
  advanceBeside _ t _ u :=
    (∀ d, t.point = .open_ d → ∀ buildId, u.point.rowless ≠ some (d.environmentId, buildId)) ∧
      ∀ r loaded, t.point = .check (.request r) loaded (.stale []) → ∀ builds,
        u.point.deleting = some (loaded.id, builds) → r.buildId ∈ builds

/-- What the store accepted is recorded, or the promotion has the failure. -/
def OutcomesKept (s : Board) : Prop :=
  ∀ outcome ∈ s.history.outcomes, outcome.recorded = true ∨ outcome.failureKept = true

structure PromotionCall.RowsOk (s : Board) (call : PromotionCall) : Prop where
  ok : call.Ok s
  rows : call.point.Rows s call.guards

structure PromotionCall.RowsApart (t u : PromotionCall) : Prop where
  apart : t.Apart u
  left : t.point.DeletesApart u.point
  right : u.point.DeletesApart t.point

/-- A request past its re-check has the lock of its build. -/
theorem locked_of_rowless {point : PromotionPoint} {environmentId buildId : ℕ}
    (hpoint : PointOk s guards point) (h : point.rowless = some (environmentId, buildId)) :
    LockKey.promotion buildId environmentId ∈ guards := by
  cases point with
  | source purpose environment =>
    cases purpose with
    | request r =>
      cases h
      exact hpoint.1
    | decide d promotion => cases h
  | insert r environment source =>
    cases h
    exact hpoint.1
  | _ => cases h

theorem outcomes_of_writeTo {point : PromotionPoint} {next : Option PromotionPoint}
    (houtcomes : OutcomesKept s) (hrows : point.Rows s guards) (h : WriteTo s point s' next) :
    OutcomesKept s' := by
  cases h with
  | decide hrow hpending =>
    unfold Board.decide
    dsimp only
    split <;> exact houtcomes
  | stale => exact houtcomes
  | insertPending hadded hrequired =>
    rw [(addPromotion_eq_some hadded).2.2, hrequired]
    exact houtcomes
  | insertPromoting hadded hrequired =>
    rw [(addPromotion_eq_some hadded).2.2, hrequired]
    exact houtcomes
  | refused => exact houtcomes
  | accepted => exact houtcomes
  | record hrecorded =>
    obtain ⟨inserted, hinserted, rfl⟩ := Option.map_eq_some_iff.mp hrecorded
    intro outcome houtcome
    rcases List.mem_append.mp houtcome with hold | hnew
    · refine houtcomes outcome ?_
      rw [(insertRelease_eq_some hinserted).2.2.2] at hold
      exact hold
    · rw [List.mem_singleton.mp hnew]
      exact .inl rfl
  | fail => exact houtcomes
  | @unrecorded x message =>
    intro outcome houtcome
    rcases List.mem_append.mp houtcome with hold | hnew
    · exact houtcomes outcome hold
    · rw [List.mem_singleton.mp hnew]
      obtain ⟨row, hrow, -⟩ := hrows.running x.promotionId rfl
      right
      unfold Board.markFailed
      rw [find_updatePromotions, hrow, Option.map_some, if_pos (by
        simpa using Table.key_of_find hrow)]
      rfl
  | commit hupdated =>
    rw [commitUpdate_eq_ok hupdated]
    exact houtcomes
  | @close d promotionId state rest => cases state <;> exact houtcomes
  | remove => exact houtcomes

/-- The row of a promotion that a call carries through survives the writes of the others. -/
theorem rows_beside {t u : PromotionCall} {next : Option PromotionPoint} (ht : t.RowsOk s)
    (hu : u.RowsOk s) (hapart : t.RowsApart u) (hwrite : WriteTo s t.point s' next) :
    u.point.Rows s' u.guards := by
  refine ⟨fun id hrunning => ?_, fun environmentId builds hdeleting row hrow henvironment hopen =>
    hu.rows.deleting_of_writeTo hwrite hapart.right environmentId builds hdeleting row hrow
      henvironment hopen⟩
  have hpromoting := promoting_of_running hu.ok.point hrunning
  obtain ⟨row, hrow, htarget⟩ := hu.rows.running id hrunning
  obtain ⟨row', hrow', heq⟩ := find_of_writeTo hwrite hpromoting.1 hrow fun d hremove hinto => by
    have hdeleting : t.point.deleting = some (d.environmentId, []) := by rw [hremove]; rfl
    rcases ht.rows.deleting d.environmentId [] hdeleting row (Table.mem_of_find hrow) hinto
      (.inr (hpromoting.2 row hrow).1) with hin | hin
    · cases hin
    · exact hapart.apart.guards _ hin (hpromoting.2 row hrow).2
  refine ⟨row', hrow', fun environmentId hsome => ?_⟩
  rw [heq]
  exact htarget environmentId hsome

/-- A step of one call keeps deletions and requests apart. -/
theorem deletesApart_of_step {t v u : PromotionCall} {answer : PromotionAnswer} (hu : u.RowsOk s)
    (hapart : t.RowsApart u) (hcond : deletionsApart.advanceBeside s t answer u)
    (h : PromotionStep s t s' (some v)) :
    u.point.DeletesApart v.point ∧ v.point.DeletesApart u.point := by
  cases h with
  | read hread =>
    constructor
    · intro environmentId builds buildId hdeleting hrowless
      rcases rowless_of_readTo hread hrowless with hold | ⟨r, loaded, hcheck, rfl, rfl⟩
      · exact hapart.right environmentId builds buildId hdeleting hold
      · exact hcond.2 r loaded hcheck builds hdeleting
    · intro environmentId builds buildId hdeleting hrowless
      rcases deleting_of_readTo hread hdeleting with hold | ⟨⟨d, hlooks, rfl⟩, -⟩
      · exact hapart.left environmentId builds buildId hold hrowless
      · exact absurd hrowless (hcond.1 d hlooks buildId)
  | lock hlock hfree =>
    constructor
    · intro environmentId builds buildId _ hrowless
      rw [rowless_of_lockTo hlock] at hrowless
      cases hrowless
    · intro environmentId builds buildId hdeleting hrowless
      obtain ⟨locked, rfl, hold⟩ := deleting_of_lockTo hlock hdeleting
      have hheld := hu.ok.held _ (locked_of_rowless hu.ok.point hrowless)
      rcases List.mem_cons.mp (hapart.left environmentId _ buildId hold hrowless) with rfl | hin
      · exact absurd hheld hfree
      · exact hin
  | write hwrite =>
    constructor
    · intro environmentId builds buildId _ hrowless
      rw [rowless_of_writeTo hwrite] at hrowless
      cases hrowless
    · intro environmentId builds buildId hdeleting hrowless
      exact hapart.left environmentId builds buildId (deleting_of_writeTo hwrite hdeleting).1 hrowless

theorem rows_of_step {call : PromotionCall} {next : Option PromotionCall} (hcall : call.RowsOk s)
    (houtcomes : OutcomesKept s) (h : PromotionStep s call s' next) :
    OutcomesKept s' ∧ ∀ v ∈ next, v.point.Rows s' v.guards := by
  cases h with
  | stop => exact ⟨houtcomes, by simp⟩
  | read hread =>
    refine ⟨houtcomes, fun v hv => ?_⟩
    cases hv
    exact hcall.rows.of_readTo hread
  | lock hlock hfree =>
    refine ⟨houtcomes, fun v hv => ?_⟩
    cases hv
    exact hcall.rows.of_lockTo hlock _
  | write hwrite =>
    refine ⟨outcomes_of_writeTo houtcomes hcall.rows hwrite, fun v hv => ?_⟩
    cases hv
    exact hcall.rows.of_writeTo hcall.ok.point hwrite
  | @finish written hwrite =>
    have hwritten : OutcomesKept written := outcomes_of_writeTo houtcomes hcall.rows hwrite
    exact ⟨hwritten, by simp⟩

theorem rows_beside_step {t u : PromotionCall} {next : Option PromotionCall} (ht : t.RowsOk s)
    (hu : u.RowsOk s) (hapart : t.RowsApart u) (h : PromotionStep s t s' next) :
    u.point.Rows s' u.guards := by
  cases h with
  | stop => exact hu.rows.congr rfl
  | read => exact hu.rows
  | lock => exact hu.rows.congr rfl
  | write hwrite => exact rows_beside ht hu hapart hwrite
  | finish hwrite => exact (rows_beside ht hu hapart hwrite).congr rfl

theorem deletions_stable :
    Stable promotions deletionsApart (fun s => BoardOk s ∧ OutcomesKept s)
      (fun s call => call.RowsOk s) PromotionCall.RowsApart where
  symm t u h := ⟨h.apart.symm, h.right, h.left⟩
  enter s x s' calls hok _ h := by
    obtain ⟨hok', hcalls, hpairs⟩ := promotions_stable.enter s x s' calls hok.1 trivial h
    obtain ⟨-, -, hhistory, hstarts⟩ := enterPromotions_eq_some h
    refine ⟨⟨hok', ?_⟩, fun t ht => ⟨hcalls t ht, ?_⟩, ?_⟩
    · unfold OutcomesKept
      rw [hhistory]
      exact hok.2
    · rcases hstarts with rfl | ⟨point, rfl, hpoint⟩
      · cases ht
      · rw [List.mem_singleton.mp ht]
        exact .of_starts hpoint
    · rcases hstarts with rfl | ⟨point, rfl, hpoint⟩
      · exact List.Pairwise.nil
      · exact List.pairwise_singleton _ _
  enterBeside s x s' calls u hok _ h hu _ := by
    obtain ⟨hu', hapart⟩ := promotions_stable.enterBeside s x s' calls u hok.1 trivial h hu.ok trivial
    obtain ⟨-, hpromotions, -, hstarts⟩ := enterPromotions_eq_some h
    refine ⟨⟨hu', hu.rows.congr hpromotions⟩, fun t ht => ⟨hapart t ht, ?_, ?_⟩⟩
    all_goals
      rcases hstarts with rfl | ⟨point, rfl, hpoint⟩
      · cases ht
      · rw [List.mem_singleton.mp ht]
        cases hpoint <;> exact nofun
  advance s t e s' t' hok ht _ h := by
    have hstep := step_of_advancePromotion h
    obtain ⟨hok', hnext⟩ := promotions_stable.advance s t e s' t' hok.1 ht.ok trivial h
    obtain ⟨houtcomes, hrows⟩ := rows_of_step ht hok.2 hstep
    exact ⟨⟨hok', houtcomes⟩, fun v hv => ⟨hnext v hv, hrows v hv⟩⟩
  advanceBeside s t e s' t' u hok ht _ h hu hapart hcond := by
    have hstep := step_of_advancePromotion h
    obtain ⟨hu', hnext⟩ := promotions_stable.advanceBeside s t e s' t' u hok.1 ht.ok trivial h hu.ok
      hapart.apart trivial
    refine ⟨⟨hu', rows_beside_step ht hu hapart hstep⟩, fun v hv => ?_⟩
    obtain rfl : t' = some v := hv
    obtain ⟨hleft, hright⟩ := deletesApart_of_step hu hapart hcond hstep
    exact ⟨hnext v rfl, hleft, hright⟩
  drop s t hok ht := ⟨promotions_stable.drop s t hok.1 ht.ok, hok.2⟩
  dropBeside s t u hok ht hu hapart :=
    ⟨promotions_stable.dropBeside s t u hok.1 ht.ok hu.ok hapart.apart, hu.rows.congr rfl⟩
  restart s hok := ⟨promotions_stable.restart s hok.1, hok.2⟩

/-- No deletion is about to delete an environment that a promotion past its re-check goes into, and
what the store accepted is recorded or the promotion has the failure. -/
structure DeletionsSafe (c : Config Board PromotionCall) : Prop where
  apart : ∀ t ∈ c.calls, ∀ u ∈ c.calls, ∀ d, t.point = .remove d →
    u.point.checkedInto c.shared ≠ some d.environmentId
  outcomes : ∀ outcome ∈ c.shared.history.outcomes,
    outcome.recorded = true ∨ outcome.failureKept = true

/-- A promotion past its re-check is under way, with its row, or has no row yet. -/
theorem running_of_checkedInto {call : PromotionCall} {environmentId : ℕ} (hcall : call.RowsOk s)
    (h : call.point.checkedInto s = some environmentId) :
    (∃ id row, call.point.running = some id ∧ s.promotions.find id = some row ∧
      row.environmentId = environmentId) ∨
      ∃ buildId, call.point.rowless = some (environmentId, buildId) := by
  have hrows : ∀ id, call.point.running = some id → call.point.target = some environmentId →
      ∃ id row, call.point.running = some id ∧ s.promotions.find id = some row ∧
        row.environmentId = environmentId := by
    intro id hrunning htarget
    obtain ⟨row, hrow, hinto⟩ := hcall.rows.running id hrunning
    exact ⟨id, row, hrunning, hrow, hinto environmentId htarget⟩
  obtain ⟨guards, point⟩ := call
  cases point with
  | source purpose environment =>
    cases purpose with
    | request r =>
      cases h
      exact .inr ⟨r.buildId, rfl⟩
    | decide d promotion => exact .inl (hrows _ rfl h)
  | insert r environment source =>
    cases h
    exact .inr ⟨r.buildId, rfl⟩
  | slot x => exact .inl (hrows _ rfl h)
  | promote x => exact .inl (hrows _ rfl h)
  | record x promoted => exact .inl (hrows _ rfl h)
  | unrecorded x => exact .inl (hrows _ rfl h)
  | refuse promotionId message =>
    obtain ⟨row, hrow, rfl⟩ := Option.map_eq_some_iff.mp h
    exact .inl ⟨promotionId, row, rfl, hrow, rfl⟩
  | _ => cases h

theorem deletionsSafe_of_holds {c : Config Board PromotionCall}
    (h : Holds (fun s => BoardOk s ∧ OutcomesKept s) (fun s call => call.RowsOk s)
      PromotionCall.RowsApart c) : DeletionsSafe c := by
  refine ⟨fun t ht u hu d hremove hinto => ?_, h.shared.2⟩
  have hdeleting : t.point.deleting = some (d.environmentId, []) := by
    rw [hremove]
    rfl
  have hne : t ≠ u := by
    rintro rfl
    rw [hremove] at hinto
    cases hinto
  have hapart : t.RowsApart u := h.apart_of_ne deletions_stable.symm ht hu hne
  have hcall := h.calls u hu
  rcases running_of_checkedInto hcall hinto with ⟨id, row, hrunning, hrow, henvironment⟩ |
    ⟨buildId, hrowless⟩
  · have hpromoting := (promoting_of_running hcall.ok.point hrunning).2 row hrow
    rcases (h.calls t ht).rows.deleting d.environmentId [] hdeleting row (Table.mem_of_find hrow)
      henvironment (.inr hpromoting.1) with hin | hin
    · cases hin
    · exact hapart.apart.guards _ hin hpromoting.2
  · cases hapart.left d.environmentId [] buildId hdeleting hrowless

/-- In every run in which deletions look for open promotions apart from requests, no environment
is deleted under a promotion, and what the store accepted is kept. -/
theorem deletions_apart {s : Board} (hfresh : s.Fresh)
    {es : List (Event PromotionInput PromotionAnswer)} {c : Config Board PromotionCall}
    (hmeets : promotions.Meets deletionsApart ⟨s, []⟩ es)
    (hrun : promotions.run ⟨s, []⟩ es = some c) : DeletionsSafe c := by
  have hnone : OutcomesKept s := by
    unfold OutcomesKept
    rw [hfresh.history]
    simp
  exact deletionsSafe_of_holds
    (deletions_stable.run (Holds.start ⟨boardOk_of_fresh hfresh, hnone⟩) hmeets hrun)

/-! ## A promotion beside a deletion -/

/-- Whether a step keeps deletions and requests apart. -/
def keepsApart (c : Config Board PromotionCall) : Event PromotionInput PromotionAnswer → Bool
  | .advance i _ => c.calls[i]?.all fun t => (c.calls.eraseIdx i).all fun u =>
    match t.point with
    | .open_ d => u.point.rowless.all fun request => request.1 ≠ d.environmentId
    | .check (.request r) loaded (.stale []) =>
      u.point.deleting.all fun deletion => deletion.1 ≠ loaded.id || deletion.2.contains r.buildId
    | _ => true
  | _ => true

theorem met_of_keepsApart {c : Config Board PromotionCall}
    {e : Event PromotionInput PromotionAnswer} (h : keepsApart c e = true) :
    deletionsApart.Met c e := by
  cases e with
  | enter x => exact ⟨trivial, fun _ _ => trivial⟩
  | advance i answer =>
    intro t ht
    refine ⟨trivial, fun u hu => ?_⟩
    dsimp only [keepsApart] at h
    rw [ht, Option.all_some, List.all_eq_true] at h
    have hpair := h u hu
    constructor
    · intro d hlooks buildId hrowless
      rw [hlooks] at hpair
      simp [hrowless] at hpair
    · intro r loaded hcheck builds hdeleting
      rw [hcheck] at hpair
      simpa [hdeleting] using hpair
  | drop i => trivial
  | restart => trivial

/-- Build 1 was uploaded to `internal`, and its promotion into `production` is requested. -/
def requestedPromotion : List (Event PromotionInput PromotionAnswer) :=
  [.enter (.create "p" maintainerActor (trackEnvironment "production" false)),
    .enter (.upload (uploadTo 1 "internal") 5),
    .enter (.request ⟨"p", 1, 1, maintainerActor, none⟩)]

/-- A deletion during the store call gives up; one afterwards deletes the environment. -/
def deletedAfter : List (Event PromotionInput PromotionAnswer) :=
  requestedPromotion ++ statements 0 11 ++
    [.enter (.delete ⟨"p", 1, maintainerActor⟩)] ++ statements 1 3 ++ statements 0 2 ++
    [.enter (.delete ⟨"p", 1, maintainerActor⟩)] ++ statements 0 4

theorem deletions_apart_deleted :
    ∃ c, promotions.run ⟨freshBoard, []⟩ deletedAfter = some c ∧
      c.shared.environments.rows = [] ∧ c.shared.history.outcomes = [⟨3, true, false⟩] ∧
      DeletionsSafe c := by
  have houtcomes : ((promotions.run ⟨freshBoard, []⟩ deletedAfter).map fun c =>
      (c.shared.environments.rows, c.shared.history.outcomes)) = some ([], [⟨3, true, false⟩]) := by
    decide +kernel
  obtain ⟨c, hc, heq⟩ := Option.map_eq_some_iff.mp houtcomes
  have hchecks : promotions.checks keepsApart ⟨freshBoard, []⟩ deletedAfter = true := by
    decide +kernel
  exact ⟨c, hc, (Prod.mk.inj heq).1, (Prod.mk.inj heq).2,
    deletions_apart ⟨rfl, rfl, rfl, rfl, rfl, rfl⟩
      (meets_of_checks promotions (fun _ _ => met_of_keepsApart) hchecks) hc⟩

/-- The deletion finds no open promotion; the request passes its re-check and calls the store
before the row of the environment goes. -/
def deletedDuring : List (Event PromotionInput PromotionAnswer) :=
  [.enter (.create "p" maintainerActor (trackEnvironment "production" false)),
    .enter (.upload (uploadTo 1 "internal") 5),
    .enter (.delete ⟨"p", 1, maintainerActor⟩)] ++ statements 0 3 ++
    [.enter (.request ⟨"p", 1, 1, maintainerActor, none⟩)] ++ statements 1 12 ++ statements 0 3

/-- The store accepted the promotion, and neither a release nor a row of it is left. -/
theorem deletion_loses_promotion :
    ¬∀ s : Board, s.Fresh → ∀ (es : List (Event PromotionInput PromotionAnswer))
      (c : Config Board PromotionCall), promotions.run ⟨s, []⟩ es = some c → DeletionsSafe c := by
  intro h
  have houtcomes : ((promotions.run ⟨freshBoard, []⟩ deletedDuring).map fun c =>
      c.shared.history.outcomes) = some [⟨3, false, false⟩] := by decide +kernel
  obtain ⟨c, hc, heq⟩ := Option.map_eq_some_iff.mp houtcomes
  have hsafe := (h freshBoard ⟨rfl, rfl, rfl, rfl, rfl, rfl⟩ deletedDuring c hc).outcomes
  rw [heq] at hsafe
  simpa using hsafe _ List.mem_cons_self

end OoreBuild
