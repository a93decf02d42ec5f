import OoreBuild.Promotions

/-!
# What one statement of a promotion call does

A statement reads and goes on (`ReadTo`), takes a lock (`LockTo`) or writes (`WriteTo`).
`step_of_advancePromotion` says that there is nothing else, so an invariant is checked against the
cases of these.
-/

namespace OoreBuild

open Text Interleave

/-- The lock of a promotion. -/
def EnvironmentPromotion.lockKey (row : EnvironmentPromotion) : LockKey :=
  .promotion row.buildId row.environmentId

/-! ## Statements -/

/-- Statements that only read, with what they read. -/
inductive ReadTo (s : Board) : PromotionPoint → PromotionPoint → Prop where
  | promotion {d : PromotionDecision} {promotion : EnvironmentPromotion}
      (h : s.promotions.find d.promotionId = some promotion) :
      ReadTo s (.promotion d) (.environment (.promote (.decide d promotion)))
  | environment {loader : Loader} {environment : ProjectEnvironment}
      (h : s.environments.find loader.environmentId = some environment) :
      ReadTo s (.environment loader) (.approvers loader environment)
  | build {r : PromotionRequest} {environment : ProjectEnvironment} :
      ReadTo s (.approvers (.promote (.request r)) environment)
        (.build r (fillApprovers s environment))
  | lockDecide {d : PromotionDecision} {promotion : EnvironmentPromotion}
      {environment : ProjectEnvironment} (h : (approvalBasis d.actor.role d.actor.userId
        (fillApprovers s environment).approvers).isSome = true) :
      ReadTo s (.approvers (.promote (.decide d promotion)) environment)
        (.lock (.decide d promotion) (fillApprovers s environment))
  | releases {u : EnvironmentUpdate} {environment : ProjectEnvironment} {name track : Text}
      (h : updatedTarget (fillApprovers s environment) u.request = .ok (name, track)) :
      ReadTo s (.approvers (.update u) environment)
        (.releases u (fillApprovers s environment) name track)
  | commit {u : EnvironmentUpdate} {environment : ProjectEnvironment} {name track : Text}
      (h : updatedTarget (fillApprovers s environment) u.request = .ok (name, track)) :
      ReadTo s (.approvers (.update u) environment)
        (.commit u (fillApprovers s environment) name track)
  | lockRequest {r : PromotionRequest} {environment : ProjectEnvironment} :
      ReadTo s (.build r environment) (.lock (.request r) environment)
  | requester {d : PromotionDecision} {promotion : EnvironmentPromotion}
      {environment : ProjectEnvironment} (h : d.approve = true) :
      ReadTo s (.requester d promotion environment)
        (.check (.decide d promotion) environment .environment)
  | checkEnvironment {purpose : Purpose} {environment : ProjectEnvironment}
      (h : (s.environments.find environment.id).isSome = true) :
      ReadTo s (.check purpose environment .environment) (.check purpose environment .releases)
  | checkReleases {purpose : Purpose} {environment : ProjectEnvironment}
      (h : hasRelease s purpose.buildId environment.id = false) :
      ReadTo s (.check purpose environment .releases) (.check purpose environment .promotions)
  | checkPromotions {purpose : Purpose} {environment : ProjectEnvironment} :
      ReadTo s (.check purpose environment .promotions) (.check purpose environment
        (.stale (openPromotions s purpose.buildId environment.id)))
  | skip {purpose : Purpose} {environment : ProjectEnvironment} {first : ℕ × PromotionState}
      {rest : List (ℕ × PromotionState)} :
      ReadTo s (.check purpose environment (.stale (first :: rest)))
        (.check purpose environment (.stale rest))
  | checked {purpose : Purpose} {environment : ProjectEnvironment} :
      ReadTo s (.check purpose environment (.stale [])) (.source purpose environment)
  | refuseChecked {d : PromotionDecision} {promotion : EnvironmentPromotion}
      {environment : ProjectEnvironment} {at_ : CheckPoint} {message : Text} :
      ReadTo s (.check (.decide d promotion) environment at_) (.refuse d.promotionId message)
  | refuseSource {d : PromotionDecision} {promotion : EnvironmentPromotion}
      {environment : ProjectEnvironment} {message : Text} :
      ReadTo s (.source (.decide d promotion) environment) (.refuse d.promotionId message)
  | insert {r : PromotionRequest} {environment : ProjectEnvironment} {source : ProjectRelease}
      (h : findSourceRelease s r.buildId environment = some source) :
      ReadTo s (.source (.request r) environment) (.insert r environment source)
  | slot {d : PromotionDecision} {promotion : EnvironmentPromotion}
      {environment : ProjectEnvironment} {source : ProjectRelease}
      (h : s.releases.find promotion.sourceReleaseId = some source) :
      ReadTo s (.source (.decide d promotion) environment)
        (.slot ⟨d.promotionId, environment, source⟩)
  | promote {x : Execution} : ReadTo s (.slot x) (.promote x)
  | unrecorded {x : Execution} {promoted : Promoted} : ReadTo s (.record x promoted) (.unrecorded x)
  | noReleases {u : EnvironmentUpdate} {environment : ProjectEnvironment} {name track : Text} :
      ReadTo s (.releases u environment name track) (.commit u environment name track)
  | delete {d : EnvironmentDeletion} : ReadTo s (.delete d) (.open_ d)
  | open_ {d : EnvironmentDeletion} :
      ReadTo s (.open_ d) (.tryLock d (openInto s d.environmentId))
  | locked {d : EnvironmentDeletion} : ReadTo s (.tryLock d []) (.remove d)
  | state {d : EnvironmentDeletion} {promotionId : ℕ} {row : EnvironmentPromotion}
      {rest : List (ℕ × ℕ)} (h : s.promotions.find promotionId = some row)
      (hopen : row.state = .pending ∨ row.state = .promoting) :
      ReadTo s (.state d promotionId rest) (.close d promotionId row.state rest)
  | closed {d : EnvironmentDeletion} {promotionId : ℕ} {rest : List (ℕ × ℕ)} :
      ReadTo s (.state d promotionId rest) (.tryLock d rest)

/-- Statements that take a lock. -/
inductive LockTo : PromotionPoint → LockKey → PromotionPoint → Prop where
  | request {r : PromotionRequest} {environment : ProjectEnvironment} :
      LockTo (.lock (.request r) environment) (.promotion r.buildId environment.id)
        (.check (.request r) environment .environment)
  | decide {d : PromotionDecision} {promotion : EnvironmentPromotion}
      {environment : ProjectEnvironment} :
      LockTo (.lock (.decide d promotion) environment)
        (.promotion promotion.buildId environment.id) (.decision d promotion environment)
  | slot {x : Execution} {key : LockKey} : LockTo (.slot x) key (.promote x)
  | delete {d : EnvironmentDeletion} {promotionId buildId : ℕ} {rest : List (ℕ × ℕ)} :
      LockTo (.tryLock d ((promotionId, buildId) :: rest)) (.promotion buildId d.environmentId)
        (.state d promotionId rest)

/-- Statements that write, and what follows them. -/
inductive WriteTo (s : Board) : PromotionPoint → Board → Option PromotionPoint → Prop where
  | decide {d : PromotionDecision} {promotion row : EnvironmentPromotion}
      {environment : ProjectEnvironment} (h : s.promotions.find d.promotionId = some row)
      (hpending : row.state = .pending) :
      WriteTo s (.decision d promotion environment) (s.decide d environment.id)
        (some (.requester d promotion environment))
  | stale {purpose : Purpose} {environment : ProjectEnvironment} {id : ℕ}
      {state : PromotionState} {rest : List (ℕ × PromotionState)} (hstate : state ≠ .pending)
      (hskip : some id ≠ purpose.skipPromotion) :
      WriteTo s (.check purpose environment (.stale ((id, state) :: rest)))
        (s.markFailed id stalePromoting) (some (.check purpose environment (.stale rest)))
  | insertPending {r : PromotionRequest} {environment : ProjectEnvironment}
      {source : ProjectRelease} {added : Board}
      (h : s.addPromotion r environment source = some added)
      (hrequired : environment.approvalRequired = true) :
      WriteTo s (.insert r environment source) added none
  | insertPromoting {r : PromotionRequest} {environment : ProjectEnvironment}
      {source : ProjectRelease} {added : Board}
      (h : s.addPromotion r environment source = some added)
      (hrequired : environment.approvalRequired = false) :
      WriteTo s (.insert r environment source) added (some (.slot ⟨s.nextId, environment, source⟩))
  | refused {x : Execution} {message : Text} :
      WriteTo s (.promote x) (s.callStore x.promotionId) (some (.refuse x.promotionId message))
  | accepted {x : Execution} {promoted : Promoted} :
      WriteTo s (.promote x) (s.callStore x.promotionId) (some (.record x promoted))
  | record {x : Execution} {promoted : Promoted} {now : ℤ} {recorded : Board}
      (h : s.recordPromotion x promoted now = some recorded) :
      WriteTo s (.record x promoted) recorded none
  | fail {promotionId : ℕ} {message : Text} :
      WriteTo s (.refuse promotionId message) (s.markFailed promotionId message) none
  | unrecorded {x : Execution} {message : Text} :
      WriteTo s (.unrecorded x)
        ((s.markFailed x.promotionId message).outcome x.promotionId false) none
  | commit {u : EnvironmentUpdate} {environment : ProjectEnvironment} {name track : Text}
      {updated : Board} (h : commitUpdate s environment name track u.request = .ok updated) :
      WriteTo s (.commit u environment name track) updated none
  | close {d : EnvironmentDeletion} {promotionId : ℕ} {state : PromotionState}
      {rest : List (ℕ × ℕ)} :
      WriteTo s (.close d promotionId state rest) (s.closePromotion d promotionId state)
        (some (.tryLock d rest))
  | remove {d : EnvironmentDeletion} :
      WriteTo s (.remove d) (s.removeEnvironment d.environmentId) none

/-- What one statement of a call comes to. -/
inductive PromotionStep (s : Board) (call : PromotionCall) :
    Board → Option PromotionCall → Prop where
  | stop : PromotionStep s call (s.unlock call.guards) none
  | read {point : PromotionPoint} (h : ReadTo s call.point point) :
      PromotionStep s call s (some ⟨call.guards, point⟩)
  | lock {key : LockKey} {point : PromotionPoint} (h : LockTo call.point key point)
      (hfree : key ∉ s.held) :
      PromotionStep s call { s with held := key :: s.held } (some ⟨key :: call.guards, point⟩)
  | write {written : Board} {point : PromotionPoint}
      (h : WriteTo s call.point written (some point)) :
      PromotionStep s call written (some ⟨call.guards, point⟩)
  | finish {written : Board} (h : WriteTo s call.point written none) :
      PromotionStep s call (written.unlock call.guards) none

theorem acquire_eq_some {s s' : Board} {key : LockKey} (h : s.acquire key = some s') :
    key ∉ s.held ∧ s' = { s with held := key :: s.held } := by
  unfold Board.acquire at h
  split at h
  · cases h
  · rename_i hfree
    exact ⟨hfree, (Option.some.inj h).symm⟩

/-- A statement as one of these, before the locks of a call that ends are given back. -/
inductive StatedAs (s : Board) (guards : List LockKey) (point : PromotionPoint) :
    Board → Option PromotionCall → Prop where
  | stop : StatedAs s guards point s none
  | read {point' : PromotionPoint} (h : ReadTo s point point') :
      StatedAs s guards point s (some ⟨guards, point'⟩)
  | lock {key : LockKey} {point' : PromotionPoint} (h : LockTo point key point')
      (hfree : key ∉ s.held) :
      StatedAs s guards point { s with held := key :: s.held } (some ⟨key :: guards, point'⟩)
  | write {written : Board} {point' : PromotionPoint} (h : WriteTo s point written (some point')) :
      StatedAs s guards point written (some ⟨guards, point'⟩)
  | finish {written : Board} (h : WriteTo s point written none) :
      StatedAs s guards point written none

theorem statedAs_approvers {s s' : Board} {guards : List LockKey}
    {environment : ProjectEnvironment} {loader : Loader} {next : Option PromotionCall}
    (h : approversLoaded s guards (fillApprovers s environment) loader = some (s', next)) :
    StatedAs s guards (.approvers loader environment) s' next := by
  cases loader with
  | promote purpose =>
    cases purpose with
    | request r =>
      simp only [approversLoaded] at h
      generalize (if (fillApprovers s environment).approvalRequired = true then
        ProjectPermission.operateRelease else .manageReleases) = permission at h
      split at h <;> cases h
      · exact .read .build
      · exact .stop
    | decide d promotion =>
      simp only [approversLoaded] at h
      split at h <;> cases h
      · exact .stop
      · rename_i basis hbasis
        exact .read (.lockDecide (by rw [hbasis]; rfl))
  | update u =>
    simp only [approversLoaded] at h
    split at h
    · cases h
      exact .stop
    · rename_i name track htarget
      split at h <;> cases h
      · exact .read (.releases htarget)
      · exact .read (.commit htarget)

/-- A check that fails. -/
theorem statedAs_checkFails {s s' : Board} {guards : List LockKey} {error : EnvironmentError}
    {purpose : Purpose} {point : PromotionPoint} {next : Option PromotionCall}
    (hrefuse : ∀ d promotion message, purpose = .decide d promotion →
      ReadTo s point (.refuse d.promotionId message))
    (h : checkFails s guards error purpose = some (s', next)) :
    StatedAs s guards point s' next := by
  cases purpose with
  | request r =>
    cases h
    exact .stop
  | decide d promotion =>
    cases h
    exact .read (hrefuse d promotion _ rfl)

theorem statedAs_check {s s' : Board} {guards : List LockKey} {purpose : Purpose}
    {environment : ProjectEnvironment} {answer : PromotionAnswer} {at_ : CheckPoint}
    {next : Option PromotionCall}
    (h : ensureNotPromoted s guards purpose environment answer at_ = some (s', next)) :
    StatedAs s guards (.check purpose environment at_) s' next := by
  have hrefuse : ∀ d promotion message, purpose = .decide d promotion →
      ReadTo s (.check purpose environment at_) (.refuse d.promotionId message) := by
    rintro d promotion message rfl
    exact .refuseChecked
  cases at_ with
  | environment =>
    simp only [ensureNotPromoted] at h
    split at h
    · exact statedAs_checkFails hrefuse h
    · split at h
      · exact statedAs_checkFails hrefuse h
      · rename_i hsome
        cases h
        exact .read (.checkEnvironment (by simpa [Option.isSome_iff_ne_none] using hsome))
  | releases =>
    simp only [ensureNotPromoted] at h
    split at h
    · exact statedAs_checkFails hrefuse h
    · split at h
      · exact statedAs_checkFails hrefuse h
      · rename_i hnone
        cases h
        exact .read (.checkReleases (by simpa using hnone))
  | promotions =>
    simp only [ensureNotPromoted] at h
    split at h
    · exact statedAs_checkFails hrefuse h
    · cases h
      exact .read .checkPromotions
  | stale rest =>
    cases rest with
    | nil =>
      cases h
      exact .read .checked
    | cons first rest =>
      obtain ⟨id, state⟩ := first
      simp only [ensureNotPromoted] at h
      split at h
      · cases h
        exact .read .skip
      · rename_i hskip
        split at h
        · exact statedAs_checkFails hrefuse h
        · rename_i hstate
          split at h
          · exact statedAs_checkFails hrefuse h
          · cases h
            exact .write (.stale hstate hskip)

theorem statedAs_source {s s' : Board} {guards : List LockKey} {environment : ProjectEnvironment}
    {answer : PromotionAnswer} {purpose : Purpose} {next : Option PromotionCall}
    (h : loadSource s guards environment answer purpose = some (s', next)) :
    StatedAs s guards (.source purpose environment) s' next := by
  cases purpose with
  | request r =>
    simp only [loadSource] at h
    split at h <;> cases h
    · exact .stop
    · rename_i source hsource
      exact .read (.insert hsource)
  | decide d promotion =>
    have hrefuse : ∀ d' promotion' message, Purpose.decide d promotion = .decide d' promotion' →
        ReadTo s (.source (.decide d promotion) environment) (.refuse d'.promotionId message) := by
      intro d' promotion' message heq
      cases heq
      exact .refuseSource
    simp only [loadSource] at h
    split at h
    · exact statedAs_checkFails hrefuse h
    · split at h
      · exact statedAs_checkFails hrefuse h
      · rename_i source hsource
        split at h
        · cases h
          exact .read (.slot hsource)
        · exact statedAs_checkFails hrefuse h

section Points

variable {s s' : Board} {guards : List LockKey} {answer : PromotionAnswer}
  {next : Option PromotionCall}

-- One set of equations for the lemmas on all points.
attribute [local simp] statement

theorem statedAs_promotion {d : PromotionDecision}
    (h : statement s guards answer (.promotion d) = some (s', next)) :
    StatedAs s guards (.promotion d) s' next := by
  simp only [statement] at h
  split at h
  · cases h
    exact .stop
  · split at h
    · cases h
      exact .stop
    · rename_i promotion hpromotion
      split at h <;> cases h
      · exact .read (.promotion hpromotion)
      · exact .stop

theorem statedAs_environment {loader : Loader}
    (h : statement s guards answer (.environment loader) = some (s', next)) :
    StatedAs s guards (.environment loader) s' next := by
  simp only [statement] at h
  split at h
  · cases h
    exact .stop
  · rename_i environment hrow
    cases h
    refine .read (.environment ?_)
    unfold environmentRow at hrow
    split at hrow
    · rename_i row hfind
      split at hrow <;> cases hrow
      exact hfind
    · cases hrow

theorem statedAs_build {r : PromotionRequest} {environment : ProjectEnvironment}
    (h : statement s guards answer (.build r environment) = some (s', next)) :
    StatedAs s guards (.build r environment) s' next := by
  simp only [statement] at h
  split at h
  · cases h
    exact .stop
  · split at h <;> cases h
    · exact .read .lockRequest
    · exact .stop

theorem statedAs_lock {purpose : Purpose} {environment : ProjectEnvironment}
    (h : statement s guards answer (.lock purpose environment) = some (s', next)) :
    StatedAs s guards (.lock purpose environment) s' next := by
  simp only [statement] at h
  obtain ⟨locked, hlocked, h⟩ := Option.bind_eq_some_iff.mp h
  obtain ⟨hfree, rfl⟩ := acquire_eq_some hlocked
  cases purpose with
  | request r =>
    cases h
    exact .lock .request hfree
  | decide d promotion =>
    cases h
    exact .lock .decide hfree

theorem statedAs_decision {d : PromotionDecision} {promotion : EnvironmentPromotion}
    {environment : ProjectEnvironment}
    (h : statement s guards answer (.decision d promotion environment) = some (s', next)) :
    StatedAs s guards (.decision d promotion environment) s' next := by
  simp only [statement] at h
  split at h
  · rename_i hany
    cases h
    obtain ⟨row, hrow, hpending⟩ := (Option.any_eq_true _ _).mp hany
    exact .write (.decide hrow (by simpa using hpending))
  · cases h
    exact .stop

theorem statedAs_requester {d : PromotionDecision} {promotion : EnvironmentPromotion}
    {environment : ProjectEnvironment}
    (h : statement s guards answer (.requester d promotion environment) = some (s', next)) :
    StatedAs s guards (.requester d promotion environment) s' next := by
  simp only [statement] at h
  split at h
  · rename_i hguard
    cases h
    simp only [Bool.and_eq_true] at hguard
    exact .read (.requester hguard.2)
  · cases h
    exact .stop

theorem statedAs_insert {r : PromotionRequest} {environment : ProjectEnvironment}
    {source : ProjectRelease}
    (h : statement s guards answer (.insert r environment source) = some (s', next)) :
    StatedAs s guards (.insert r environment source) s' next := by
  simp only [statement] at h
  split at h
  · cases h
    exact .stop
  · rename_i added hadded
    split at h <;> cases h
    · rename_i hrequired
      exact .finish (.insertPending hadded hrequired)
    · rename_i hrequired
      exact .write (.insertPromoting hadded (by simpa using hrequired))

theorem statedAs_slot {x : Execution}
    (h : statement s guards answer (.slot x) = some (s', next)) :
    StatedAs s guards (.slot x) s' next := by
  simp only [statement] at h
  split at h
  · cases h
    exact .read .promote
  · obtain ⟨locked, hlocked, h⟩ := Option.bind_eq_some_iff.mp h
    obtain ⟨hfree, rfl⟩ := acquire_eq_some hlocked
    cases h
    exact .lock .slot hfree

theorem statedAs_record {x : Execution} {promoted : Promoted}
    (h : statement s guards answer (.record x promoted) = some (s', next)) :
    StatedAs s guards (.record x promoted) s' next := by
  simp only [statement] at h
  split at h
  · rename_i recorded hrecorded
    cases h
    split at hrecorded
    · cases hrecorded
    · exact .finish (.record hrecorded)
  · cases h
    exact .read .unrecorded

theorem statedAs_tryLock {d : EnvironmentDeletion} {rest : List (ℕ × ℕ)}
    (h : statement s guards answer (.tryLock d rest) = some (s', next)) :
    StatedAs s guards (.tryLock d rest) s' next := by
  cases rest with
  | nil =>
    cases h
    exact .read .locked
  | cons first rest =>
    obtain ⟨promotionId, buildId⟩ := first
    simp only [statement] at h
    split at h
    · cases h
      exact .stop
    · rename_i locked hlocked
      obtain ⟨hfree, rfl⟩ := acquire_eq_some hlocked
      cases h
      exact .lock .delete hfree

theorem statedAs_state {d : EnvironmentDeletion} {promotionId : ℕ}
    {rest : List (ℕ × ℕ)}
    (h : statement s guards answer (.state d promotionId rest) = some (s', next)) :
    StatedAs s guards (.state d promotionId rest) s' next := by
  simp only [statement] at h
  split at h
  · cases h
    exact .read .closed
  · rename_i row hrow
    split at h <;> cases h
    · rename_i hopen
      exact .read (.state hrow (by simpa using hopen))
    · exact .read .closed

theorem statedAs_of_statement {point : PromotionPoint}
    (h : statement s guards answer point = some (s', next)) :
    StatedAs s guards point s' next := by
  cases point with
  | promotion d => exact statedAs_promotion h
  | environment loader => exact statedAs_environment h
  | approvers loader environment => exact statedAs_approvers h
  | build r environment => exact statedAs_build h
  | lock purpose environment => exact statedAs_lock h
  | decision d promotion environment => exact statedAs_decision h
  | requester d promotion environment => exact statedAs_requester h
  | check purpose environment at_ => exact statedAs_check h
  | source purpose environment => exact statedAs_source h
  | insert r environment source => exact statedAs_insert h
  | slot x => exact statedAs_slot h
  | promote x =>
    simp only [statement] at h
    split at h <;> cases h
    · exact .write .refused
    · exact .write .accepted
  | record x promoted => exact statedAs_record h
  | refuse promotionId message =>
    cases h
    exact .finish .fail
  | unrecorded x =>
    cases h
    exact .finish .unrecorded
  | releases u environment name track =>
    simp only [statement] at h
    split at h <;> cases h
    · exact .stop
    · exact .read .noReleases
  | commit u environment name track =>
    simp only [statement] at h
    split at h <;> cases h
    · exact .stop
    · rename_i hupdated
      exact .finish (.commit hupdated)
  | delete d =>
    simp only [statement] at h
    split at h <;> cases h
    · exact .stop
    · exact .read .delete
  | open_ d =>
    cases h
    exact .read .open_
  | tryLock d rest => exact statedAs_tryLock h
  | state d promotionId rest => exact statedAs_state h
  | close d promotionId state rest =>
    cases h
    exact .write .close
  | remove d =>
    cases h
    exact .finish .remove

end Points

/-- Every statement of a call is one of these. -/
theorem step_of_advancePromotion {s s' : Board} {call : PromotionCall} {answer : PromotionAnswer}
    {next : Option PromotionCall} (h : promotions.advance s call answer = some (s', next)) :
    PromotionStep s call s' next := by
  change advancePromotion s call answer = some (s', next) at h
  obtain ⟨⟨mid, following⟩, hstated, heq⟩ := Option.map_eq_some_iff.mp h
  cases statedAs_of_statement hstated with
  | stop =>
    cases heq
    exact .stop
  | read hread =>
    cases heq
    exact .read hread
  | lock hlock hfree =>
    cases heq
    exact .lock hlock hfree
  | write hwrite =>
    cases heq
    exact .write hwrite
  | finish hwrite =>
    cases heq
    exact .finish hwrite

end OoreBuild
