import OoreBuild.SetupInvariants

/-!
# The setup over whole runs

Every statement keeps the invariant, and every request keeps the rules: what it saves is a change of
the record that it loaded under the mutex. Runs of requests side by side, cut short anywhere and
restarted at any time, follow from the rule for programs that share a state and a mutex.
-/

namespace OoreBuild

namespace Setup

open Text Guarded PendingAuths

variable {platform : Platform}

/-! ## Sign-ins under way -/

section Auth

variable {log : List Entry} {store : PendingAuthStore Text SetupOidcAuthorization}

/-- The sign-ins of the setup were all started. -/
def AllStarted (log : List Entry) (store : PendingAuthStore Text SetupOidcAuthorization) : Prop :=
  ∀ row ∈ store.pending, ∀ a, row.2.setup = some a → Started log a

theorem AllStarted.cleanup (h : AllStarted log store) (now : ℤ) :
    AllStarted log (store.cleanup now) := fun row hrow => h row (List.mem_filter.mp hrow).1

theorem AllStarted.put (h : AllStarted log store) {row : Text × PendingAuth SetupOidcAuthorization}
    (hrow : ∀ a, row.2.setup = some a → Started log a) :
    ∀ other ∈ Rows.put Prod.fst row store.pending, ∀ a, other.2.setup = some a → Started log a := by
  intro other hother
  rcases Rows.mem_upsert.mp hother with rfl | ⟨hother, _⟩
  · exact hrow
  · exact h other hother

theorem AllStarted.publicAuth (h : AllStarted log store) (op : PublicOp) :
    AllStarted log (op.apply store) := by
  cases op with
  | reserve reservationId source now =>
    dsimp only [PublicOp.apply, PendingAuthStore.reservePublic]
    split_ifs <;> exact h.cleanup now
  | commit reservationId state redirectUri createdAt =>
    dsimp only [PublicOp.apply, PendingAuthStore.commitPublic]
    split_ifs
    · exact (h.cleanup createdAt).put fun _ hsetup => by cases hsetup
    · exact h.cleanup createdAt
  | cancel reservationId => exact h
  | callback state => exact fun row hrow => h row (Rows.mem_erase.mp hrow).1

theorem setupGeneration_publicAuth (op : PublicOp) :
    (op.apply store).setupGeneration = store.setupGeneration := by
  cases op with
  | reserve reservationId source now =>
    dsimp only [PublicOp.apply, PendingAuthStore.reservePublic]
    split_ifs <;> rfl
  | commit reservationId state redirectUri createdAt =>
    dsimp only [PublicOp.apply, PendingAuthStore.commitPublic]
    split_ifs <;> rfl
  | cancel reservationId => rfl
  | callback state => rfl

end Auth

/-! ## Statements -/

section Statements

variable {d : Daemon}

/-- Statements that change the settings, the failures or the sign-ins only. -/
theorem Inv.of_auth (h : Inv platform d) {d' : Daemon} (hrow : d'.row = d.row)
    (hlog : d'.log = d.log) (husers : d'.users = d.users)
    (hgeneration : d'.auth.setupGeneration = d.auth.setupGeneration)
    (hpending : AllStarted d.log d'.auth) : Inv platform d' where
  justified := hlog ▸ h.justified
  generation := by rw [hgeneration, hlog, h.generation]
  pending := hlog ▸ hpending
  token := by rw [hlog, hrow]; exact h.token
  agrees := by rw [hlog, hrow]; exact h.agrees
  user := by rw [hrow, husers]; exact h.user

theorem Quiet.of_auth {d' : Daemon} (hrow : d'.row = d.row) (hlog : d'.log = d.log)
    (husers : d'.users = d.users)
    (hgeneration : d'.auth.setupGeneration = d.auth.setupGeneration) : Quiet d d' :=
  ⟨by rw [hrow], ⟨[], hlog, nofun⟩, husers, hgeneration⟩

/-- An entry that names no token and no owner. -/
theorem Inv.invalidate (h : Inv platform d) {auth : PendingAuthStore Text SetupOidcAuthorization}
    (hgeneration : auth.setupGeneration = d.auth.setupGeneration + 1)
    (hpending : AllStarted d.log auth) {failures : BootstrapFailureBudget} :
    Inv platform
      { d with
        auth := auth
        failures := failures
        log := .invalidated :: d.log } where
  justified := ⟨trivial, h.justified⟩
  generation := by
    have hcount : invalidations (.invalidated :: d.log) = invalidations d.log + 1 :=
      List.countP_cons_of_pos rfl
    exact hgeneration.trans (by rw [hcount, h.generation])
  pending row hrow a ha := Grows.started ⟨[.invalidated], rfl⟩ (hpending row hrow a ha)
  token := h.token.cons fun _ => rfl
  agrees := h.agrees.cons rfl rfl rfl
  user := h.user

/-- A token opens at most the sessions that it was minted for. -/
theorem Justified.opens_le {log : List Entry} (h : Justified log) (tokenHash : Text) :
    log.countP (Entry.opens tokenHash) ≤ log.countP (Entry.mints tokenHash) := by
  induction log with
  | nil => exact le_rfl
  | cons e log ih =>
    have hlog := ih h.2
    by_cases hopen : e.opens tokenHash = true
    · cases e with
      | opened hash sessionHash checkedAt =>
        obtain rfl := of_decide_eq_true hopen
        have hlt := h.1.2
        rw [List.countP_cons_of_pos hopen]
        exact hlt.trans_le ((List.sublist_cons_self _ _).countP_le)
      | minted | started | invalidated | owned | completed => cases hopen
    · rw [List.countP_cons_of_neg hopen]
      exact hlog.trans ((List.sublist_cons_self _ _).countP_le)

theorem Inv.mint (h : Inv platform d) (ttlSecs : ℤ) (draw : Draw) :
    Inv platform (mint d ttlSecs draw).1 := by
  unfold Setup.mint Draw.effect
  split_ifs with hready hfailed
  · exact h
  · exact h
  · have hrow : d.row.mint draw.text (draw.now + ttlSecs) draw.now =
        { d.row with
          bootstrapToken := some ⟨draw.text, draw.now + ttlSecs, none⟩
          updatedAt := draw.now } := if_neg hready
    refine
      { justified := ⟨forall_not_completed h.agrees hready, h.justified⟩
        generation := ?_
        pending := fun row hmem a ha => Grows.started ⟨[_], rfl⟩ (h.pending row hmem a ha)
        token := ?_
        agrees := ?_
        user := ?_ }
    · exact h.generation.trans (List.countP_cons_of_neg Bool.false_ne_true).symm
    · rw [hrow]
      intro t ht
      obtain rfl := Option.some.inj ht
      refine ⟨List.mem_cons_self, fun _ => ?_⟩
      have hle := h.justified.opens_le draw.text
      rw [List.countP_cons_of_neg Bool.false_ne_true,
        List.countP_cons_of_pos (by simp [Entry.mints])]
      exact Nat.lt_succ_of_le hle
    · exact Agrees.congr (h.agrees.cons rfl rfl rfl) (by rw [hrow])
    · intro hready'
      rw [hrow] at hready'
      exact absurd hready' hready

theorem quiet_mint (d : Daemon) (ttlSecs : ℤ) (draw : Draw) : Quiet d (mint d ttlSecs draw).1 := by
  unfold Setup.mint Draw.effect
  split_ifs with hready hfailed
  · exact quiet_refl d
  · exact quiet_refl d
  · refine ⟨?_, ⟨[_], rfl, fun e he => ⟨_, _, List.mem_singleton.mp he⟩⟩, rfl, rfl⟩
    show d.row.mint _ _ _ = _
    unfold SetupStateFile.mint
    rw [if_neg hready]

theorem HasUser.upsertOwner {users : List UserRow} {email : Text} (h : HasUser users email)
    (id other oidcSubject : Text) : HasUser (upsertOwner users id other oidcSubject) email := by
  obtain ⟨user, hmem, hemail, hrole, hstatus⟩ := h
  unfold Setup.upsertOwner Rows.upsert
  split_ifs with hthere
  · refine ⟨_, List.mem_map_of_mem hmem, ?_⟩
    split_ifs
    · exact ⟨hemail, rfl, rfl⟩
    · exact ⟨hemail, hrole, hstatus⟩
  · exact ⟨user, List.mem_append_left _ hmem, hemail, hrole, hstatus⟩

theorem hasUser_upsertOwner (users : List UserRow) (id email oidcSubject : Text) :
    HasUser (upsertOwner users id email oidcSubject) email := by
  unfold Setup.upsertOwner Rows.upsert
  split_ifs with hthere
  · obtain ⟨user, hmem, hemail⟩ := List.any_eq_true.mp hthere
    have hemail : user.email = email := of_decide_eq_true hemail
    refine ⟨_, List.mem_map_of_mem hmem, ?_⟩
    rw [if_pos hemail]
    exact ⟨hemail, rfl, rfl⟩
  · exact ⟨_, List.mem_append_right _ (List.mem_singleton_self _), rfl, rfl, rfl⟩

end Statements

/-! ## What a request may do -/

section Rules

variable {d d' : Daemon} {holds : Bool} {K : Daemon → Prop}

theorem may_of_quiet (h : Quiet d d') : (rules platform).may holds d d' := by
  unfold Rules.may
  split_ifs
  · exact ⟨h.grows, h.forward⟩
  · exact h

theorem stable_of_quiet {K : Daemon → Prop} (h : ∀ d d', Quiet d d' → K d → K d') :
    (rules platform).Stable true K := fun d d' _ hstep =>
  h d d' (hstep.resolve_right nofun)

theorem stable_loaded (state : SetupStateFile) : (rules platform).Stable true (Loaded state) :=
  stable_of_quiet fun _ _ h => h.loaded

theorem stable_started (holds : Bool) (a : SetupOidcAuthorization) :
    (rules platform).Stable holds fun d => Started d.log a := by
  rintro d d' _ (h | ⟨_, h⟩) ha
  · exact h.started ha
  · exact h.1.started ha

theorem stable_and {K L : Daemon → Prop} (hK : (rules platform).Stable holds K)
    (hL : (rules platform).Stable holds L) : (rules platform).Stable holds fun d => K d ∧ L d :=
  fun d d' hinv hstep h => ⟨hK d d' hinv hstep h.1, hL d d' hinv hstep h.2⟩

/-- A quiet statement leaves what is known and may tell more. -/
theorem checked_learn {st : Stmt} {L : Ans st → Daemon → Prop}
    {Q : Ans st → (Daemon → Prop) → Prop}
    (hinv : ∀ d draw, Inv platform d → K d → Inv platform (exec d st draw).1)
    (hquiet : ∀ d draw, Quiet d (exec d st draw).1)
    (hlearn : ∀ d draw, Inv platform d → K d → L (exec d st draw).2 (exec d st draw).1)
    (hstable : ∀ a, (rules platform).Stable holds (L a)) (h : ∀ a, Q a fun d => K d ∧ L a d) :
    Checked machine (rules platform) holds K Q (ask st) := by
  intro hK
  refine Checked.act (fun d draw hd hKd => ⟨hinv d draw hd hKd, may_of_quiet (hquiet d draw), _,
    ?_, fun _ => stable_and hK (hstable _), h _⟩) hK
  exact ⟨hK d _ hd (Or.inl (hquiet d draw)) hKd, hlearn d draw hd hKd⟩

theorem checked_quiet {st : Stmt} {Q : Ans st → (Daemon → Prop) → Prop}
    (hinv : ∀ d draw, Inv platform d → K d → Inv platform (exec d st draw).1)
    (hquiet : ∀ d draw, Quiet d (exec d st draw).1) (h : ∀ a, Q a K) :
    Checked machine (rules platform) holds K Q (ask st) := by
  intro hK
  refine Checked.act (fun d draw hd hKd => ⟨hinv d draw hd hKd, may_of_quiet (hquiet d draw), K,
    ?_, id, h _⟩) hK
  exact hK d _ hd (Or.inl (hquiet d draw)) hKd

/-- A statement that only reads. -/
theorem checked_read {st : Stmt} {Q : Ans st → (Daemon → Prop) → Prop}
    (hread : ∀ d draw, (exec d st draw).1 = d) (h : ∀ a, Q a K) :
    Checked machine (rules platform) holds K Q (ask st) := by
  refine checked_quiet (fun d draw hd _ => ?_) (fun d draw => ?_) h
  · rw [hread]
    exact hd
  · rw [hread]
    exact quiet_refl d

theorem checked_now {Q : ℤ → (Daemon → Prop) → Prop} (h : ∀ t, Q t K) :
    Checked machine (rules platform) holds K Q now :=
  checked_read (fun _ _ => rfl) h

theorem checked_fresh {Q : Text → (Daemon → Prop) → Prop} (h : ∀ t, Q t K) :
    Checked machine (rules platform) holds K Q fresh :=
  checked_read (fun _ _ => rfl) h

theorem checked_decideOn {Q : Text → (Daemon → Prop) → Prop} (input : Text) (h : ∀ t, Q t K) :
    Checked machine (rules platform) holds K Q (decideOn input) := by
  refine Checked.bind (checked_read (fun _ _ => rfl) fun answer => ?_)
  exact Checked.ofExcept fun t _ => h t

theorem checked_loadModes {Q : RuntimeMode × RemoteAuthMode → (Daemon → Prop) → Prop}
    (h : ∀ modes, Q modes K) : Checked machine (rules platform) holds K Q loadModes := by
  refine Checked.bind (checked_read (fun _ _ => rfl) fun mode => ?_)
  refine Checked.bind (Checked.ofExcept fun mode _ => ?_)
  refine Checked.bind (checked_read (fun _ _ => rfl) fun remote => ?_)
  exact Checked.bind (Checked.ofExcept fun remote _ => Checked.pure (h (mode, remote)))

theorem checked_required {α : Type} {o : Option α} {code : Text} {Q : α → (Daemon → Prop) → Prop}
    (h : ∀ a, o = some a → Q a K) :
    Checked machine (rules platform) holds K Q (Handler.ofExcept (required o code)) := by
  refine Checked.ofExcept fun a ha => ?_
  cases o with
  | none => cases ha
  | some b => exact h a (congrArg some (Except.ok.inj ha))

/-- What an answer tells of the record. -/
def LoadedIf (answer : Except Text SetupStateFile) (d : Daemon) : Prop :=
  match answer with
  | .ok state => Loaded state d
  | .error _ => True

/-- The record as it is loaded under the mutex. -/
theorem checked_load {Q : SetupStateFile → (Daemon → Prop) → Prop}
    (h : ∀ state, Q state fun d => K d ∧ Loaded state d) :
    Checked machine (rules platform) true K Q load := by
  have hlearn : ∀ (d : Daemon) (draw : Draw), Inv platform d → LoadedIf (draw.answer d.row) d := by
    intro d draw hd
    unfold Draw.answer LoadedIf
    split_ifs
    · trivial
    · exact ⟨rfl, hd.token⟩
  have hstable : ∀ answer, (rules platform).Stable true (LoadedIf answer) := by
    intro answer
    cases answer with
    | ok state => exact stable_loaded state
    | error e => exact Rules.stable_true _ true
  refine Checked.bind (checked_learn (fun _ _ hd _ => hd) (fun d _ => quiet_refl d)
    (fun d draw hd _ => hlearn d draw hd) hstable fun answer => ?_)
  cases answer with
  | ok state => exact Checked.pure (h state)
  | error e => exact Checked.throw e

/-- Statements on the settings and on the failures. -/
theorem checked_settings {st : Stmt} {Q : Ans st → (Daemon → Prop) → Prop}
    (hexec : ∀ d draw, (exec d st draw).1.row = d.row ∧ (exec d st draw).1.log = d.log ∧
      (exec d st draw).1.users = d.users ∧ (exec d st draw).1.auth = d.auth)
    (h : ∀ a, Q a K) : Checked machine (rules platform) holds K Q (ask st) := by
  refine checked_quiet (fun d draw hd _ => ?_) (fun d draw => ?_) h
  · obtain ⟨hrow, hlog, husers, hauth⟩ := hexec d draw
    refine hd.of_auth hrow hlog husers (by rw [hauth]) ?_
    rw [hauth]
    exact hd.pending
  · obtain ⟨hrow, hlog, husers, hauth⟩ := hexec d draw
    exact Quiet.of_auth hrow hlog husers (by rw [hauth])

theorem checked_saveProxySettings {settings : ProxySettings}
    {Q : Except Text Unit → (Daemon → Prop) → Prop} (h : ∀ a, Q a K) :
    Checked machine (rules platform) holds K Q (ask (.saveProxySettings settings)) := by
  refine checked_settings (fun d draw => ?_) h
  obtain ⟨failed, t, text, provider, identity⟩ := draw
  cases failed <;> exact ⟨rfl, rfl, rfl, rfl⟩

theorem checked_updatePreferences {mode : RuntimeMode} {remote : RemoteAuthMode}
    {Q : Except Text Unit → (Daemon → Prop) → Prop} (h : ∀ a, Q a K) :
    Checked machine (rules platform) holds K Q (ask (.updatePreferences mode remote)) := by
  refine checked_settings (fun d draw => ?_) h
  obtain ⟨failed, t, text, provider, identity⟩ := draw
  cases failed <;> exact ⟨rfl, rfl, rfl, rfl⟩

/-- The sign-in that a callback takes was started. -/
def StartedIf (pending : Option (PendingAuth SetupOidcAuthorization)) (d : Daemon) : Prop :=
  ∀ p, pending = some p → ∀ a, p.setup = some a → Started d.log a

theorem stable_startedIf (holds : Bool) (pending : Option (PendingAuth SetupOidcAuthorization)) :
    (rules platform).Stable holds (StartedIf pending) :=
  fun d d' hinv hstep h p hp a ha => stable_started holds a d d' hinv hstep (h p hp a ha)

theorem checked_takePending {stateValue : Text}
    {Q : Option (PendingAuth SetupOidcAuthorization) → (Daemon → Prop) → Prop}
    (h : ∀ pending, Q pending fun d => K d ∧ StartedIf pending d) :
    Checked machine (rules platform) holds K Q (ask (.takePending stateValue)) := by
  refine checked_learn (fun d draw hd _ => ?_) (fun d draw => ?_)
    (fun d draw hd _ p hp => ?_) (stable_startedIf holds) h
  · exact hd.of_auth rfl rfl rfl rfl fun row hrow => hd.pending row (Rows.mem_erase.mp hrow).1
  · exact Quiet.of_auth rfl rfl rfl rfl
  · obtain ⟨row, hrow, rfl⟩ := Option.map_eq_some_iff.mp hp
    exact hd.pending row (List.mem_of_find?_eq_some hrow)

theorem checked_clearPending {Q : Unit → (Daemon → Prop) → Prop} (h : Q () K) :
    Checked machine (rules platform) holds K Q (ask .clearPending) :=
  checked_quiet (fun _ _ hd _ => hd.of_auth rfl rfl rfl rfl nofun)
    (fun _ _ => Quiet.of_auth rfl rfl rfl rfl) fun _ => h

theorem checked_publicAuth {op : PublicOp} {Q : Unit → (Daemon → Prop) → Prop} (h : Q () K) :
    Checked machine (rules platform) holds K Q (ask (.publicAuth op)) :=
  checked_quiet
    (fun _ _ hd _ => hd.of_auth rfl rfl rfl (setupGeneration_publicAuth op)
      (AllStarted.publicAuth hd.pending op))
    (fun _ _ => Quiet.of_auth rfl rfl rfl (setupGeneration_publicAuth op)) fun _ => h

theorem checked_mint {ttlSecs : ℤ} {Q : Except Text Unit → (Daemon → Prop) → Prop}
    (h : ∀ a, Q a K) : Checked machine (rules platform) holds K Q (ask (.mint ttlSecs)) :=
  checked_quiet (fun _ draw hd _ => hd.mint ttlSecs draw)
    (fun d draw => quiet_mint d ttlSecs draw) h

theorem insertSetup_fst (d : Daemon) (state : Text) (pending : PendingAuth SetupOidcAuthorization) :
    (insertSetup d state pending).1 =
      { d with auth := (d.auth.insertSetup state pending pending.createdAt).1 } := by
  unfold Setup.insertSetup
  rcases d.auth.insertSetup state pending pending.createdAt with ⟨auth, result⟩
  cases result <;> rfl

theorem setupGeneration_insertSetup (store : PendingAuthStore Text SetupOidcAuthorization)
    (state : Text) (pending : PendingAuth SetupOidcAuthorization) (now : ℤ) :
    (store.insertSetup state pending now).1.setupGeneration = store.setupGeneration := by
  dsimp only [PendingAuthStore.insertSetup]
  split_ifs <;> rfl

theorem AllStarted.insertSetup {log : List Entry}
    {store : PendingAuthStore Text SetupOidcAuthorization} (h : AllStarted log store) {state : Text}
    {pending : PendingAuth SetupOidcAuthorization}
    (hpending : ∀ a, pending.setup = some a → Started log a) (now : ℤ) :
    AllStarted log (store.insertSetup state pending now).1 := by
  dsimp only [PendingAuthStore.insertSetup]
  split_ifs
  · exact h.cleanup now
  · exact (h.cleanup now).put hpending

theorem checked_insertSetup {state : Text} {pending : PendingAuth SetupOidcAuthorization}
    {Q : Except Text Unit → (Daemon → Prop) → Prop}
    (hstarted : ∀ d, K d → ∀ a, pending.setup = some a → Started d.log a) (h : ∀ a, Q a K) :
    Checked machine (rules platform) holds K Q (ask (.insertSetup state pending)) := by
  have hexec : ∀ d draw, (exec d (.insertSetup state pending) draw).1 =
      { d with auth := (d.auth.insertSetup state pending pending.createdAt).1 } := fun d _ =>
    insertSetup_fst d state pending
  refine checked_quiet (fun d draw hd hK => ?_) (fun d draw => ?_) h
  · rw [hexec]
    exact hd.of_auth rfl rfl rfl (setupGeneration_insertSetup _ _ _ _)
      (AllStarted.insertSetup hd.pending (hstarted d hK) _)
  · rw [hexec]
    exact Quiet.of_auth rfl rfl rfl (setupGeneration_insertSetup _ _ _ _)

theorem stable_generation (generation : ℕ) :
    (rules platform).Stable true fun d => d.auth.setupGeneration = generation :=
  stable_of_quiet fun _ _ hquiet h => hquiet.generation.trans h

/-- The generation, under the mutex. -/
theorem checked_setupGeneration {Q : ℕ → (Daemon → Prop) → Prop}
    (h : ∀ generation, Q generation fun d => K d ∧ d.auth.setupGeneration = generation) :
    Checked machine (rules platform) true K Q (ask .setupGeneration) :=
  checked_learn (fun _ _ hd _ => hd) (fun d _ => quiet_refl d) (fun _ _ _ _ => rfl)
    stable_generation h

/-! ### Statements under the mutex -/

theorem checked_invalidateSetup {Q : Unit → (Daemon → Prop) → Prop} (h : Q () fun _ => True) :
    Checked machine (rules platform) true K Q (ask .invalidateSetup) := by
  refine Checked.act fun d draw hd _ => ⟨?_, ?_, fun _ => True, trivial,
    fun _ => Rules.stable_true _ true, h⟩
  · exact hd.invalidate rfl fun row hrow => hd.pending row (List.mem_filter.mp hrow).1
  · exact ⟨⟨[.invalidated], rfl⟩, forward_refl d.row⟩

/-- A save of a change, and what stays known. -/
theorem checked_saveState {state' : SetupStateFile} {notes : List Entry} {P : Daemon → Prop}
    {Q : Unit → (Daemon → Prop) → Prop}
    (hchanges : ∀ d, Inv platform d → K d →
      ∃ state, Loaded state d ∧ Changes platform d.log d.users state state' notes)
    (hP : ∀ d, Inv platform d → K d → P { d with row := state', log := notes ++ d.log })
    (hstable : (rules platform).Stable true P) (h : Q () fun d => Loaded state' d ∧ P d) :
    Checked machine (rules platform) true K Q (saveState state' notes) := by
  refine Checked.bind (Checked.act fun d draw hd hK => ?_)
  show Inv platform (draw.effect d _ _).1 ∧ (rules platform).inside d (draw.effect d _ _).1 ∧
    ∃ K' : Daemon → Prop, K' (draw.effect d _ _).1 ∧ (_ → _) ∧
      Checked machine (rules platform) true K' Q (Handler.ofExcept (draw.effect d _ _).2)
  unfold Draw.effect
  split_ifs with hfailed
  · exact ⟨hd, ⟨Grows.refl _, forward_refl d.row⟩, K, hK, id, Checked.throw _⟩
  · obtain ⟨state, hloaded, hchange⟩ := hchanges d hd hK
    refine ⟨hd.save hloaded hchange, hchange.inside hd hloaded, fun d => Loaded state' d ∧ P d,
      ⟨hchange.loaded hloaded, hP d hd hK⟩, fun _ => stable_and (stable_loaded state') hstable,
      Checked.pure h⟩

/-- The last save of a request. -/
theorem checked_lastSave {state' : SetupStateFile} {notes : List Entry}
    {Q : Unit → (Daemon → Prop) → Prop}
    (hchanges : ∀ d, Inv platform d → K d →
      ∃ state, Loaded state d ∧ Changes platform d.log d.users state state' notes)
    (h : ∀ K, Q () K) : Checked machine (rules platform) true K Q (saveState state' notes) :=
  checked_saveState hchanges (fun _ _ _ => trivial) (Rules.stable_true _ true) (h _)

/-- The owner is a user from then on. -/
theorem checked_upsertOwner {state : SetupStateFile} {id email oidcSubject : Text}
    {Q : Except Text Unit → (Daemon → Prop) → Prop} (hK : ∀ d, K d → Loaded state d)
    (hok : Q (.ok ()) fun d => Loaded state d ∧ HasUser d.users email)
    (herror : ∀ e, Q (.error e) K) :
    Checked machine (rules platform) true K Q (ask (.upsertOwner id email oidcSubject)) := by
  refine Checked.act fun d draw hd hKd => ?_
  show Inv platform (draw.effect d _ _).1 ∧ (rules platform).inside d (draw.effect d _ _).1 ∧
    ∃ K' : Daemon → Prop, K' (draw.effect d _ _).1 ∧ (_ → _) ∧ Q (draw.effect d _ _).2 K'
  unfold Draw.effect
  split_ifs with hfailed
  · exact ⟨hd, ⟨Grows.refl _, forward_refl d.row⟩, K, hKd, fun hstable => hstable, herror _⟩
  · refine ⟨⟨hd.justified, hd.generation, hd.pending, hd.token, hd.agrees, fun hready => ?_⟩,
      ⟨Grows.refl _, forward_refl d.row⟩, fun d => Loaded state d ∧ HasUser d.users email,
      ⟨⟨(hK d hKd).row, (hK d hKd).token⟩, hasUser_upsertOwner _ _ _ _⟩, fun _ => ?_, hok⟩
    · obtain ⟨o, howner, huser⟩ := hd.user hready
      exact ⟨o, howner, huser.upsertOwner _ _ _⟩
    · refine stable_and (stable_loaded state) (stable_of_quiet fun d d' hquiet h => ?_)
      rw [hquiet.users]
      exact h

/-- New preferences keep the session, and clear OIDC settings that no owner signed in with. -/
theorem checked_prefer {state : SetupStateFile} {mode : RuntimeMode} {remote : RemoteAuthMode}
    {session : Option SetupSessionRecord} {clears : Bool} {t : ℤ}
    {Q : Except Text (RuntimeMode × RemoteAuthMode) → (Daemon → Prop) → Prop}
    (hK : ∀ d, K d → Loaded state d) (hphase : state.setupState ≠ .ownerCreated)
    (hsession : session.map (·.hash) = state.setupSession.map (·.hash))
    (h : ∀ a, Q a fun _ => True) :
    Checked machine (rules platform) true K Q (ask (.prefer mode remote session clears t)) := by
  refine Checked.act fun d draw hd hKd => ?_
  have hchange : Changes platform d.log d.users d.row (d.row.prefer session clears t) [] := by
    have hrow := (hK d hKd).row
    have hsession' : session.map (·.hash) = d.row.setupSession.map (·.hash) := by
      rw [hrow]
      exact hsession
    have hphase' : d.row.setupState ≠ .ownerCreated := by
      rw [hrow]
      exact hphase
    cases clears with
    | true => exact .keep hsession' fun howner => absurd howner hphase'
    | false => exact .keep hsession' fun _ => ⟨rfl, rfl⟩
  have hloaded : Loaded d.row d := ⟨rfl, hd.token⟩
  obtain ⟨failed, t', text, provider, identity⟩ := draw
  cases failed with
  | true =>
    exact ⟨hd, ⟨Grows.refl _, forward_refl d.row⟩, fun _ => True, trivial,
      fun _ => Rules.stable_true _ true, h _⟩
  | false =>
    exact ⟨(hd.save hloaded hchange).of_auth rfl rfl rfl rfl (hd.save hloaded hchange).pending,
      hchange.inside hd hloaded, fun _ => True, trivial, fun _ => Rules.stable_true _ true, h _⟩

end Rules

/-! ## Requests -/

section Requests

variable {holds : Bool} {K : Daemon → Prop}

/-- A session that is checked is the current one, and lives longer. -/
theorem checked_validateSessionHash {state : SetupStateFile} {hash : Text}
    {Q : SetupStateFile → (Daemon → Prop) → Prop}
    (h : ∀ session : Option SetupSessionRecord,
      session.map (·.hash) = state.setupSession.map (·.hash) →
        state.setupSession.map (·.hash) = some hash → Q { state with setupSession := session } K) :
    Checked machine (rules platform) holds K Q (validateSessionHash state hash) := by
  refine Checked.bind (checked_required fun session hsession => ?_)
  refine Checked.bind (Checked.ensure fun hhash => ?_)
  refine Checked.bind (checked_now fun checked => ?_)
  refine Checked.bind (Checked.ensure fun hlive => ?_)
  refine Checked.bind (checked_now fun bumped => ?_)
  refine Checked.pure (h _ ?_ ?_)
  · rw [hsession]
    rfl
  · rw [hsession]
    exact congrArg some hhash.symm

theorem checked_validateSession {state : SetupStateFile} {auth : Option Text}
    {Q : SetupStateFile → (Daemon → Prop) → Prop}
    (h : ∀ session : Option SetupSessionRecord,
      session.map (·.hash) = state.setupSession.map (·.hash) →
        state.setupSession.map (·.hash) = some (auth.getD []) →
          Q { state with setupSession := session } K) :
    Checked machine (rules platform) holds K Q (validateSession state auth) := by
  refine Checked.bind (checked_required fun hash hauth => ?_)
  refine checked_validateSessionHash fun session hsame hcurrent => h session hsame ?_
  rw [hcurrent, hauth]
  rfl

/-- What a sign-in under way finds when it still stands. -/
structure Authorized (a : SetupOidcAuthorization) (state : SetupStateFile) : Prop where
  session : state.setupSession.map (·.hash) = some a.sessionHash
  phase : state.setupState = .idpConfigured
  oidc : state.oidcConfig = some a.oidc ∧ state.oidcSecret = a.secret

theorem matchesState_iff {a : SetupOidcAuthorization} {state : SetupStateFile} {generation : ℕ}
    {mode : RuntimeMode} {remote : RemoteAuthMode} {redirectUri : Text}
    (h : a.matchesState state generation mode remote redirectUri = true) :
    a.generation = generation ∧ state.oidcConfig = some a.oidc ∧ state.oidcSecret = a.secret := by
  unfold SetupOidcAuthorization.matchesState at h
  cases hconfig : state.oidcConfig with
  | none =>
    rw [hconfig] at h
    cases h
  | some oidc =>
    rw [hconfig] at h
    simp only [Bool.and_eq_true, decide_eq_true_eq] at h
    exact ⟨h.1.1.1.1.1.1, congrArg some h.1.1.2.symm, h.1.2.symm⟩

theorem checked_loadForAuthorization {a : SetupOidcAuthorization} {redirectUri : Text}
    {Q : SetupStateFile → (Daemon → Prop) → Prop}
    (h : ∀ (state : SetupStateFile) (session : Option SetupSessionRecord), Authorized a state →
      session.map (·.hash) = state.setupSession.map (·.hash) →
        Q { state with setupSession := session }
          fun d => (K d ∧ Loaded state d) ∧ d.auth.setupGeneration = a.generation) :
    Checked machine (rules platform) true K Q (loadForAuthorization a redirectUri) := by
  refine Checked.bind (checked_load fun state => ?_)
  refine Checked.bind (checked_loadModes fun modes => ?_)
  obtain ⟨mode, remote⟩ := modes
  refine Checked.bind (checked_setupGeneration fun generation => ?_)
  refine Checked.bind (Checked.ensure fun _ => ?_)
  refine Checked.bind (Checked.ensure fun hphase => ?_)
  refine Checked.bind (checked_validateSessionHash fun session hsame hcurrent => ?_)
  refine Checked.bind (Checked.ensure fun hmatches => ?_)
  obtain ⟨rfl, hoidc⟩ := matchesState_iff hmatches
  exact Checked.pure (h state session ⟨hcurrent, hphase.1, hoidc⟩ hsame)

theorem checked_oidcConfigFromStateFile {state : SetupStateFile} {Q : Unit → (Daemon → Prop) → Prop}
    (h : Q () K) : Checked machine (rules platform) holds K Q (oidcConfigFromStateFile state) := by
  refine Checked.bind (checked_required fun _ _ => ?_)
  cases state.oidcSecret with
  | none => exact Checked.pure h
  | some secret => exact Checked.bind (checked_decideOn _ fun _ => Checked.pure h)

theorem checked_loadConfigurable {auth : Option Text} {Q : SetupStateFile → (Daemon → Prop) → Prop}
    (h : ∀ (state : SetupStateFile) (session : Option SetupSessionRecord),
      (state.setupState = .bootstrapPending ∨ state.setupState = .idpConfigured) →
        session.map (·.hash) = state.setupSession.map (·.hash) →
          Q { state with setupSession := session } fun d => K d ∧ Loaded state d) :
    Checked machine (rules platform) true K Q (loadConfigurable auth) := by
  refine Checked.bind (checked_load fun state => ?_)
  refine Checked.bind (Checked.ensure fun _ => ?_)
  refine Checked.bind (Checked.ensure fun hphase => ?_)
  exact checked_validateSession fun session hsame _ => h state session hphase hsame

/-- Nothing more is asked of the end of a request. -/
abbrev Done {α : Type} : α → (Daemon → Prop) → Prop := fun _ _ => True

/-- A request under the mutex, after which nothing is known. -/
theorem checked_locked {α : Type} {x : Api α}
    (h : Checked machine (rules platform) true (fun _ => True) Done x) :
    Checked machine (rules platform) false (fun _ => True) Done (Handler.locked x) :=
  Checked.locked (h.mono fun _ _ _ => ⟨fun _ => True, fun _ _ _ => trivial,
    Rules.stable_true _ false, trivial⟩)

theorem checked_setupSummary (auth : Option Text) :
    Checked machine (rules platform) false (fun _ => True) Done (setupSummary auth) := by
  refine checked_locked (Checked.bind (checked_load fun state => ?_))
  refine Checked.bind (checked_validateSession fun session hsame _ => ?_)
  exact checked_lastSave (fun d _ hK => ⟨state, hK.2, .keep hsame fun _ => ⟨rfl, rfl⟩⟩) fun _ =>
    trivial

theorem checked_verifyBootstrapToken (requestHash : Text) :
    Checked machine (rules platform) false (fun _ => True) Done
      (verifyBootstrapToken requestHash) := by
  refine checked_locked (Checked.bind (checked_load fun state => ?_))
  refine Checked.bind (Checked.ensure fun _ => ?_)
  refine Checked.bind (checked_required fun token htoken => ?_)
  refine Checked.bind (Checked.ensure fun hfree => ?_)
  refine Checked.bind (checked_now fun checked => ?_)
  refine Checked.bind (Checked.ensure fun hlive => ?_)
  have hrest : Checked machine (rules platform) true (fun d => True ∧ Loaded state d) Done (do
      ask .clearFailures
      let now ← now
      let sessionHash ← fresh
      saveState
        { state with
          bootstrapToken := some { token with consumedAt := some now }
          setupSession := some ⟨sessionHash, now + setupSessionTtlSecs⟩
          updatedAt := now }
        [.opened token.hash sessionHash checked]) := by
    refine Checked.bind (checked_settings (fun _ _ => ⟨rfl, rfl, rfl, rfl⟩) fun _ => ?_)
    refine Checked.bind (checked_now fun now => ?_)
    refine Checked.bind (checked_fresh fun sessionHash => ?_)
    exact checked_lastSave (fun d _ hK => ⟨state, hK.2, .consume htoken hfree hlive⟩) fun _ =>
      trivial
  refine Checked.ite (fun _ => Checked.bind (Checked.bind ?_)) fun _ => hrest
  refine checked_settings (fun _ _ => ⟨rfl, rfl, rfl, rfl⟩) fun attempts => ?_
  exact Checked.bind (Checked.ensure fun _ => Checked.throw _)

theorem checked_storedSecret {clientSecret : Option Text} {kept : Option OidcSecretRecord} {t : ℤ}
    {Q : Option OidcSecretRecord → (Daemon → Prop) → Prop} (h : ∀ secret, Q secret K) :
    Checked machine (rules platform) holds K Q (storedSecret clientSecret kept t) := by
  cases clientSecret with
  | none => exact Checked.pure (h kept)
  | some secret => exact Checked.bind (checked_decideOn _ fun _ => Checked.pure (h _))

theorem checked_configureOidc (auth : Option Text) (req : OidcConfigureRequest) :
    Checked machine (rules platform) false (fun _ => True) Done
      (configureOidc platform auth req) := by
  refine Checked.bind (Checked.ensure fun _ => ?_)
  refine Checked.bind (Checked.locked (Checked.bind (checked_loadConfigurable fun _ _ _ _ =>
    Checked.pure ⟨fun _ => True, fun _ _ _ => trivial, Rules.stable_true _ false, ?_⟩)))
  refine Checked.bind (checked_now fun now => ?_)
  refine Checked.bind (checked_read (fun _ _ => rfl) fun _ => ?_)
  refine Checked.bind (Checked.ofExcept fun found _ => checked_locked ?_)
  refine Checked.bind (checked_loadConfigurable fun state session hphase hsame => ?_)
  refine Checked.bind (Checked.ensure fun _ => ?_)
  refine Checked.bind (checked_storedSecret fun secret => ?_)
  refine Checked.bind (checked_lastSave
    (fun d _ hK => ⟨state, hK.2, .configure hsame (open_of_phase hphase)⟩) fun K => ?_)
  exact checked_invalidateSetup trivial

theorem checked_setupPreferences (auth : Option Text) (mode : RuntimeMode)
    (remote : Option RemoteAuthMode) :
    Checked machine (rules platform) false (fun _ => True) Done
      (setupPreferences auth mode remote) := by
  refine checked_locked (Checked.bind (checked_load fun state => ?_))
  refine Checked.bind (Checked.ensure fun _ => ?_)
  refine Checked.bind (Checked.ensure fun hphase => ?_)
  refine Checked.bind (checked_validateSession fun session hsame _ => ?_)
  refine Checked.bind (checked_now fun now => ?_)
  refine Checked.bind (checked_prefer (fun d hK => hK.2) hphase hsame fun answer => ?_)
  refine Checked.bind (Checked.ofExcept fun previous _ => ?_)
  exact Checked.ite (fun _ => checked_invalidateSetup trivial) fun _ => Checked.pure trivial

theorem checked_requireTrustedProxy {Q : Unit → (Daemon → Prop) → Prop} (h : Q () K) :
    Checked machine (rules platform) holds K Q requireTrustedProxy := by
  refine Checked.bind (checked_loadModes fun modes => ?_)
  exact Checked.ensure fun _ => h

theorem checked_encryptSharedSecret {sharedSecret : Option Text}
    {Q : Option Text → (Daemon → Prop) → Prop} (h : ∀ secret, Q secret K) :
    Checked machine (rules platform) holds K Q (encryptSharedSecret sharedSecret) := by
  cases sharedSecret with
  | none => exact Checked.pure (h none)
  | some secret =>
    dsimp only [encryptSharedSecret]
    split_ifs
    · exact Checked.pure (h none)
    · refine Checked.bind (Checked.ensure fun _ => ?_)
      exact Checked.bind (checked_decideOn _ fun _ => Checked.pure (h _))

theorem checked_setupTrustedProxyConfigure (auth : Option Text) (req : TrustedProxyRequest) :
    Checked machine (rules platform) false (fun _ => True) Done
      (setupTrustedProxyConfigure platform auth req) := by
  refine checked_locked (Checked.bind (checked_load fun state => ?_))
  refine Checked.bind (Checked.ensure fun hready => ?_)
  refine Checked.bind (Checked.ensure fun howner => ?_)
  refine Checked.bind (checked_validateSession fun session hsame _ => ?_)
  refine Checked.bind (checked_requireTrustedProxy ?_)
  refine Checked.bind (Checked.ofExcept fun ownerEmail _ => ?_)
  refine Checked.bind (checked_encryptSharedSecret fun secret => ?_)
  refine Checked.bind (checked_now fun now => ?_)
  refine Checked.bind (checked_saveProxySettings fun answer => ?_)
  refine Checked.bind (Checked.ofExcept fun _ _ => ?_)
  refine Checked.bind (checked_lastSave
    (fun d _ hK => ⟨state, hK.2, .configure hsame ⟨howner, hready⟩⟩) fun K => ?_)
  exact checked_invalidateSetup trivial

theorem checked_setupOwnerClaimTrustedProxy (auth : Option Text) :
    Checked machine (rules platform) false (fun _ => True) Done
      (setupOwnerClaimTrustedProxy platform auth) := by
  refine checked_locked (Checked.bind (checked_load fun state => ?_))
  refine Checked.bind (Checked.ensure fun _ => ?_)
  refine Checked.bind (Checked.ensure fun hphase => ?_)
  refine Checked.bind (checked_validateSession fun session hsame hcurrent => ?_)
  refine Checked.bind (checked_requireTrustedProxy ?_)
  refine Checked.bind (checked_read (fun _ _ => rfl) fun _ => ?_)
  refine Checked.bind (Checked.ofExcept fun settings _ => ?_)
  refine Checked.bind (checked_required fun settings _ => ?_)
  refine Checked.bind (checked_read (fun _ _ => rfl) fun _ => ?_)
  refine Checked.bind (Checked.ofExcept fun who _ => ?_)
  obtain ⟨email, subject⟩ := who
  refine Checked.bind (Checked.ensure fun _ => ?_)
  refine Checked.bind (checked_now fun now => ?_)
  refine checked_lastSave (fun d hd hK => ⟨state, hK.2,
    .own hsame (open_of_phase (Or.inr hphase)) ?_ nofun⟩) fun _ => trivial
  exact (hK.2.agrees hd).session.symm.trans hcurrent

theorem checked_setupLocalOwnerCreate (auth : Option Text) (email : Text) :
    Checked machine (rules platform) false (fun _ => True) Done
      (setupLocalOwnerCreate platform auth email) := by
  refine checked_locked (Checked.bind (checked_load fun state => ?_))
  refine Checked.bind (Checked.ensure fun _ => ?_)
  refine Checked.bind (checked_read (fun _ _ => rfl) fun _ => ?_)
  refine Checked.bind (Checked.ofExcept fun mode _ => ?_)
  refine Checked.bind (Checked.ensure fun _ => ?_)
  refine Checked.bind (Checked.ensure fun hphase => ?_)
  refine Checked.bind (checked_validateSession fun session hsame hcurrent => ?_)
  refine Checked.bind (Checked.ensure fun _ => ?_)
  refine Checked.bind (checked_now fun now => ?_)
  refine checked_lastSave (fun d hd hK => ⟨state, hK.2, .own hsame (open_of_phase hphase) ?_ nofun⟩)
    fun _ => trivial
  exact (hK.2.agrees hd).session.symm.trans hcurrent

theorem checked_commitSetupOidcPending {stateValue : Text}
    {pending : PendingAuth SetupOidcAuthorization} {a : SetupOidcAuthorization}
    (hsetup : pending.setup = some a) :
    Checked machine (rules platform) false (fun d => Started d.log a) Done
      (commitSetupOidcPending stateValue pending) := by
  refine Checked.bind (checked_required fun a' ha' => ?_)
  obtain rfl := Option.some.inj (hsetup.symm.trans ha')
  refine Checked.bind (checked_decideOn _ fun _ => Checked.locked ?_)
  refine Checked.bind (checked_loadForAuthorization fun state session _ hsame => ?_)
  refine Checked.bind (checked_saveState (P := fun d => Started d.log a)
    (fun d _ hK => ⟨state, hK.1.2, .keep hsame fun _ => ⟨rfl, rfl⟩⟩)
    (fun d _ hK => hK.1.1) (stable_started true a) ?_)
  refine Checked.bind (checked_insertSetup (fun d hK b hb => ?_) fun answer =>
    Checked.ofExcept fun _ _ => ?_)
  · obtain rfl := Option.some.inj (hsetup.symm.trans hb)
    exact hK.2
  · exact ⟨fun _ => True, fun _ _ _ => trivial, Rules.stable_true _ false, trivial⟩

theorem checked_setupOidcStart (auth : Option Text) (redirectUri : Text) :
    Checked machine (rules platform) false (fun _ => True) Done
      (setupOidcStart auth redirectUri) := by
  refine Checked.bind (checked_decideOn _ fun _ => ?_)
  refine Checked.bind (Checked.locked (Checked.bind (checked_load fun state => ?_)))
  refine Checked.bind (Checked.ensure fun _ => ?_)
  refine Checked.bind (Checked.ensure fun hphase => ?_)
  refine Checked.bind (checked_validateSession fun session hsame hcurrent => ?_)
  refine Checked.bind (checked_required fun record hrecord => ?_)
  refine Checked.bind (checked_loadModes fun modes => ?_)
  refine Checked.bind (Checked.ensure fun _ => ?_)
  refine Checked.bind (checked_oidcConfigFromStateFile ?_)
  refine Checked.bind (checked_setupGeneration fun generation => ?_)
  refine Checked.bind (checked_required fun a ha => ?_)
  have hfields : a.generation = generation ∧ a.sessionHash = record.hash := by
    obtain ⟨oidc, _, rfl⟩ := Option.map_eq_some_iff.mp ha
    exact ⟨rfl, rfl⟩
  have hstart : ∀ d, Inv platform d → ((True ∧ Loaded state d) ∧
      d.auth.setupGeneration = generation) → currentSession d.log = some a.sessionHash ∧
        a.generation = invalidations d.log := by
    rintro d hd ⟨⟨_, hloaded⟩, hgeneration⟩
    refine ⟨?_, hfields.1.trans (hgeneration.symm.trans hd.generation)⟩
    rw [← (hloaded.agrees hd).session, ← hsame, hfields.2]
    exact congrArg (Option.map _) hrecord
  refine Checked.bind (checked_saveState (P := fun d => Started d.log a)
    (fun d hd hK => ⟨state, hK.1.2, .start hsame (hstart d hd hK).1 (hstart d hd hK).2⟩)
    (fun d hd hK => ⟨[], d.log, rfl, (hstart d hd hK).2⟩) (stable_started true a) ?_)
  refine Checked.pure ⟨fun d => Started d.log a, fun _ _ hK => hK.2, stable_started false a, ?_⟩
  refine Checked.bind (checked_read (fun _ _ => rfl) fun _ => ?_)
  refine Checked.bind (Checked.ofExcept fun _ _ => ?_)
  refine Checked.bind (checked_fresh fun stateValue => ?_)
  refine Checked.bind (checked_now fun createdAt => ?_)
  exact checked_commitSetupOidcPending rfl

/-- The callback is checked, and what is known of its sign-in stays known. -/
theorem checked_validateSetupOidcCallback {a : SetupOidcAuthorization} {redirectUri : Text}
    {Q : Unit → (Daemon → Prop) → Prop} (h : Q () fun d => Started d.log a) :
    Checked machine (rules platform) false (fun d => Started d.log a) Q
      (validateSetupOidcCallback a redirectUri) := by
  refine Checked.bind (checked_decideOn _ fun _ => Checked.locked ?_)
  refine Checked.bind (checked_loadForAuthorization fun state session _ hsame => ?_)
  refine Checked.bind (checked_oidcConfigFromStateFile ?_)
  refine checked_saveState (P := fun d => Started d.log a)
    (fun d _ hK => ⟨state, hK.1.2, .keep hsame fun _ => ⟨rfl, rfl⟩⟩) (fun d _ hK => hK.1.1)
    (stable_started true a) ?_
  exact ⟨fun d => Started d.log a, fun _ _ hK => hK.2, stable_started false a, h⟩

/-- The owner of a sign-in that still stands. -/
theorem checked_commitSetupOidcOwner {a : SetupOidcAuthorization}
    {redirectUri email subject : Text} :
    Checked machine (rules platform) false (fun d => Started d.log a) Done
      (commitSetupOidcOwner a redirectUri email subject) := by
  refine Checked.bind (checked_decideOn _ fun _ => Checked.locked ?_)
  refine Checked.bind (checked_loadForAuthorization fun state session hstands hsame => ?_)
  refine Checked.bind (checked_now fun now => ?_)
  have hholds : ∀ d, Inv platform d → (Started d.log a ∧ Loaded state d) ∧
      d.auth.setupGeneration = a.generation →
        ∀ owner, (Authority.oidc a).Holds d.log owner := by
    rintro d hd ⟨⟨hstarted, hloaded⟩, hgeneration⟩ owner
    refine ⟨(hloaded.agrees hd).session.symm.trans hstands.session, hstarted.standing ?_⟩
    exact hgeneration.symm.trans hd.generation
  refine Checked.bind (checked_lastSave (fun d hd hK => ⟨state, hK.1.2,
    .own hsame (open_of_phase (Or.inr hstands.phase)) (hholds d hd hK _) ?_⟩) fun K => ?_)
  · intro b hb
    obtain rfl := Authority.oidc.inj hb
    exact hstands.oidc
  · refine checked_invalidateSetup ?_
    exact ⟨fun _ => True, fun _ _ _ => trivial, Rules.stable_true _ false, trivial⟩

theorem checked_setupOidcVerify (stateValue : Text) :
    Checked machine (rules platform) false (fun _ => True) Done (setupOidcVerify stateValue) := by
  refine Checked.bind (Checked.locked (Checked.bind (checked_load fun state => Checked.ensure
    fun _ => ⟨fun _ => True, fun _ _ _ => trivial, Rules.stable_true _ false, ?_⟩)))
  refine Checked.bind (checked_takePending fun found => ?_)
  refine Checked.bind (checked_required fun pending hpending => ?_)
  refine Checked.bind (checked_now fun checked => ?_)
  refine Checked.bind (Checked.ensure fun _ => ?_)
  refine Checked.bind (checked_required fun a ha => ?_)
  refine Checked.weaken (L := fun d => Started d.log a) (stable_started false a)
    (fun d _ hK => hK.2 pending hpending a ha) (fun _ _ => trivial) ?_
  refine Checked.bind (checked_validateSetupOidcCallback ?_)
  refine Checked.bind (checked_read (fun _ _ => rfl) fun _ => ?_)
  refine Checked.bind (Checked.ofExcept fun who _ => ?_)
  exact checked_commitSetupOidcOwner

theorem checked_checkAccess {state : SetupStateFile} {Q : Unit → (Daemon → Prop) → Prop}
    (h : Q () K) : Checked machine (rules platform) holds K Q (checkAccess platform state) := by
  refine Checked.bind (checked_loadModes fun modes => ?_)
  obtain ⟨mode, remote⟩ := modes
  refine Checked.ite (fun _ => ?_) fun _ => Checked.pure h
  cases remote with
  | oidc => exact Checked.ensure fun _ => h
  | trustedProxy =>
    refine Checked.bind (checked_read (fun _ _ => rfl) fun _ => ?_)
    refine Checked.bind (Checked.ofExcept fun settings _ => ?_)
    exact Checked.bind (checked_required fun settings _ => Checked.ensure fun _ => h)

/-- The owner is a user after it. -/
theorem checked_upsertOwnerUser {state : SetupStateFile} {owner : OwnerRecord}
    {Q : Unit → (Daemon → Prop) → Prop} (hK : ∀ d, K d → Loaded state d)
    (h : Q () fun d => Loaded state d ∧ HasUser d.users owner.email) :
    Checked machine (rules platform) true K Q (upsertOwnerUser owner) := by
  refine Checked.bind (checked_fresh fun id => ?_)
  exact Checked.bind (checked_upsertOwner hK (Checked.pure h) fun e => Checked.throw e)

theorem sameOwner_fill (owner : OwnerRecord) :
    SameOwner platform .ready owner (owner.fill platform) := by
  refine ⟨rfl, Or.inl rfl, fun subject hsubject _ => ?_⟩
  show some (owner.oidcSubject.getD _) = some subject
  rw [hsubject]
  rfl

theorem sameOwner_autoOwner (owner : OwnerRecord) (t : ℤ) :
    SameOwner platform .ready owner (autoOwner platform (some owner) t) := by
  refine ⟨rfl, Or.inr ⟨rfl, ?_⟩, fun subject hsubject hblank => ?_⟩
  · show ((some _).filter _).getD _ = autoEmail platform owner.email
    unfold autoEmail
    by_cases hempty : platform.lowercase (trim owner.email) = [] <;>
      simp [Option.filter, hempty]
  · show some (((some owner).bind _ |>.filter _).getD _) = some subject
    simp [hsubject, Option.filter, hblank]

theorem checked_completeSetup (auth : Option Text) :
    Checked machine (rules platform) false (fun _ => True) Done (completeSetup platform auth) := by
  refine checked_locked (Checked.bind (checked_load fun state => ?_))
  refine Checked.bind (Checked.ensure fun hready => ?_)
  refine Checked.bind (Checked.ensure fun hphase => ?_)
  refine Checked.bind (checked_validateSession fun session _ _ => ?_)
  refine Checked.bind (checked_checkAccess ?_)
  refine Checked.bind (checked_now fun now => ?_)
  cases howner : state.owner with
  | none =>
    -- There is an owner in this phase.
    refine Checked.bind (Checked.pure (checked_lastSave (fun d hd hK => ?_) fun _ => trivial))
    have hsome := (hK.2.agrees hd).phase.mpr (Or.inl hphase)
    rw [howner] at hsome
    cases hsome
  | some owner =>
    refine Checked.bind (checked_upsertOwnerUser (fun d hK => hK.2) ?_)
    exact checked_lastSave (fun d _ hK => ⟨state, hK.1,
      .complete hready howner (sameOwner_fill owner) hK.2⟩) fun _ => trivial

theorem checked_autoComplete {state : SetupStateFile} (hready : state.setupState ≠ .ready)
    (hK : ∀ d, K d → Loaded state d) :
    Checked machine (rules platform) true K Done
      (autoCompleteLocalSetupIfNeeded platform state) := by
  refine Checked.bind (checked_now fun now => ?_)
  refine Checked.bind (checked_upsertOwnerUser hK ?_)
  refine checked_lastSave (fun d _ hloaded => ⟨state, hloaded.1, ?_⟩) fun _ => trivial
  cases howner : state.owner with
  | none =>
    rw [howner] at hloaded
    exact .autoComplete hready howner rfl hloaded.2
  | some owner =>
    rw [howner] at hloaded
    exact .complete hready howner (sameOwner_autoOwner owner now) hloaded.2

theorem checked_localLogin (loopback : Bool) :
    Checked machine (rules platform) false (fun _ => True) Done (localLogin platform loopback) := by
  refine checked_locked (Checked.bind (checked_load fun state => ?_))
  refine Checked.bind (checked_read (fun _ _ => rfl) fun _ => ?_)
  refine Checked.bind (Checked.ofExcept fun mode _ => ?_)
  refine Checked.bind (Checked.ensure fun _ => ?_)
  refine Checked.ite (fun hready => ?_) fun _ => Checked.pure trivial
  refine Checked.bind (Checked.ensure fun _ => ?_)
  exact checked_autoComplete hready fun d hK => hK.2

theorem checked_configureExternalAccessOidc (issuerUrl clientId : Text)
    (clientSecret : Option Text) :
    Checked machine (rules platform) false (fun _ => True) Done
      (configureExternalAccessOidc issuerUrl clientId clientSecret) := by
  refine Checked.bind (checked_now fun now => ?_)
  refine Checked.bind (checked_read (fun _ _ => rfl) fun _ => ?_)
  refine Checked.bind (Checked.ofExcept fun found _ => ?_)
  refine Checked.bind (Checked.locked (Checked.bind (checked_load fun state => ?_)))
  refine Checked.bind (Checked.ensure fun hready => ?_)
  refine Checked.bind (Checked.ensure fun _ => ?_)
  refine Checked.bind (checked_storedSecret fun secret => ?_)
  have hphase : state.setupState ≠ .ownerCreated := by
    rw [hready]
    nofun
  refine checked_lastSave (fun d _ hK => ⟨state, hK.2, .keep rfl fun howner =>
    absurd howner hphase⟩) fun K => ?_
  exact ⟨fun _ => True, fun _ _ _ => trivial, Rules.stable_true _ false,
    checked_clearPending trivial⟩

theorem checked_handle (request : Request) :
    Checked machine (rules platform) false (fun _ => True) Done (handle platform request) := by
  cases request with
  | verifyBootstrapToken requestHash => exact checked_verifyBootstrapToken requestHash
  | configureOidc auth req => exact checked_configureOidc auth req
  | setupPreferences auth mode remote => exact checked_setupPreferences auth mode remote
  | setupTrustedProxyConfigure auth req => exact checked_setupTrustedProxyConfigure auth req
  | setupOwnerClaimTrustedProxy auth => exact checked_setupOwnerClaimTrustedProxy auth
  | setupOidcStart auth redirectUri => exact checked_setupOidcStart auth redirectUri
  | setupOidcVerify stateValue => exact checked_setupOidcVerify stateValue
  | setupLocalOwnerCreate auth email => exact checked_setupLocalOwnerCreate auth email
  | completeSetup auth => exact checked_completeSetup auth
  | setupSummary auth => exact checked_setupSummary auth
  | localLogin loopback => exact checked_localLogin loopback
  | configureExternalAccessOidc issuerUrl clientId clientSecret =>
    exact checked_configureExternalAccessOidc issuerUrl clientId clientSecret
  | mintBootstrapToken ttlSecs =>
    refine Checked.bind (Checked.ensure fun _ => ?_)
    exact Checked.bind (checked_mint fun _ => Checked.ofExcept fun _ _ => trivial)
  | updatePreferences mode remote =>
    exact Checked.bind (checked_updatePreferences fun _ => Checked.ofExcept fun _ _ => trivial)
  | publicAuth op => exact checked_publicAuth trivial

end Requests

/-! ## Runs -/

theorem sound (platform : Platform) : Sound machine (rules platform) (start platform) where
  start request := (checked_handle request).run
  restart _ hd := hd.invalidate rfl fun _ hrow => (List.not_mem_nil hrow).elim

theorem inv_new (platform : Platform) (instanceId : Text) (now : ℤ) (mode : RuntimeMode)
    (remote : RemoteAuthMode) : Inv platform (.new instanceId now mode remote) where
  justified := trivial
  generation := rfl
  pending := nofun
  token := nofun
  agrees :=
    { session := rfl
      owner := nofun
      noOwner := nofun
      phase := iff_of_false nofun (by rintro (h | h) <;> cases h)
      ready := iff_of_false nofun (by rintro ⟨e, he, _⟩; cases he)
      oidc := nofun }
  user := nofun

/-- A run from a new instance. -/
def runFrom (platform : Platform) (instanceId : Text) (now : ℤ) (mode : RuntimeMode)
    (remote : RemoteAuthMode) (events : List (Interleave.Event Request Draw)) :
    Option (Interleave.Config (Shared Daemon) (Call Ans (Except Text Unit))) :=
  (server platform).run ⟨⟨.new instanceId now mode remote, false⟩, []⟩ events

/-- The phase of the setup never goes back, in any run of requests side by side. An owner that was
recorded stays, up to the spelling of its email when a local login completes the setup, and the
owner of a setup that is completed does not change any more. -/
theorem setup_goes_forward (platform : Platform) {instanceId : Text} {now : ℤ} {mode : RuntimeMode}
    {remote : RemoteAuthMode} {before after : List (Interleave.Event Request Draw)}
    {c c' : Interleave.Config (Shared Daemon) (Call Ans (Except Text Unit))}
    (hbefore : runFrom platform instanceId now mode remote before = some c)
    (hafter : (server platform).run c after = some c') :
    Forward platform c.shared.state.row c'.shared.state.row := by
  refine (sound platform).rel_run (R := fun d d' => Forward platform d.row d'.row)
    (fun d => forward_refl d.row) (fun _ _ _ h h' => h.trans h') (fun holds d d' _ hmay => ?_)
    (fun d _ => forward_refl d.row) (inv_new platform instanceId now mode remote) hbefore hafter
  unfold Rules.may at hmay
  split_ifs at hmay
  · exact hmay.2
  · exact hmay.forward

/-- The answers of an environment that fails nothing. -/
def draw : Draw where
  now := 5
  text := "h"
  provider := ⟨"https://idp", "https://idp/a", "https://idp/t", none, "https://idp/j"⟩
  identity := ("owner@example.com", "subject")

/-- A request alone, to its end. -/
def serve (request : Request) (steps : ℕ) : List (Interleave.Event Request Draw) :=
  .enter request :: List.replicate steps (.advance 0 draw)

/-- A setup through the identity provider, up to its owner. -/
def oidcSetup : List (Interleave.Event Request Draw) :=
  serve (.mintBootstrapToken 600) 2 ++ serve (.verifyBootstrapToken "h") 9 ++
    serve (.configureOidc (some "h") ⟨"https://idp", "client", none, false⟩) 15 ++
      serve (.setupOidcStart (some "h") "https://ui") 25 ++ serve (.setupOidcVerify "h") 29

/-- The names of the inputs are lowercase, and the URLs are URLs. -/
def plainPlatform : Platform := ⟨id, some, fun _ => true⟩

theorem setup_goes_forward_to_ready : ∃ c c',
    runFrom plainPlatform "i" 0 .remote .oidc oidcSetup = some c ∧
      (server plainPlatform).run c (serve (.completeSetup (some "h")) 12) = some c' ∧
        c'.shared.state.row.setupState = .ready ∧
          Forward plainPlatform c.shared.state.row c'.shared.state.row :=
  ⟨_, _, rfl, rfl, rfl, @setup_goes_forward plainPlatform "i" 0 .remote .oidc oidcSetup
    (serve (.completeSetup (some "h")) 12) _ _ rfl rfl⟩

/-- Whatever the setup record says is justified by what happened before, in any run: a session was
opened with a bootstrap token that was minted, had not expired and had not opened one for each time
it was minted; the owner is recorded once, on behalf of the current session, and through the
identity provider only by a sign-in that the session started and that no change of the settings
has made void; a completed setup has the owner as an active user. The one owner that no session
stands for is `owner@local`: a local login on a Local Only instance without an owner records it and
completes the setup, whether or not a session was ever opened. -/
theorem setup_is_authorised (platform : Platform) {instanceId : Text} {now : ℤ} {mode : RuntimeMode}
    {remote : RemoteAuthMode} {events : List (Interleave.Event Request Draw)}
    {c : Interleave.Config (Shared Daemon) (Call Ans (Except Text Unit))}
    (hrun : runFrom platform instanceId now mode remote events = some c) :
    Justified c.shared.state.log ∧ Agrees platform c.shared.state.row c.shared.state.log ∧
      (c.shared.state.row.setupState = .ready → ∃ owner, c.shared.state.row.owner = some owner ∧
        HasUser c.shared.state.users owner.email) := by
  have hinv := (sound platform).inv_run (inv_new platform instanceId now mode remote) hrun
  exact ⟨hinv.justified, hinv.agrees, hinv.user⟩

theorem setup_is_authorised_to_ready : ∃ c,
    runFrom plainPlatform "i" 0 .remote .oidc
        (oidcSetup ++ serve (.completeSetup (some "h")) 12) = some c ∧
      c.shared.state.row.setupState = .ready ∧
        Justified c.shared.state.log ∧ Agrees plainPlatform c.shared.state.row c.shared.state.log ∧
          (c.shared.state.row.setupState = .ready → ∃ owner,
            c.shared.state.row.owner = some owner ∧ HasUser c.shared.state.users owner.email) :=
  ⟨_, rfl, rfl, @setup_is_authorised plainPlatform "i" 0 .remote .oidc
    (oidcSetup ++ serve (.completeSetup (some "h")) 12) _ rfl⟩

-- A local login completes the setup of a new Local Only instance, with no session before it.
example : ∃ c owner,
    runFrom plainPlatform "i" 0 .localOnly .oidc (serve (.localLogin true) 9) = some c ∧
      c.shared.state.log = [.completed, .owned .localLogin owner] ∧
        owner.email = autoLocalOwnerEmail ∧ c.shared.state.row.setupState = .ready :=
  ⟨_, _, rfl, rfl, rfl, rfl⟩

end Setup

end OoreBuild
