import OoreBuild.SetupProtocol

/-!
# What every setup request keeps

The setup record and the log agree in every state: the session of the record is the one opened
last, an owner is there once the log has recorded one, and a bootstrap token that is not consumed
has opened fewer sessions than it was minted for. A request knows the record that it loaded while it
holds the mutex: the only other write is that of a new bootstrap token.
-/

namespace OoreBuild

namespace Setup

open Text Guarded PendingAuths

variable (platform : Platform)

/-! ## The record and the log -/

def SetupState.rank : SetupState → ℕ
  | .uninitialized => 0
  | .bootstrapPending => 1
  | .idpConfigured => 2
  | .ownerCreated => 3
  | .ready => 4

/-- The email that a local login leaves an owner with. -/
def autoEmail (email : Text) : Text :=
  let email := platform.lowercase (trim email)
  if email = [] then autoLocalOwnerEmail else email

/-- The same owner; a setup that a local login completed may have normalised the email. -/
def SameOwner (state : SetupState) (o o' : OwnerRecord) : Prop :=
  o'.createdAt = o.createdAt ∧
    (o'.email = o.email ∨ state = .ready ∧ o'.email = autoEmail platform o.email) ∧
      ∀ subject, o.oidcSubject = some subject → trim subject ≠ [] → o'.oidcSubject = some subject

/-- What a record never loses. -/
structure Forward (row row' : SetupStateFile) : Prop where
  instanceId : row'.instanceId = row.instanceId
  rank : row.setupState.rank ≤ row'.setupState.rank
  owner : ∀ o, row.owner = some o →
    ∃ o', row'.owner = some o' ∧ SameOwner platform row'.setupState o o'
  ready : row.setupState = .ready → row'.owner = row.owner

/-- The record agrees with the log. -/
structure Agrees (row : SetupStateFile) (log : List Entry) : Prop where
  session : row.setupSession.map (·.hash) = currentSession log
  owner : ∀ o, row.owner = some o →
    ∃ authority o', .owned authority o' ∈ log ∧ SameOwner platform row.setupState o' o
  noOwner : row.owner = none → ∀ e ∈ log, e.isOwned = false
  phase : row.owner.isSome ↔ row.setupState = .ownerCreated ∨ row.setupState = .ready
  ready : row.setupState = .ready ↔ ∃ e ∈ log, e.isCompleted = true
  /-- Until the setup is completed the OIDC settings are those that the owner signed in with. -/
  oidc : ∀ a o, .owned (.oidc a) o ∈ log → row.setupState = .ownerCreated →
    row.oidcConfig = some a.oidc ∧ row.oidcSecret = a.secret

/-- A token of the record was minted, and may open a session while it is not consumed. -/
def TokenOk (log : List Entry) (token : Option BootstrapTokenRecord) : Prop :=
  ∀ t, token = some t → .minted t.hash t.expiresAt ∈ log ∧
    (t.consumedAt = none → log.countP (Entry.opens t.hash) < log.countP (Entry.mints t.hash))

def invalidations (log : List Entry) : ℕ := log.countP Entry.isInvalidated

/-- The sign-in was started under the generation of that time. -/
def Started (log : List Entry) (a : SetupOidcAuthorization) : Prop :=
  ∃ later earlier, log = later ++ .started a :: earlier ∧ a.generation = invalidations earlier

/-- The owner is an active user of the role owner. -/
def HasUser (users : List UserRow) (email : Text) : Prop :=
  ∃ user ∈ users, user.email = email ∧ user.role = ("owner" : Text) ∧
    user.status = ("active" : Text)

structure Inv (d : Daemon) : Prop where
  justified : Justified d.log
  generation : d.auth.setupGeneration = invalidations d.log
  pending : ∀ row ∈ d.auth.pending, ∀ a, row.2.setup = some a → Started d.log a
  token : TokenOk d.log d.row.bootstrapToken
  agrees : Agrees platform d.row d.log
  user : d.row.setupState = .ready → ∃ o, d.row.owner = some o ∧ HasUser d.users o.email

/-! ## The guarantees -/

/-- The log only grows. -/
def Grows (log log' : List Entry) : Prop := ∃ new, log' = new ++ log

/-- Entries of new tokens. -/
def Mints (new : List Entry) : Prop :=
  ∀ e ∈ new, ∃ tokenHash expiresAt, e = .minted tokenHash expiresAt

/-- What a statement without the mutex does: to the record at most a new bootstrap token. -/
structure Quiet (d d' : Daemon) : Prop where
  row : d'.row =
    { d.row with bootstrapToken := d'.row.bootstrapToken, updatedAt := d'.row.updatedAt }
  log : ∃ new, d'.log = new ++ d.log ∧ Mints new
  users : d'.users = d.users
  generation : d'.auth.setupGeneration = d.auth.setupGeneration

def rules : Rules Daemon where
  inv := Inv platform
  inside d d' := Grows d.log d'.log ∧ Forward platform d.row d'.row
  outside := Quiet

variable {platform}

/-! ## Logs -/

section Log

variable {log log' new : List Entry} {a : SetupOidcAuthorization}

theorem Grows.refl (log : List Entry) : Grows log log := ⟨[], rfl⟩

theorem Grows.started (h : Grows log log') (ha : Started log a) : Started log' a := by
  obtain ⟨new, rfl⟩ := h
  obtain ⟨later, earlier, rfl, hgeneration⟩ := ha
  exact ⟨new ++ later, earlier, (List.append_assoc _ _ _).symm, hgeneration⟩

/-- A sign-in of the present generation still stands. -/
theorem Started.standing (h : Started log a) (hgeneration : a.generation = invalidations log) :
    Standing log a := by
  obtain ⟨later, earlier, rfl, hstart⟩ := h
  refine ⟨later, earlier, rfl, fun e he => ?_⟩
  have hcount : invalidations (later ++ .started a :: earlier) =
      later.countP Entry.isInvalidated + invalidations earlier := List.countP_append
  have hzero : later.countP Entry.isInvalidated = 0 := by omega
  exact Bool.eq_false_iff.mpr (List.countP_eq_zero.mp hzero e he)

theorem Mints.induct {P : List Entry → Prop} (h : Mints new) (hlog : P log)
    (hstep : ∀ tokenHash expiresAt log, P log → P (.minted tokenHash expiresAt :: log)) :
    P (new ++ log) := by
  induction new with
  | nil => exact hlog
  | cons e new ih =>
    obtain ⟨tokenHash, expiresAt, rfl⟩ := h e List.mem_cons_self
    exact hstep _ _ _ (ih fun e he => h e (List.mem_cons_of_mem _ he))

theorem Mints.tokenOk {token : Option BootstrapTokenRecord} (h : Mints new)
    (htoken : TokenOk log token) : TokenOk (new ++ log) token := by
  refine h.induct (P := fun log => TokenOk log token) htoken fun tokenHash expiresAt log ih => ?_
  intro t ht
  obtain ⟨hmem, hcount⟩ := ih t ht
  refine ⟨List.mem_cons_of_mem _ hmem, fun hfree => ?_⟩
  have hopens : (Entry.minted tokenHash expiresAt :: log).countP (Entry.opens t.hash) =
      log.countP (Entry.opens t.hash) := List.countP_cons_of_neg (by simp [Entry.opens])
  rw [hopens]
  exact (hcount hfree).trans_le ((List.sublist_cons_self _ _).countP_le)

end Log

/-! ## Knowledge -/

section Knowledge

variable {d d' : Daemon} {state state' : SetupStateFile}

/-- What a holder of the mutex knows of the record that it loaded. -/
structure Loaded (state : SetupStateFile) (d : Daemon) : Prop where
  row : d.row = { state with bootstrapToken := d.row.bootstrapToken, updatedAt := d.row.updatedAt }
  token : TokenOk d.log state.bootstrapToken

theorem quiet_refl (d : Daemon) : Quiet d d := ⟨rfl, ⟨[], rfl, nofun⟩, rfl, rfl⟩

theorem Quiet.grows (h : Quiet d d') : Grows d.log d'.log := by
  obtain ⟨new, hnew, _⟩ := h.log
  exact ⟨new, hnew⟩

theorem Quiet.loaded (h : Quiet d d') (hloaded : Loaded state d) : Loaded state d' where
  row := by
    have hrow := hloaded.row
    rw [h.row, hrow]
  token := by
    obtain ⟨new, hnew, hmints⟩ := h.log
    rw [hnew]
    exact Mints.tokenOk hmints hloaded.token

theorem Quiet.started (h : Quiet d d') {a : SetupOidcAuthorization} (ha : Started d.log a) :
    Started d'.log a := h.grows.started ha

theorem sameOwner_refl (state : SetupState) (o : OwnerRecord) : SameOwner platform state o o :=
  ⟨rfl, Or.inl rfl, fun _ h _ => h⟩

theorem forward_refl (row : SetupStateFile) : Forward platform row row :=
  ⟨rfl, le_rfl, fun o ho => ⟨o, ho, sameOwner_refl _ o⟩, fun _ => rfl⟩

theorem Quiet.forward (h : Quiet d d') : Forward platform d.row d'.row := by
  rw [h.row]
  exact ⟨rfl, le_rfl, fun o ho => ⟨o, ho, sameOwner_refl _ o⟩, fun _ => rfl⟩

theorem eq_ready_of_rank {state : SetupState} (h : SetupState.ready.rank ≤ state.rank) :
    state = .ready := by
  cases state <;> first | rfl | exact absurd h (by decide)

theorem Forward.trans {row mid row' : SetupStateFile} (h : Forward platform row mid)
    (h' : Forward platform mid row') : Forward platform row row' where
  instanceId := h'.instanceId.trans h.instanceId
  rank := h.rank.trans h'.rank
  owner o ho := by
    obtain ⟨o₁, ho₁, hcreated₁, hemail₁, hsubject₁⟩ := h.owner o ho
    by_cases hready : mid.setupState = .ready
    · have hready' : row'.setupState = .ready := eq_ready_of_rank (hready ▸ h'.rank)
      refine ⟨o₁, (h'.ready hready).trans ho₁, hcreated₁, ?_, hsubject₁⟩
      rw [hready']
      rwa [hready] at hemail₁
    · obtain ⟨o₂, ho₂, hcreated₂, hemail₂, hsubject₂⟩ := h'.owner o₁ ho₁
      have hemail := hemail₁.resolve_right fun hauto => hready hauto.1
      refine ⟨o₂, ho₂, hcreated₂.trans hcreated₁, ?_, fun subject hsubject hblank => ?_⟩
      · rwa [hemail] at hemail₂
      · exact hsubject₂ subject (hsubject₁ subject hsubject hblank) hblank
  ready hready := by
    have hmid : mid.setupState = .ready := eq_ready_of_rank (hready ▸ h.rank)
    exact (h'.ready hmid).trans (h.ready hready)

/-- The record agrees with the log whatever its bootstrap token is. -/
theorem Agrees.congr {row row' : SetupStateFile} {log : List Entry} (h : Agrees platform row log)
    (hrow : row' =
      { row with bootstrapToken := row'.bootstrapToken, updatedAt := row'.updatedAt }) :
    Agrees platform row' log := by
  rw [hrow]
  exact ⟨h.session, h.owner, h.noOwner, h.phase, h.ready, h.oidc⟩

/-- An entry that opens no session, records no owner and completes nothing. -/
theorem Agrees.cons {row : SetupStateFile} {log : List Entry} {e : Entry}
    (h : Agrees platform row log) (hsession : currentSession (e :: log) = currentSession log)
    (howned : e.isOwned = false) (hdone : e.isCompleted = false) :
    Agrees platform row (e :: log) where
  session := h.session.trans hsession.symm
  owner o ho := by
    obtain ⟨authority, o', hmem, hsame⟩ := h.owner o ho
    exact ⟨authority, o', List.mem_cons_of_mem _ hmem, hsame⟩
  noOwner hnone := List.forall_mem_cons.mpr ⟨howned, h.noOwner hnone⟩
  phase := h.phase
  ready := h.ready.trans (by simp [hdone])
  oidc a o hmem := by
    refine h.oidc a o ((List.mem_cons.mp hmem).resolve_left ?_)
    rintro rfl
    cases howned

/-- The session of the record may live longer. -/
theorem Agrees.withSession {row : SetupStateFile} {log : List Entry} (h : Agrees platform row log)
    {session : Option SetupSessionRecord}
    (hsession : session.map (·.hash) = row.setupSession.map (·.hash)) :
    Agrees platform { row with setupSession := session } log :=
  ⟨hsession.trans h.session, h.owner, h.noOwner, h.phase, h.ready, h.oidc⟩

theorem Loaded.agrees (hloaded : Loaded state d) (h : Inv platform d) :
    Agrees platform state d.log := by
  refine h.agrees.congr ?_
  rw [hloaded.row]

end Knowledge

/-! ## What a save changes -/

/-- There is no owner yet. -/
def SetupState.Open (state : SetupState) : Prop := state ≠ .ownerCreated ∧ state ≠ .ready

theorem open_of_phase {state : SetupState}
    (h : state = .bootstrapPending ∨ state = .idpConfigured) : state.Open := by
  rcases h with rfl | rfl
  · exact ⟨nofun, nofun⟩
  · exact ⟨nofun, nofun⟩

/-- The record that a save writes for the one that was loaded, and what the log notes of it. -/
inductive Changes (platform : Platform) (log : List Entry) (users : List UserRow)
    (state : SetupStateFile) : SetupStateFile → List Entry → Prop
  | keep {session : Option SetupSessionRecord} {config : Option OidcConfigRecord}
      {secret : Option OidcSecretRecord} {updatedAt : ℤ}
      (hsession : session.map (·.hash) = state.setupSession.map (·.hash))
      (hoidc : state.setupState = .ownerCreated →
        config = state.oidcConfig ∧ secret = state.oidcSecret) :
      Changes platform log users state
        { state with
          setupSession := session
          oidcConfig := config
          oidcSecret := secret
          updatedAt := updatedAt } []
  | start {session : Option SetupSessionRecord} {a : SetupOidcAuthorization}
      (hsession : session.map (·.hash) = state.setupSession.map (·.hash))
      (hstart : currentSession log = some a.sessionHash)
      (hgeneration : a.generation = invalidations log) :
      Changes platform log users state { state with setupSession := session } [.started a]
  | consume {token : BootstrapTokenRecord} {session : SetupSessionRecord}
      {consumedAt checkedAt updatedAt : ℤ} (htoken : state.bootstrapToken = some token)
      (hfree : token.consumedAt = none) (hlive : checkedAt ≤ token.expiresAt) :
      Changes platform log users state
        { state with
          bootstrapToken := some { token with consumedAt := some consumedAt }
          setupSession := some session
          updatedAt := updatedAt } [.opened token.hash session.hash checkedAt]
  | configure {session : Option SetupSessionRecord} {config : Option OidcConfigRecord}
      {secret : Option OidcSecretRecord} {updatedAt : ℤ}
      (hsession : session.map (·.hash) = state.setupSession.map (·.hash))
      (hphase : state.setupState.Open) :
      Changes platform log users state
        { state with
          setupState := .idpConfigured
          setupSession := session
          oidcConfig := config
          oidcSecret := secret
          updatedAt := updatedAt } []
  | own {session : Option SetupSessionRecord} {authority : Authority} {owner : OwnerRecord}
      {updatedAt : ℤ} (hsession : session.map (·.hash) = state.setupSession.map (·.hash))
      (hphase : state.setupState.Open)
      (hholds : authority.Holds log owner)
      (hoidc : ∀ a, authority = .oidc a →
        state.oidcConfig = some a.oidc ∧ state.oidcSecret = a.secret) :
      Changes platform log users state
        { state with
          setupState := .ownerCreated
          setupSession := session
          owner := some owner
          updatedAt := updatedAt } [.owned authority owner]
  | complete {owner owner' : OwnerRecord} {updatedAt : ℤ} (hphase : state.setupState ≠ .ready)
      (howner : state.owner = some owner) (hsame : SameOwner platform .ready owner owner')
      (huser : HasUser users owner'.email) :
      Changes platform log users state
        { state with
          setupState := .ready
          setupSession := none
          owner := some owner'
          updatedAt := updatedAt } [.completed]
  | autoComplete {owner : OwnerRecord} {updatedAt : ℤ} (hphase : state.setupState ≠ .ready)
      (hnone : state.owner = none) (hemail : owner.email = autoLocalOwnerEmail)
      (huser : HasUser users owner.email) :
      Changes platform log users state
        { state with
          setupState := .ready
          setupSession := none
          owner := some owner
          updatedAt := updatedAt } [.completed, .owned .localLogin owner]

section Changes

variable {d : Daemon} {state state' : SetupStateFile} {log notes : List Entry}
  {users : List UserRow}

theorem owner_eq_none_of_open (h : Agrees platform state log) (hopen : state.setupState.Open) :
    state.owner = none := by
  have hnone : ¬ state.owner.isSome := by
    rw [h.phase]
    rintro (hphase | hphase)
    · exact hopen.1 hphase
    · exact hopen.2 hphase
  simpa using hnone

theorem forall_not_completed (h : Agrees platform state log) (hphase : state.setupState ≠ .ready) :
    ∀ e ∈ log, e.isCompleted = false := fun e he =>
  Bool.eq_false_iff.mpr fun hdone => hphase (h.ready.mpr ⟨e, he, hdone⟩)

theorem rank_le_ready (state : SetupState) : state.rank ≤ SetupState.ready.rank := by
  cases state <;> decide

theorem SetupState.Open.rank_le {state : SetupState} (h : state.Open) :
    state.rank ≤ SetupState.idpConfigured.rank := by
  cases state with
  | uninitialized => exact Nat.zero_le 2
  | bootstrapPending => exact Nat.le_succ 1
  | idpConfigured => exact le_rfl
  | ownerCreated => exact absurd rfl h.1
  | ready => exact absurd rfl h.2

theorem rank_idpConfigured_le : SetupState.idpConfigured.rank ≤ SetupState.ownerCreated.rank := by
  decide

theorem Changes.forward (h : Changes platform log users state state' notes)
    (hagrees : Agrees platform state log) : Forward platform state state' := by
  cases h with
  | keep => exact ⟨rfl, le_rfl, fun o ho => ⟨o, ho, sameOwner_refl _ o⟩, fun _ => rfl⟩
  | start => exact ⟨rfl, le_rfl, fun o ho => ⟨o, ho, sameOwner_refl _ o⟩, fun _ => rfl⟩
  | consume => exact ⟨rfl, le_rfl, fun o ho => ⟨o, ho, sameOwner_refl _ o⟩, fun _ => rfl⟩
  | configure _ hphase =>
    exact ⟨rfl, hphase.rank_le, fun o ho => ⟨o, ho, sameOwner_refl _ o⟩, fun _ => rfl⟩
  | own _ hphase =>
    have hnone := owner_eq_none_of_open hagrees hphase
    refine ⟨rfl, (hphase.rank_le).trans rank_idpConfigured_le, fun o ho => ?_,
      fun hready => absurd hready (hphase.2)⟩
    rw [hnone] at ho
    cases ho
  | complete hphase howner hsame =>
    refine ⟨rfl, rank_le_ready _, fun o ho => ?_, fun hready => absurd hready hphase⟩
    obtain rfl := Option.some.inj (howner.symm.trans ho)
    exact ⟨_, rfl, hsame⟩
  | autoComplete hphase hnone =>
    refine ⟨rfl, rank_le_ready _, fun o ho => ?_, fun hready => absurd hready hphase⟩
    rw [hnone] at ho
    cases ho

theorem Changes.invalidations (h : Changes platform log users state state' notes) :
    invalidations (notes ++ log) = invalidations log := by
  have hcons : ∀ e log, e.isInvalidated = false → Setup.invalidations (e :: log) =
      Setup.invalidations log := fun e log he =>
    List.countP_cons_of_neg (by rw [he]; exact Bool.false_ne_true)
  cases h with
  | keep => rfl
  | start => exact hcons _ _ rfl
  | consume => exact hcons _ _ rfl
  | configure => rfl
  | own => exact hcons _ _ rfl
  | complete => exact hcons _ _ rfl
  | autoComplete => exact (hcons _ _ rfl).trans (hcons _ _ rfl)

/-- An entry that mints and opens nothing leaves what is known of a token. -/
theorem TokenOk.cons {token : Option BootstrapTokenRecord} {e : Entry} (h : TokenOk log token)
    (he : ∀ tokenHash, e.opens tokenHash = false) : TokenOk (e :: log) token := by
  intro t ht
  obtain ⟨hmem, hcount⟩ := h t ht
  refine ⟨List.mem_cons_of_mem _ hmem, fun hfree => ?_⟩
  have hopens : (e :: log).countP (Entry.opens t.hash) = log.countP (Entry.opens t.hash) :=
    List.countP_cons_of_neg (by rw [he]; exact Bool.false_ne_true)
  rw [hopens]
  exact (hcount hfree).trans_le ((List.sublist_cons_self _ _).countP_le)

theorem Changes.tokenOk (h : Changes platform log users state state' notes)
    (htoken : TokenOk log state.bootstrapToken) : TokenOk (notes ++ log) state'.bootstrapToken := by
  cases h with
  | keep => exact htoken
  | start => exact htoken.cons fun _ => rfl
  | consume hsome =>
    intro t ht
    obtain rfl := Option.some.inj ht
    exact ⟨List.mem_cons_of_mem _ (htoken _ hsome).1, nofun⟩
  | configure => exact htoken
  | own => exact htoken.cons fun _ => rfl
  | complete => exact htoken.cons fun _ => rfl
  | autoComplete => exact (htoken.cons fun _ => rfl).cons fun _ => rfl

theorem Changes.justified (h : Changes platform log users state state' notes)
    (hagrees : Agrees platform state log) (htoken : TokenOk log state.bootstrapToken)
    (hlog : Justified log) : Justified (notes ++ log) := by
  cases h with
  | keep => exact hlog
  | start _ hstart => exact ⟨hstart, hlog⟩
  | consume hsome hfree hlive =>
    obtain ⟨hmem, hcount⟩ := htoken _ hsome
    exact ⟨⟨⟨_, hmem, hlive⟩, hcount hfree⟩, hlog⟩
  | configure => exact hlog
  | own _ hphase hholds =>
    exact ⟨⟨hagrees.noOwner (owner_eq_none_of_open hagrees hphase), hholds⟩, hlog⟩
  | complete hphase howner =>
    obtain ⟨authority, o, hmem, _⟩ := hagrees.owner _ howner
    exact ⟨⟨⟨authority, o, hmem⟩, forall_not_completed hagrees hphase⟩, hlog⟩
  | autoComplete hphase hnone hemail =>
    refine ⟨⟨⟨_, _, List.mem_cons_self⟩, ?_⟩, ⟨hagrees.noOwner hnone, hemail⟩, hlog⟩
    exact List.forall_mem_cons.mpr ⟨rfl, forall_not_completed hagrees hphase⟩

/-- The record of a setup that is completed agrees with the log. -/
theorem agrees_completed {owner : OwnerRecord} {updatedAt : ℤ} (hlog : ∃ authority o',
    .owned authority o' ∈ log ∧ SameOwner platform .ready o' owner) :
    Agrees platform
      { state with
        setupState := .ready
        setupSession := none
        owner := some owner
        updatedAt := updatedAt } (.completed :: log) where
  session := rfl
  owner o ho := by
    obtain rfl := Option.some.inj ho
    obtain ⟨authority, o', hmem, hsame⟩ := hlog
    exact ⟨authority, o', List.mem_cons_of_mem _ hmem, hsame⟩
  noOwner hnone := by cases hnone
  phase := iff_of_true rfl (Or.inr rfl)
  ready := iff_of_true rfl ⟨.completed, List.mem_cons_self, rfl⟩
  oidc _ _ _ hphase := by cases hphase

theorem SameOwner.ready {state : SetupState} {o o' : OwnerRecord}
    (h : SameOwner platform state o o') (hstate : state ≠ .ready) {o'' : OwnerRecord}
    (h' : SameOwner platform .ready o' o'') :
    SameOwner platform .ready o o'' := by
  obtain ⟨hcreated, hemail, hsubject⟩ := h
  obtain ⟨hcreated', hemail', hsubject'⟩ := h'
  have hsame : o'.email = o.email := hemail.resolve_right fun hauto => hstate hauto.1
  rw [hsame] at hemail'
  exact ⟨hcreated'.trans hcreated, hemail', fun subject hs hblank =>
    hsubject' subject (hsubject subject hs hblank) hblank⟩

theorem Changes.agrees (h : Changes platform log users state state' notes)
    (hagrees : Agrees platform state log) : Agrees platform state' (notes ++ log) := by
  cases h with
  | keep hsession hoidc =>
    exact
      { session := hsession.trans hagrees.session
        owner := hagrees.owner
        noOwner := hagrees.noOwner
        phase := hagrees.phase
        ready := hagrees.ready
        oidc := fun a o hmem hphase => by
          obtain ⟨rfl, rfl⟩ := hoidc hphase
          exact hagrees.oidc a o hmem hphase }
  | start hsession => exact Agrees.cons (hagrees.withSession hsession) rfl rfl rfl
  | consume =>
    exact
      { session := rfl
        owner := fun o ho => by
          obtain ⟨authority, o', hmem, hsame⟩ := hagrees.owner o ho
          exact ⟨authority, o', List.mem_cons_of_mem _ hmem, hsame⟩
        noOwner := fun hnone => List.forall_mem_cons.mpr ⟨rfl, hagrees.noOwner hnone⟩
        phase := hagrees.phase
        ready := hagrees.ready.trans (by simp [Entry.isCompleted])
        oidc := fun a o hmem => hagrees.oidc a o ((List.mem_cons.mp hmem).resolve_left nofun) }
  | configure hsession hphase =>
    have hnone := owner_eq_none_of_open hagrees hphase
    have hready := hphase.2
    exact
      { session := hsession.trans hagrees.session
        owner := fun o ho => by
          rw [show state.owner = some o from ho] at hnone
          cases hnone
        noOwner := fun _ => hagrees.noOwner hnone
        phase := by
          show state.owner.isSome ↔ _
          rw [hnone]
          exact iff_of_false nofun (by rintro (h | h) <;> cases h)
        ready := iff_of_false nofun fun hdone => hready (hagrees.ready.mpr hdone)
        oidc := fun a o hmem => by
          have hnot := hagrees.noOwner hnone _ hmem
          cases hnot }
  | own hsession hphase _ hoidc =>
    have hnone := owner_eq_none_of_open hagrees hphase
    have hready := hphase.2
    exact
      { session := hsession.trans hagrees.session
        owner := fun o ho => by
          obtain rfl := Option.some.inj ho
          exact ⟨_, _, List.mem_cons_self, sameOwner_refl _ _⟩
        noOwner := by nofun
        phase := iff_of_true rfl (Or.inl rfl)
        ready := by
          refine iff_of_false nofun ?_
          rintro ⟨e, he, hdone⟩
          rcases List.mem_cons.mp he with rfl | he
          · cases hdone
          · exact hready (hagrees.ready.mpr ⟨e, he, hdone⟩)
        oidc := fun a o hmem _ => by
          rcases List.mem_cons.mp hmem with heq | hmem
          · exact hoidc a (Entry.owned.inj heq).1.symm
          · have hnot := hagrees.noOwner hnone _ hmem
            cases hnot }
  | complete hphase howner hsame =>
    obtain ⟨authority, o, hmem, hsame'⟩ := hagrees.owner _ howner
    exact agrees_completed ⟨authority, o, hmem, hsame'.ready hphase hsame⟩
  | autoComplete => exact agrees_completed ⟨_, _, List.mem_cons_self, sameOwner_refl _ _⟩

theorem Changes.user (h : Changes platform log users state state' notes)
    (huser : state.setupState = .ready → ∃ o, state.owner = some o ∧ HasUser users o.email)
    (hready : state'.setupState = .ready) : ∃ o, state'.owner = some o ∧ HasUser users o.email := by
  cases h with
  | keep => exact huser hready
  | start => exact huser hready
  | consume => exact huser hready
  | configure => cases hready
  | own => cases hready
  | complete _ _ _ howner => exact ⟨_, rfl, howner⟩
  | autoComplete _ _ _ howner => exact ⟨_, rfl, howner⟩

/-- A save of what was loaded, with such a change, keeps the invariant. -/
theorem Inv.save (h : Inv platform d) (hloaded : Loaded state d)
    (hchanges : Changes platform d.log d.users state state' notes) :
    Inv platform { d with row := state', log := notes ++ d.log } where
  justified := hchanges.justified (hloaded.agrees h) hloaded.token h.justified
  generation := h.generation.trans hchanges.invalidations.symm
  pending row hrow a ha := Grows.started ⟨notes, rfl⟩ (h.pending row hrow a ha)
  token := hchanges.tokenOk hloaded.token
  agrees := hchanges.agrees (hloaded.agrees h)
  user := by
    refine hchanges.user fun hready => ?_
    have hrow := hloaded.row
    obtain ⟨o, howner, huser⟩ := h.user (by rw [hrow]; exact hready)
    rw [hrow] at howner
    exact ⟨o, howner, huser⟩

theorem Changes.inside (h : Inv platform d) (hloaded : Loaded state d)
    (hchanges : Changes platform d.log d.users state state' notes) :
    (rules platform).inside d { d with row := state', log := notes ++ d.log } := by
  refine ⟨⟨notes, rfl⟩, Forward.trans ?_ (hchanges.forward (hloaded.agrees h))⟩
  rw [hloaded.row]
  exact ⟨rfl, le_rfl, fun o ho => ⟨o, ho, sameOwner_refl _ o⟩, fun _ => rfl⟩

theorem Changes.loaded (hloaded : Loaded state d)
    (hchanges : Changes platform d.log d.users state state' notes) :
    Loaded state' { d with row := state', log := notes ++ d.log } :=
  ⟨rfl, hchanges.tokenOk hloaded.token⟩

end Changes

end Setup

end OoreBuild
