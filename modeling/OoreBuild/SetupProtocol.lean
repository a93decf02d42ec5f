import OoreBuild.Lib.Guarded
import OoreBuild.PendingAuths
import OoreBuild.SetupRecords

/-!
# The setup of an instance

The requests that take a new instance from its first bootstrap token to an owner and a ready setup.
Each request holds the store's mutex from the load of the setup record to its save, and gives it
back around network work; the operator's new bootstrap token and the signed-in requests do not hold
it. A log notes what the requests did, to say what justifies an owner.
-/

namespace OoreBuild

namespace Setup

open Text Guarded PendingAuths

inductive RuntimeMode where
  | localOnly
  | remote
  deriving DecidableEq

inductive RemoteAuthMode where
  | oidc
  | trustedProxy
  deriving DecidableEq

/-- What other libraries decide: lowercase text, the name of a header and what is a URL. -/
structure Platform where
  lowercase : Text → Text
  headerName : Text → Option Text
  isUrl : Text → Bool

structure SetupOidcAuthorization where
  generation : ℕ
  instanceId : Text
  sessionHash : Text
  oidc : OidcConfigRecord
  secret : Option OidcSecretRecord
  redirectUri : Text
  deriving DecidableEq

def SetupOidcAuthorization.fromState (state : SetupStateFile) (generation : ℕ)
    (sessionHash redirectUri : Text) : Option SetupOidcAuthorization :=
  state.oidcConfig.map fun oidc =>
    ⟨generation, state.instanceId, sessionHash, oidc, state.oidcSecret, redirectUri⟩

/-- Whether the settings are still those of the start of the sign-in. -/
def SetupOidcAuthorization.matchesState (a : SetupOidcAuthorization) (state : SetupStateFile)
    (generation : ℕ) (mode : RuntimeMode) (remote : RemoteAuthMode) (redirectUri : Text) : Bool :=
  match state.oidcConfig with
  | none => false
  | some oidc =>
    a.generation = generation && a.instanceId = state.instanceId && mode = .remote &&
      remote = .oidc && a.oidc = oidc && a.secret = state.oidcSecret && a.redirectUri = redirectUri

structure ProxySettings where
  userEmailHeader : Text
  setupOwnerEmail : Option Text
  encryptedSharedSecret : Option Text

/-- A row of the users table. -/
structure UserRow where
  id : Text
  email : Text
  oidcSubject : Text
  displayName : Text
  role : Text
  status : Text
  deriving DecidableEq

/-- The failures with the active bootstrap token. -/
structure BootstrapFailureBudget where
  activeTokenHash : Option Text
  failures : ℕ

def BootstrapFailureBudget.recordFailure (budget : BootstrapFailureBudget) (hash : Text) :
    BootstrapFailureBudget :=
  let failures := if budget.activeTokenHash = some hash then budget.failures else 0
  ⟨some hash, min (failures + 1) (2 ^ 32 - 1)⟩

/-! ## The log -/

def autoLocalOwnerEmail : Text := "owner@local"

/-- On whose behalf an owner was recorded. A local login that finds no owner records one of its own,
without a session of the setup, and completes the setup. -/
inductive Authority where
  | session (hash : Text)
  | oidc (a : SetupOidcAuthorization)
  | localLogin

inductive Entry where
  | minted (tokenHash : Text) (expiresAt : ℤ)
  /-- A bootstrap token was consumed and opened a session. -/
  | opened (tokenHash sessionHash : Text) (checkedAt : ℤ)
  | started (a : SetupOidcAuthorization)
  /-- The sign-ins under way became void. -/
  | invalidated
  | owned (authority : Authority) (owner : OwnerRecord)
  | completed

/-- The session opened last, until the setup is completed. -/
def currentSession : List Entry → Option Text
  | [] => none
  | .opened _ sessionHash _ :: _ => some sessionHash
  | .completed :: _ => none
  | _ :: log => currentSession log

def Entry.mints (tokenHash : Text) : Entry → Bool
  | .minted hash _ => hash = tokenHash
  | _ => false

def Entry.opens (tokenHash : Text) : Entry → Bool
  | .opened hash _ _ => hash = tokenHash
  | _ => false

def Entry.isInvalidated : Entry → Bool
  | .invalidated => true
  | _ => false

def Entry.isOwned : Entry → Bool
  | .owned .. => true
  | _ => false

def Entry.isCompleted : Entry → Bool
  | .completed => true
  | _ => false

/-- The sign-in was started, and no change of the settings has made it void since. -/
def Standing (log : List Entry) (a : SetupOidcAuthorization) : Prop :=
  ∃ later earlier, log = later ++ .started a :: earlier ∧ ∀ e ∈ later, e.isInvalidated = false

/-- The authority for this owner holds at this point of the log. -/
def Authority.Holds (log : List Entry) (owner : OwnerRecord) : Authority → Prop
  | .session hash => currentSession log = some hash
  | .oidc a => currentSession log = some a.sessionHash ∧ Standing log a
  | .localLogin => owner.email = autoLocalOwnerEmail

/-- What came before justifies the entry. -/
def Entry.JustifiedBy (log : List Entry) : Entry → Prop
  | .minted .. => ∀ e ∈ log, e.isCompleted = false
  | .opened tokenHash _ checkedAt =>
    (∃ expiresAt, .minted tokenHash expiresAt ∈ log ∧ checkedAt ≤ expiresAt) ∧
      log.countP (Entry.opens tokenHash) < log.countP (Entry.mints tokenHash)
  | .started a => currentSession log = some a.sessionHash
  | .invalidated => True
  | .owned authority owner => (∀ e ∈ log, e.isOwned = false) ∧ authority.Holds log owner
  | .completed => (∃ authority owner, .owned authority owner ∈ log) ∧
      ∀ e ∈ log, e.isCompleted = false

/-- Every entry is justified by those before it. -/
def Justified : List Entry → Prop
  | [] => True
  | e :: log => e.JustifiedBy log ∧ Justified log

/-! ## The daemon -/

structure Daemon where
  row : SetupStateFile
  mode : RuntimeMode
  remote : RemoteAuthMode
  proxy : Option ProxySettings
  users : List UserRow
  auth : PendingAuthStore Text SetupOidcAuthorization
  failures : BootstrapFailureBudget
  log : List Entry

/-- An instance that was just installed. -/
def Daemon.new (instanceId : Text) (now : ℤ) (mode : RuntimeMode) (remote : RemoteAuthMode) :
    Daemon where
  row := newSetupState instanceId now
  mode := mode
  remote := remote
  proxy := none
  users := []
  auth := .new 0
  failures := ⟨none, 0⟩
  log := []

structure DiscoveredProvider where
  issuer : Text
  authorizationEndpoint : Text
  tokenEndpoint : Text
  userinfoEndpoint : Option Text
  jwksUri : Text

/-- What a public request does to the sign-ins. -/
inductive PublicOp where
  | reserve (reservationId source : Text) (now : ℤ)
  | commit (reservationId state redirectUri : Text) (createdAt : ℤ)
  | cancel (reservationId : Text)
  | callback (state : Text)

def PublicOp.apply (store : PendingAuthStore Text SetupOidcAuthorization) :
    PublicOp → PendingAuthStore Text SetupOidcAuthorization
  | .reserve reservationId source now => (store.reservePublic reservationId source now).1
  | .commit reservationId state redirectUri createdAt =>
    (store.commitPublic reservationId state ⟨redirectUri, createdAt, none⟩).1
  | .cancel reservationId => store.cancelPublic reservationId
  | .callback state => (store.remove state).1

/-! ## Statements -/

inductive Stmt where
  | now
  /-- Draw a token, a state value or an id. -/
  | fresh
  | load
  | save (state : SetupStateFile) (notes : List Entry)
  /-- The transaction that writes the access preferences; it answers the ones before. -/
  | prefer (mode : RuntimeMode) (remote : RemoteAuthMode) (session : Option SetupSessionRecord)
      (clearsOidc : Bool) (now : ℤ)
  | runtimeMode
  | remoteAuthMode
  | proxySettings
  | saveProxySettings (settings : ProxySettings)
  | upsertOwner (id email oidcSubject : Text)
  | setupGeneration
  | insertSetup (state : Text) (pending : PendingAuth SetupOidcAuthorization)
  | takePending (state : Text)
  | invalidateSetup
  | clearPending
  | publicAuth (op : PublicOp)
  | recordFailure (tokenHash : Text)
  | clearFailures
  /-- The transaction of the operator's new bootstrap token. -/
  | mint (ttlSecs : ℤ)
  /-- The update of the preferences by a signed-in user. -/
  | updatePreferences (mode : RuntimeMode) (remote : RemoteAuthMode)
  /-- A check or a computation that the environment decides: the allowed origins, the encryption
  and the decryption of a secret. -/
  | decide (input : Text)
  | discover (issuer : Text)
  /-- The email and the subject that the identity provider or the trusted proxy vouches for. -/
  | identity

/-- What a statement answers. -/
abbrev Ans : Stmt → Type
  | .now => ℤ
  | .fresh => Text
  | .load => Except Text SetupStateFile
  | .save .. => Except Text Unit
  | .prefer .. => Except Text (RuntimeMode × RemoteAuthMode)
  | .runtimeMode => Except Text RuntimeMode
  | .remoteAuthMode => Except Text RemoteAuthMode
  | .proxySettings => Except Text (Option ProxySettings)
  | .saveProxySettings _ => Except Text Unit
  | .upsertOwner .. => Except Text Unit
  | .setupGeneration => ℕ
  | .insertSetup .. => Except Text Unit
  | .takePending _ => Option (PendingAuth SetupOidcAuthorization)
  | .invalidateSetup => Unit
  | .clearPending => Unit
  | .publicAuth _ => Unit
  | .recordFailure _ => ℕ
  | .clearFailures => Unit
  | .mint _ => Except Text Unit
  | .updatePreferences .. => Except Text Unit
  | .decide _ => Except Text Text
  | .discover _ => Except Text DiscoveredProvider
  | .identity => Except Text (Text × Text)

/-- What the environment draws for a statement. -/
structure Draw where
  failed : Bool := false
  now : ℤ := 0
  text : Text := []
  provider : DiscoveredProvider := ⟨[], [], [], none, []⟩
  identity : Text × Text := ([], [])

/-- A statement that the database or the network may refuse. -/
def Draw.answer {α : Type} (draw : Draw) (a : α) : Except Text α :=
  if draw.failed then .error "store_error" else .ok a

/-- An effect that takes place unless the statement fails. -/
def Draw.effect {α : Type} (draw : Draw) (d d' : Daemon) (a : α) : Daemon × Except Text α :=
  if draw.failed then (d, .error "store_error") else (d', .ok a)

def upsertOwner (users : List UserRow) (id email oidcSubject : Text) : List UserRow :=
  Rows.upsert UserRow.email ⟨id, email, oidcSubject, email, "owner", "active"⟩
    (fun user => { user with
      oidcSubject
      displayName := email
      role := "owner"
      status := "active" }) users

/-- The new token and its expiry; a ready setup gets none. -/
def mint (d : Daemon) (ttlSecs : ℤ) (draw : Draw) : Daemon × Except Text Unit :=
  if d.row.setupState = .ready then (d, .error "setup is already complete")
  else draw.effect d
    { d with
      row := d.row.mint draw.text (draw.now + ttlSecs) draw.now
      log := .minted draw.text (draw.now + ttlSecs) :: d.log } ()

def insertSetup (d : Daemon) (state : Text) (pending : PendingAuth SetupOidcAuthorization) :
    Daemon × Except Text Unit :=
  match d.auth.insertSetup state pending pending.createdAt with
  | (auth, .ok ()) => ({ d with auth }, .ok ())
  | (auth, .error _) => ({ d with auth }, .error "too_many_pending")

def exec (d : Daemon) (st : Stmt) (draw : Draw) : Daemon × Ans st :=
  match st with
  | .now => (d, draw.now)
  | .fresh => (d, draw.text)
  | .load => (d, draw.answer d.row)
  | .save state notes => draw.effect d { d with row := state, log := notes ++ d.log } ()
  | .prefer mode remote session clearsOidc now =>
    draw.effect d { d with mode, remote, row := d.row.prefer session clearsOidc now }
      (d.mode, d.remote)
  | .runtimeMode => (d, draw.answer d.mode)
  | .remoteAuthMode => (d, draw.answer d.remote)
  | .proxySettings => (d, draw.answer d.proxy)
  | .saveProxySettings settings => draw.effect d { d with proxy := some settings } ()
  | .upsertOwner id email oidcSubject =>
    draw.effect d { d with users := upsertOwner d.users id email oidcSubject } ()
  | .setupGeneration => (d, d.auth.setupGeneration)
  | .insertSetup state pending => insertSetup d state pending
  | .takePending state => ({ d with auth := (d.auth.remove state).1 }, (d.auth.remove state).2)
  | .invalidateSetup =>
    ({ d with auth := d.auth.invalidateSetup, log := .invalidated :: d.log }, ())
  | .clearPending => ({ d with auth := d.auth.clear }, ())
  | .publicAuth op => ({ d with auth := op.apply d.auth }, ())
  | .recordFailure tokenHash =>
    ({ d with failures := d.failures.recordFailure tokenHash },
      (d.failures.recordFailure tokenHash).failures)
  | .clearFailures => ({ d with failures := ⟨none, 0⟩ }, ())
  | .mint ttlSecs => mint d ttlSecs draw
  | .updatePreferences mode remote => draw.effect d { d with mode, remote } ()
  | .decide _ => (d, draw.answer draw.text)
  | .discover _ => (d, draw.answer draw.provider)
  | .identity => (d, draw.answer draw.identity)

/-- A restart forgets the sign-ins, under a new generation, and the failures. -/
def restart (d : Daemon) : Daemon :=
  { d with
    auth := .new (d.auth.setupGeneration + 1)
    failures := ⟨none, 0⟩
    log := .invalidated :: d.log }

def machine : Machine Daemon Draw Ans := ⟨exec, restart⟩

/-! ## Requests -/

/-- A request, as it fails with an error code. -/
abbrev Api (α : Type) : Type := Handler Ans Text α

def ask (st : Stmt) : Api (Ans st) := Handler.act st

def now : Api ℤ := ask .now

def fresh : Api Text := ask .fresh

def load : Api SetupStateFile := do Handler.ofExcept (← ask .load)

def saveState (state : SetupStateFile) (notes : List Entry) : Api Unit := do
  Handler.ofExcept (← ask (.save state notes))

def loadModes : Api (RuntimeMode × RemoteAuthMode) := do
  let mode ← Handler.ofExcept (← ask .runtimeMode)
  let remote ← Handler.ofExcept (← ask .remoteAuthMode)
  return (mode, remote)

def decideOn (input : Text) : Api Text := do Handler.ofExcept (← ask (.decide input))

/-- The value of an optional part. -/
def required {α : Type} (a : Option α) (code : Text) : Except Text α :=
  match a with
  | some a => .ok a
  | none => .error code

def setupSessionTtlSecs : ℤ := 30 * 60

def maxBootstrapFailures : ℕ := 5

def validateSessionHash (state : SetupStateFile) (expectedHash : Text) : Api SetupStateFile := do
  let session ← Handler.ofExcept (required state.setupSession "no_session")
  Handler.ensure (expectedHash = session.hash) "invalid_session"
  let checked ← now
  Handler.ensure (checked ≤ session.expiresAt) "session_expired"
  let bumped ← now
  return { state with
    setupSession := some { session with expiresAt := bumped + setupSessionTtlSecs } }

/-- The session of a request is the hash of its bearer token. -/
def validateSession (state : SetupStateFile) (auth : Option Text) : Api SetupStateFile := do
  let hash ← Handler.ofExcept (required auth "missing_auth")
  validateSessionHash state hash

def validateSetupOidcAuthorization (state : SetupStateFile) (a : SetupOidcAuthorization)
    (generation : ℕ) (mode : RuntimeMode) (remote : RemoteAuthMode) (redirectUri : Text) :
    Api SetupStateFile := do
  Handler.ensure (state.setupState ≠ .ready) "already_configured"
  Handler.ensure (state.setupState = .idpConfigured ∧ state.owner = none) "invalid_state"
  let state ← validateSessionHash state a.sessionHash
  Handler.ensure (a.matchesState state generation mode remote redirectUri = true) "stale_oidc_setup"
  return state

/-- Load the record and check it against a sign-in under way. -/
def loadForAuthorization (a : SetupOidcAuthorization) (redirectUri : Text) :
    Api SetupStateFile := do
  let state ← load
  let (mode, remote) ← loadModes
  let generation ← ask .setupGeneration
  validateSetupOidcAuthorization state a generation mode remote redirectUri

/-- The configuration, with the secret decrypted where there is one. -/
def oidcConfigFromStateFile (state : SetupStateFile) : Api Unit := do
  let _ ← Handler.ofExcept (required state.oidcConfig "oidc_not_configured")
  match state.oidcSecret with
  | none => return ()
  | some secret => do
    let _ ← decideOn secret.encryptedClientSecret
    return ()

def commitSetupOidcPending (stateValue : Text) (pending : PendingAuth SetupOidcAuthorization) :
    Api Unit := do
  let a ← Handler.ofExcept (required pending.setup "invalid_setup_authorization")
  let _ ← decideOn pending.redirectUri
  Handler.locked do
    let state ← loadForAuthorization a pending.redirectUri
    saveState state []
    Handler.ofExcept (← ask (.insertSetup stateValue pending))

def validateSetupOidcCallback (a : SetupOidcAuthorization) (redirectUri : Text) : Api Unit := do
  let _ ← decideOn redirectUri
  Handler.locked do
    let state ← loadForAuthorization a redirectUri
    oidcConfigFromStateFile state
    saveState state []

def commitSetupOidcOwner (a : SetupOidcAuthorization) (redirectUri email subject : Text) :
    Api Unit := do
  let _ ← decideOn redirectUri
  Handler.locked do
    let state ← loadForAuthorization a redirectUri
    let now ← now
    let owner : OwnerRecord := ⟨email, some subject, now⟩
    saveState { state with setupState := .ownerCreated, owner := some owner, updatedAt := now }
      [.owned (.oidc a) owner]
    ask .invalidateSetup

/-- A wrong bootstrap token. -/
def rejectToken (tokenHash : Text) : Api Unit := do
  let attempts ← ask (.recordFailure tokenHash)
  Handler.ensure (attempts ≤ maxBootstrapFailures) "too_many_attempts"
  throw ("invalid_token" : Text)

def verifyBootstrapToken (requestHash : Text) : Api Unit :=
  Handler.locked do
    let state ← load
    Handler.ensure (state.setupState ≠ .ready) "already_configured"
    let token ← Handler.ofExcept (required state.bootstrapToken "no_bootstrap_token")
    Handler.ensure (token.consumedAt = none) "token_consumed"
    let checked ← now
    Handler.ensure (checked ≤ token.expiresAt) "token_expired"
    if requestHash ≠ token.hash then rejectToken token.hash
    ask .clearFailures
    let now ← now
    let sessionHash ← fresh
    saveState
      { state with
        bootstrapToken := some { token with consumedAt := some now }
        setupSession := some ⟨sessionHash, now + setupSessionTtlSecs⟩
        updatedAt := now }
      [.opened token.hash sessionHash checked]

structure OidcConfigureRequest where
  issuerUrl : Text
  clientId : Text
  clientSecret : Option Text
  clearClientSecret : Bool

/-- The state gates of the OIDC settings. -/
def loadConfigurable (auth : Option Text) : Api SetupStateFile := do
  let state ← load
  Handler.ensure (state.setupState ≠ .ready) "already_configured"
  Handler.ensure (state.setupState = .bootstrapPending ∨ state.setupState = .idpConfigured)
    "invalid_state"
  validateSession state auth

def OidcConfigureRequest.validate (platform : Platform) (req : OidcConfigureRequest) : Bool :=
  req.issuerUrl ≠ [] && byteLen req.issuerUrl ≤ 2048 && platform.isUrl req.issuerUrl &&
    req.clientId ≠ [] && byteLen req.clientId ≤ 256 &&
    req.clientSecret.all (fun secret => secret ≠ [] && byteLen secret ≤ 1024) &&
    !(req.clientSecret.isSome && req.clearClientSecret)

/-- The issuer or the client changes while a secret is stored and none is named. -/
def needsSecret (state : SetupStateFile) (issuer clientId : Text) (clientSecret : Option Text)
    (clears : Bool) : Bool :=
  state.oidcConfig.any (fun current => current.issuerUrl ≠ issuer || current.clientId ≠ clientId) &&
    clientSecret.isNone && !clears && state.oidcSecret.isSome

/-- The secret that is stored for a new one. -/
def storedSecret (clientSecret : Option Text) (kept : Option OidcSecretRecord) (now : ℤ) :
    Api (Option OidcSecretRecord) :=
  match clientSecret with
  | none => return kept
  | some secret => do
    let encrypted ← decideOn secret
    return some ⟨encrypted, now⟩

def oidcConfigRecord (found : DiscoveredProvider) (clientId : Text)
    (secret : Option OidcSecretRecord) (now : ℤ) : OidcConfigRecord :=
  { issuerUrl := found.issuer
    clientId
    hasClientSecret := secret.isSome
    authorizationEndpoint := found.authorizationEndpoint
    tokenEndpoint := found.tokenEndpoint
    userinfoEndpoint := found.userinfoEndpoint
    jwksUri := found.jwksUri
    configuredAt := now }

def configureOidc (platform : Platform) (auth : Option Text) (req : OidcConfigureRequest) :
    Api Unit := do
  Handler.ensure (req.validate platform = true) "invalid_input"
  Handler.locked do
    let _ ← loadConfigurable auth
    return ()
  let now ← now
  let found ← Handler.ofExcept (← ask (.discover req.issuerUrl))
  Handler.locked do
    let state ← loadConfigurable auth
    Handler.ensure
      (needsSecret state found.issuer req.clientId req.clientSecret req.clearClientSecret = false)
      "oidc_secret_reentry_required"
    let kept := if req.clearClientSecret || state.oidcConfig.isNone then none else state.oidcSecret
    let secret ← storedSecret req.clientSecret kept now
    saveState
      { state with
        setupState := .idpConfigured
        oidcConfig := some (oidcConfigRecord found req.clientId secret now)
        oidcSecret := secret
        updatedAt := now } []
    ask .invalidateSetup

def leavesUnfinishedOidc (state : SetupStateFile) (mode : RuntimeMode) (remote : RemoteAuthMode) :
    Bool :=
  state.setupState = .idpConfigured && (state.oidcConfig.isSome || state.oidcSecret.isSome) &&
    (mode ≠ .remote || remote ≠ .oidc)

def setupPreferences (auth : Option Text) (mode : RuntimeMode) (remote : Option RemoteAuthMode) :
    Api Unit :=
  Handler.locked do
    let state ← load
    Handler.ensure (state.setupState ≠ .ready) "already_configured"
    Handler.ensure (state.setupState ≠ .ownerCreated) "invalid_state"
    let state ← validateSession state auth
    let remote := if mode = .localOnly then .oidc else remote.getD .oidc
    let now ← now
    let clears := leavesUnfinishedOidc state mode remote
    let previous ← Handler.ofExcept (← ask (.prefer mode remote state.setupSession clears now))
    if clears = true ∨ previous ≠ (mode, remote) then ask .invalidateSetup

/-- Fail unless the modes are those of a trusted proxy. -/
def requireTrustedProxy : Api Unit := do
  let (mode, remote) ← loadModes
  Handler.ensure (mode = .remote ∧ remote = .trustedProxy) "mode_restricted"

structure TrustedProxyRequest where
  userEmailHeader : Option Text
  setupOwnerEmail : Option Text
  sharedSecret : Option Text

def normalizeEmailValue (platform : Platform) (raw : Text) : Option Text :=
  let email := platform.lowercase (trim raw)
  if email = [] ∨ 256 < byteLen email ∨ '@' ∉ email then none else some email

def normalizeOptionalSetupOwnerEmail (platform : Platform) (value : Option Text) :
    Except Text (Option Text) :=
  match value with
  | none => .ok none
  | some raw =>
    if trim raw = [] then .ok none
    else (required (normalizeEmailValue platform (trim raw)) "invalid_input").map some

def defaultTrustedProxyEmailHeader : Text := "x-oore-user-email"

/-- The shared secret of the request, encrypted. -/
def encryptSharedSecret (sharedSecret : Option Text) : Api (Option Text) :=
  match sharedSecret with
  | none => return none
  | some secret =>
    if trim secret = [] then return none
    else do
      Handler.ensure (byteLen (trim secret) ≤ 1024) "invalid_input"
      let encrypted ← decideOn (trim secret)
      return some encrypted

def setupTrustedProxyConfigure (platform : Platform) (auth : Option Text)
    (req : TrustedProxyRequest) : Api Unit :=
  Handler.locked do
    let state ← load
    Handler.ensure (state.setupState ≠ .ready) "already_configured"
    Handler.ensure (state.setupState ≠ .ownerCreated) "invalid_state"
    let state ← validateSession state auth
    requireTrustedProxy
    let header := (req.userEmailHeader.bind platform.headerName).getD defaultTrustedProxyEmailHeader
    let ownerEmail ← Handler.ofExcept
      (normalizeOptionalSetupOwnerEmail platform req.setupOwnerEmail)
    let secret ← encryptSharedSecret req.sharedSecret
    let now ← now
    let _ ← Handler.ofExcept (← ask (.saveProxySettings ⟨header, ownerEmail, secret⟩))
    saveState { state with setupState := .idpConfigured, updatedAt := now } []
    ask .invalidateSetup

def trustedProxySubjectForEmail (platform : Platform) (email : Text) : Text :=
  "trusted-proxy::" ++ platform.lowercase (trim email)

def localSubjectForEmail (platform : Platform) (email : Text) : Text :=
  "local::" ++ platform.lowercase (trim email)

/-- The proxy's peer address, its shared secret and its header are what the environment decides. -/
def setupOwnerClaimTrustedProxy (platform : Platform) (auth : Option Text) : Api Unit :=
  Handler.locked do
    let state ← load
    Handler.ensure (state.setupState ≠ .ready) "already_configured"
    Handler.ensure (state.setupState = .idpConfigured) "invalid_state"
    let state ← validateSession state auth
    requireTrustedProxy
    let settings ← Handler.ofExcept (← ask .proxySettings)
    let settings ← Handler.ofExcept (required settings "trusted_proxy_not_configured")
    let (email, _) ← Handler.ofExcept (← ask .identity)
    Handler.ensure
      ((settings.setupOwnerEmail.bind (normalizeEmailValue platform)).all (email = ·) = true)
      "trusted_proxy_owner_email_mismatch"
    let now ← now
    let owner : OwnerRecord := ⟨email, some (trustedProxySubjectForEmail platform email), now⟩
    saveState { state with setupState := .ownerCreated, owner := some owner, updatedAt := now }
      [.owned (.session (auth.getD [])) owner]

def setupOidcStart (auth : Option Text) (redirectUri : Text) : Api Unit := do
  let _ ← decideOn redirectUri
  let a ← Handler.locked do
    let state ← load
    Handler.ensure (state.setupState ≠ .ready) "already_configured"
    Handler.ensure (state.setupState = .idpConfigured) "invalid_state"
    let state ← validateSession state auth
    let session ← Handler.ofExcept (required state.setupSession "no_session")
    let (mode, remote) ← loadModes
    Handler.ensure (mode = .remote ∧ remote = .oidc) "mode_restricted"
    oidcConfigFromStateFile state
    let generation ← ask .setupGeneration
    let a ← Handler.ofExcept
      (required (SetupOidcAuthorization.fromState state generation session.hash redirectUri)
        "oidc_not_configured")
    saveState state [.started a]
    return a
  let _ ← Handler.ofExcept (← ask (.discover a.oidc.issuerUrl))
  let stateValue ← fresh
  let createdAt ← now
  commitSetupOidcPending stateValue ⟨redirectUri, createdAt, some a⟩

def setupOidcVerify (stateValue : Text) : Api Unit := do
  Handler.locked do
    let state ← load
    Handler.ensure (state.setupState ≠ .ready) "already_configured"
  let pending ← Handler.ofExcept (required (← ask (.takePending stateValue)) "invalid_state")
  let checked ← now
  Handler.ensure (checked - pending.createdAt < pendingAuthTtlSecs) "auth_expired"
  let a ← Handler.ofExcept (required pending.setup "invalid_state")
  validateSetupOidcCallback a pending.redirectUri
  let (email, subject) ← Handler.ofExcept (← ask .identity)
  commitSetupOidcOwner a pending.redirectUri email subject

def setupLocalOwnerCreate (platform : Platform) (auth : Option Text) (email : Text) : Api Unit :=
  Handler.locked do
    let state ← load
    Handler.ensure (state.setupState ≠ .ready) "already_configured"
    let mode ← Handler.ofExcept (← ask .runtimeMode)
    Handler.ensure (mode = .localOnly) "mode_restricted"
    Handler.ensure (state.setupState = .bootstrapPending ∨ state.setupState = .idpConfigured)
      "invalid_state"
    let state ← validateSession state auth
    let email := platform.lowercase (trim email)
    Handler.ensure (email ≠ [] ∧ '@' ∈ email) "invalid_input"
    let now ← now
    let owner : OwnerRecord := ⟨email, some (localSubjectForEmail platform email), now⟩
    saveState { state with setupState := .ownerCreated, owner := some owner, updatedAt := now }
      [.owned (.session (auth.getD [])) owner]

/-- The access method of a completed setup is configured. -/
def checkAccess (platform : Platform) (state : SetupStateFile) : Api Unit := do
  let (mode, remote) ← loadModes
  if mode = .remote then
    match remote with
    | .oidc => Handler.ensure (state.oidcConfig.isSome = true) "remote_auth_not_configured"
    | .trustedProxy => do
      let settings ← Handler.ofExcept (← ask .proxySettings)
      let settings ← Handler.ofExcept (required settings "remote_auth_not_configured")
      Handler.ensure ((platform.headerName settings.userEmailHeader).isSome = true)
        "trusted_proxy_config_invalid"

/-- The subject that an owner without one gets. -/
def OwnerRecord.fill (platform : Platform) (owner : OwnerRecord) : OwnerRecord :=
  { owner with
    oidcSubject := some (owner.oidcSubject.getD (localSubjectForEmail platform owner.email)) }

/-- Make the owner an active user of the role owner. -/
def upsertOwnerUser (owner : OwnerRecord) : Api Unit := do
  let id ← fresh
  Handler.ofExcept (← ask (.upsertOwner id owner.email (owner.oidcSubject.getD [])))

def upsertOwnerUserIfAny (owner : Option OwnerRecord) : Api Unit :=
  match owner with
  | some owner => upsertOwnerUser owner
  | none => return ()

def completeSetup (platform : Platform) (auth : Option Text) : Api Unit :=
  Handler.locked do
    let state ← load
    Handler.ensure (state.setupState ≠ .ready) "already_configured"
    Handler.ensure (state.setupState = .ownerCreated) "invalid_state"
    let state ← validateSession state auth
    checkAccess platform state
    let now ← now
    let owner := state.owner.map (·.fill platform)
    upsertOwnerUserIfAny owner
    saveState { state with setupState := .ready, setupSession := none, owner, updatedAt := now }
      [.completed]

def setupSummary (auth : Option Text) : Api Unit :=
  Handler.locked do
    let state ← load
    let state ← validateSession state auth
    saveState state []

/-- The owner of a setup that a local login completes. -/
def autoOwner (platform : Platform) (owner : Option OwnerRecord) (now : ℤ) : OwnerRecord :=
  let email := ((owner.map fun owner => platform.lowercase (trim owner.email)).filter
    (· ≠ [])).getD autoLocalOwnerEmail
  { email
    oidcSubject := some (((owner.bind (·.oidcSubject)).filter (trim · ≠ [])).getD
      (localSubjectForEmail platform email))
    createdAt := (owner.map (·.createdAt)).getD now }

def autoCompleteLocalSetupIfNeeded (platform : Platform) (state : SetupStateFile) : Api Unit := do
  let now ← now
  let owner := autoOwner platform state.owner now
  upsertOwnerUser owner
  saveState
    { state with setupState := .ready, setupSession := none, owner := some owner, updatedAt := now }
    (match state.owner with
      | some _ => [.completed]
      | none => [.completed, .owned .localLogin owner])

/-- The part of a local login that may complete the setup. -/
def localLogin (platform : Platform) (loopback : Bool) : Api Unit :=
  Handler.locked do
    let state ← load
    let mode ← Handler.ofExcept (← ask .runtimeMode)
    Handler.ensure (mode = .localOnly → loopback = true) "local_login_loopback_required"
    if state.setupState ≠ .ready then
      Handler.ensure (mode = .localOnly) "mode_restricted"
      autoCompleteLocalSetupIfNeeded platform state

/-- The OIDC settings of a ready instance. -/
def configureExternalAccessOidc (issuerUrl clientId : Text) (clientSecret : Option Text) :
    Api Unit := do
  let now ← now
  let found ← Handler.ofExcept (← ask (.discover issuerUrl))
  Handler.locked do
    let state ← load
    Handler.ensure (state.setupState = .ready) "invalid_state"
    Handler.ensure (needsSecret state found.issuer clientId clientSecret false = false)
      "oidc_secret_reentry_required"
    let secret ← storedSecret clientSecret state.oidcSecret now
    saveState
      { state with
        oidcConfig := some (oidcConfigRecord found clientId secret now)
        oidcSecret := secret
        updatedAt := now } []
  ask .clearPending

def mintBootstrapToken (ttlSecs : ℤ) : Api Unit := do
  Handler.ensure (1 ≤ ttlSecs ∧ ttlSecs ≤ 60 * 60) "invalid_ttl"
  Handler.ofExcept (← ask (.mint ttlSecs))

inductive Request where
  | verifyBootstrapToken (requestHash : Text)
  | configureOidc (auth : Option Text) (req : OidcConfigureRequest)
  | setupPreferences (auth : Option Text) (mode : RuntimeMode) (remote : Option RemoteAuthMode)
  | setupTrustedProxyConfigure (auth : Option Text) (req : TrustedProxyRequest)
  | setupOwnerClaimTrustedProxy (auth : Option Text)
  | setupOidcStart (auth : Option Text) (redirectUri : Text)
  | setupOidcVerify (stateValue : Text)
  | setupLocalOwnerCreate (auth : Option Text) (email : Text)
  | completeSetup (auth : Option Text)
  | setupSummary (auth : Option Text)
  | localLogin (loopback : Bool)
  | configureExternalAccessOidc (issuerUrl clientId : Text) (clientSecret : Option Text)
  | mintBootstrapToken (ttlSecs : ℤ)
  | updatePreferences (mode : RuntimeMode) (remote : RemoteAuthMode)
  | publicAuth (op : PublicOp)

def handle (platform : Platform) : Request → Api Unit
  | .verifyBootstrapToken requestHash => verifyBootstrapToken requestHash
  | .configureOidc auth req => configureOidc platform auth req
  | .setupPreferences auth mode remote => setupPreferences auth mode remote
  | .setupTrustedProxyConfigure auth req => setupTrustedProxyConfigure platform auth req
  | .setupOwnerClaimTrustedProxy auth => setupOwnerClaimTrustedProxy platform auth
  | .setupOidcStart auth redirectUri => setupOidcStart auth redirectUri
  | .setupOidcVerify stateValue => setupOidcVerify stateValue
  | .setupLocalOwnerCreate auth email => setupLocalOwnerCreate platform auth email
  | .completeSetup auth => completeSetup platform auth
  | .setupSummary auth => setupSummary auth
  | .localLogin loopback => localLogin platform loopback
  | .configureExternalAccessOidc issuerUrl clientId clientSecret =>
    configureExternalAccessOidc issuerUrl clientId clientSecret
  | .mintBootstrapToken ttlSecs => mintBootstrapToken ttlSecs
  | .updatePreferences mode remote => do Handler.ofExcept (← ask (.updatePreferences mode remote))
  | .publicAuth op => ask (.publicAuth op)

def start (platform : Platform) (request : Request) : Prog Ans (Except Text Unit) :=
  (handle platform request).run

def server (platform : Platform) :
    Interleave (Shared Daemon) (Call Ans (Except Text Unit)) Request Draw :=
  machine.server (start platform)

end Setup

end OoreBuild
