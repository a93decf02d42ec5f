import OoreBuild.Lib.Text

/-!
# The setup record and its row

The state of the setup is one record. It is stored as the columns of one row, a group of nullable
columns for each optional part. Most requests write the row as a whole; a new bootstrap token and
the access preferences write some of its columns only. Reading the row back gives the record that
the writes make, in whatever order they came.
-/

namespace OoreBuild

namespace Setup

open Text

inductive SetupState where
  | uninitialized
  | bootstrapPending
  | idpConfigured
  | ownerCreated
  | ready
  deriving DecidableEq

def SetupState.toText : SetupState → Text
  | .uninitialized => "uninitialized"
  | .bootstrapPending => "bootstrap_pending"
  | .idpConfigured => "idp_configured"
  | .ownerCreated => "owner_created"
  | .ready => "ready"

def SetupState.fromStr (s : Text) : Except Text SetupState :=
  if s = ("uninitialized" : Text) then .ok .uninitialized
  else if s = ("bootstrap_pending" : Text) then .ok .bootstrapPending
  else if s = ("idp_configured" : Text) then .ok .idpConfigured
  else if s = ("owner_created" : Text) then .ok .ownerCreated
  else if s = ("ready" : Text) then .ok .ready
  else .error ("unknown setup state: " ++ s)

theorem SetupState.fromStr_toText (state : SetupState) : fromStr state.toText = .ok state := by
  cases state <;> decide

/-! ## Records -/

structure BootstrapTokenRecord where
  hash : Text
  expiresAt : ℤ
  consumedAt : Option ℤ
  deriving DecidableEq

structure SetupSessionRecord where
  hash : Text
  expiresAt : ℤ
  deriving DecidableEq

structure OidcConfigRecord where
  issuerUrl : Text
  clientId : Text
  hasClientSecret : Bool
  authorizationEndpoint : Text
  tokenEndpoint : Text
  userinfoEndpoint : Option Text
  jwksUri : Text
  configuredAt : ℤ
  deriving DecidableEq

structure OidcSecretRecord where
  encryptedClientSecret : Text
  storedAt : ℤ
  deriving DecidableEq

structure OwnerRecord where
  email : Text
  oidcSubject : Option Text
  createdAt : ℤ
  deriving DecidableEq

structure SetupStateFile where
  schemaVersion : UInt32
  instanceId : Text
  setupState : SetupState
  bootstrapToken : Option BootstrapTokenRecord
  setupSession : Option SetupSessionRecord
  oidcConfig : Option OidcConfigRecord
  oidcSecret : Option OidcSecretRecord
  owner : Option OwnerRecord
  createdAt : ℤ
  updatedAt : ℤ
  deriving DecidableEq

/-- The record of a new instance. -/
def newSetupState (instanceId : Text) (now : ℤ) : SetupStateFile :=
  { schemaVersion := 1
    instanceId
    setupState := .bootstrapPending
    bootstrapToken := none
    setupSession := none
    oidcConfig := none
    oidcSecret := none
    owner := none
    createdAt := now
    updatedAt := now }

/-! ## The row -/

/-- The columns, a null as `none`. -/
structure SetupRow where
  schemaVersion : ℤ
  instanceId : Text
  setupState : Text
  bootstrapTokenHash : Option Text
  bootstrapTokenExpiresAt : Option ℤ
  bootstrapTokenConsumedAt : Option ℤ
  sessionHash : Option Text
  sessionExpiresAt : Option ℤ
  oidcIssuerUrl : Option Text
  oidcClientId : Option Text
  oidcHasClientSecret : Option ℤ
  oidcAuthorizationEndpoint : Option Text
  oidcTokenEndpoint : Option Text
  oidcUserinfoEndpoint : Option Text
  oidcJwksUri : Option Text
  oidcConfiguredAt : Option ℤ
  oidcEncryptedClientSecret : Option Text
  oidcSecretStoredAt : Option ℤ
  ownerEmail : Option Text
  ownerOidcSubject : Option Text
  ownerCreatedAt : Option ℤ
  createdAt : ℤ
  updatedAt : ℤ

/-- The row that a save writes. -/
def save (state : SetupStateFile) : SetupRow where
  schemaVersion := state.schemaVersion.toNat
  instanceId := state.instanceId
  setupState := state.setupState.toText
  bootstrapTokenHash := state.bootstrapToken.map (·.hash)
  bootstrapTokenExpiresAt := state.bootstrapToken.map (·.expiresAt)
  bootstrapTokenConsumedAt := state.bootstrapToken.bind (·.consumedAt)
  sessionHash := state.setupSession.map (·.hash)
  sessionExpiresAt := state.setupSession.map (·.expiresAt)
  oidcIssuerUrl := state.oidcConfig.map (·.issuerUrl)
  oidcClientId := state.oidcConfig.map (·.clientId)
  oidcHasClientSecret := state.oidcConfig.map fun c => if c.hasClientSecret then 1 else 0
  oidcAuthorizationEndpoint := state.oidcConfig.map (·.authorizationEndpoint)
  oidcTokenEndpoint := state.oidcConfig.map (·.tokenEndpoint)
  oidcUserinfoEndpoint := state.oidcConfig.bind (·.userinfoEndpoint)
  oidcJwksUri := state.oidcConfig.map (·.jwksUri)
  oidcConfiguredAt := state.oidcConfig.map (·.configuredAt)
  oidcEncryptedClientSecret := state.oidcSecret.map (·.encryptedClientSecret)
  oidcSecretStoredAt := state.oidcSecret.map (·.storedAt)
  ownerEmail := state.owner.map (·.email)
  ownerOidcSubject := state.owner.bind (·.oidcSubject)
  ownerCreatedAt := state.owner.map (·.createdAt)
  createdAt := state.createdAt
  updatedAt := state.updatedAt

def parseSchemaVersion (version : ℤ) : Except Text UInt32 :=
  if 0 ≤ version ∧ version < 2 ^ 32 then .ok (UInt32.ofNat version.toNat)
  else .error "schema_version out of u32 range"

/-- The record of the columns; a group is there where its first column is. -/
def SetupRow.record (row : SetupRow) (setupState : SetupState) (schemaVersion : UInt32) :
    SetupStateFile where
  schemaVersion
  instanceId := row.instanceId
  setupState
  bootstrapToken := row.bootstrapTokenHash.map fun hash =>
    ⟨hash, row.bootstrapTokenExpiresAt.getD 0, row.bootstrapTokenConsumedAt⟩
  setupSession := row.sessionHash.map fun hash => ⟨hash, row.sessionExpiresAt.getD 0⟩
  oidcConfig := row.oidcIssuerUrl.map fun issuerUrl =>
    { issuerUrl
      clientId := row.oidcClientId.getD []
      hasClientSecret := row.oidcHasClientSecret.getD 0 ≠ 0
      authorizationEndpoint := row.oidcAuthorizationEndpoint.getD []
      tokenEndpoint := row.oidcTokenEndpoint.getD []
      userinfoEndpoint := row.oidcUserinfoEndpoint
      jwksUri := row.oidcJwksUri.getD []
      configuredAt := row.oidcConfiguredAt.getD 0 }
  oidcSecret := row.oidcEncryptedClientSecret.map fun secret =>
    ⟨secret, row.oidcSecretStoredAt.getD 0⟩
  owner := row.ownerEmail.map fun email =>
    ⟨email, row.ownerOidcSubject, row.ownerCreatedAt.getD 0⟩
  createdAt := row.createdAt
  updatedAt := row.updatedAt

def rowToStateFile (row : SetupRow) : Except Text SetupStateFile := do
  let setupState ← SetupState.fromStr row.setupState
  let schemaVersion ← parseSchemaVersion row.schemaVersion
  return row.record setupState schemaVersion

/-! ## Writes -/

/-- The update of a new bootstrap token, while the setup is not ready. -/
def SetupRow.mint (row : SetupRow) (hash : Text) (expiresAt now : ℤ) : SetupRow :=
  if row.setupState = SetupState.ready.toText then row
  else
    { row with
      bootstrapTokenHash := some hash
      bootstrapTokenExpiresAt := some expiresAt
      bootstrapTokenConsumedAt := none
      updatedAt := now }

/-- The update of the access preferences; it may clear the columns of the OIDC settings. -/
def SetupRow.prefer (row : SetupRow) (session : Option SetupSessionRecord) (clearsOidc : Bool)
    (now : ℤ) : SetupRow :=
  let row :=
    { row with
      sessionHash := session.map (·.hash)
      sessionExpiresAt := session.map (·.expiresAt)
      updatedAt := now }
  if clearsOidc then
    { row with
      oidcIssuerUrl := none
      oidcClientId := none
      oidcHasClientSecret := none
      oidcAuthorizationEndpoint := none
      oidcTokenEndpoint := none
      oidcUserinfoEndpoint := none
      oidcJwksUri := none
      oidcConfiguredAt := none
      oidcEncryptedClientSecret := none
      oidcSecretStoredAt := none }
  else row

def SetupStateFile.mint (state : SetupStateFile) (hash : Text) (expiresAt now : ℤ) :
    SetupStateFile :=
  if state.setupState = .ready then state
  else { state with bootstrapToken := some ⟨hash, expiresAt, none⟩, updatedAt := now }

def SetupStateFile.prefer (state : SetupStateFile) (session : Option SetupSessionRecord)
    (clearsOidc : Bool) (now : ℤ) : SetupStateFile :=
  let state := { state with setupSession := session, updatedAt := now }
  if clearsOidc then { state with oidcConfig := none, oidcSecret := none } else state

inductive Write where
  | save (state : SetupStateFile)
  | mint (hash : Text) (expiresAt now : ℤ)
  | prefer (session : Option SetupSessionRecord) (clearsOidc : Bool) (now : ℤ)

def SetupRow.write (row : SetupRow) : Write → SetupRow
  | .save state => Setup.save state
  | .mint hash expiresAt now => row.mint hash expiresAt now
  | .prefer session clearsOidc now => row.prefer session clearsOidc now

def SetupStateFile.write (state : SetupStateFile) : Write → SetupStateFile
  | .save state' => state'
  | .mint hash expiresAt now => state.mint hash expiresAt now
  | .prefer session clearsOidc now => state.prefer session clearsOidc now

/-! ## The row reads back as the record -/

theorem parseSchemaVersion_toNat (version : UInt32) :
    parseSchemaVersion version.toNat = .ok version := by
  have hlt : version.toNat < 2 ^ 32 := version.toNat_lt
  rw [parseSchemaVersion, if_pos ⟨by omega, by omega⟩, Int.toNat_natCast, UInt32.ofNat_toNat]

theorem rowToStateFile_eq_ok {row : SetupRow} {state : SetupStateFile} :
    rowToStateFile row = .ok state ↔ ∃ setupState version,
      SetupState.fromStr row.setupState = .ok setupState ∧
        parseSchemaVersion row.schemaVersion = .ok version ∧
          row.record setupState version = state := by
  unfold rowToStateFile
  cases hstate : SetupState.fromStr row.setupState with
  | error e =>
    refine iff_of_false nofun ?_
    rintro ⟨_, _, heq, _⟩
    cases heq
  | ok setupState =>
    cases hversion : parseSchemaVersion row.schemaVersion with
    | error e =>
      refine iff_of_false nofun ?_
      rintro ⟨_, _, _, heq, _⟩
      cases heq
    | ok version =>
      constructor
      · intro h
        exact ⟨setupState, version, rfl, rfl, Except.ok.inj h⟩
      · rintro ⟨_, _, heq, heq', hrecord⟩
        obtain rfl := Except.ok.inj heq
        obtain rfl := Except.ok.inj heq'
        exact congrArg Except.ok hrecord

/-- The columns that a save writes are those of the record. -/
theorem record_save (state : SetupStateFile) :
    (save state).record state.setupState state.schemaVersion = state := by
  obtain ⟨version, instanceId, setupState, token, session, config, secret, owner, createdAt,
    updatedAt⟩ := state
  have hconfig : (save ⟨version, instanceId, setupState, token, session, config, secret, owner,
      createdAt, updatedAt⟩ |>.record setupState version).oidcConfig = config := by
    cases config with
    | none => rfl
    | some config =>
      obtain ⟨issuerUrl, clientId, flag, authorization, token', userinfo, jwks, configuredAt⟩ :=
        config
      cases flag <;> rfl
  unfold SetupRow.record at hconfig ⊢
  rw [SetupStateFile.mk.injEq]
  refine ⟨rfl, rfl, rfl, ?_, ?_, hconfig, ?_, ?_, rfl, rfl⟩
  · cases token <;> rfl
  · cases session <;> rfl
  · cases secret <;> rfl
  · cases owner <;> rfl

theorem rowToStateFile_save (state : SetupStateFile) : rowToStateFile (save state) = .ok state :=
  rowToStateFile_eq_ok.mpr ⟨state.setupState, state.schemaVersion,
    state.setupState.fromStr_toText, parseSchemaVersion_toNat state.schemaVersion,
    record_save state⟩

theorem SetupState.toText_of_fromStr {s : Text} {state : SetupState}
    (h : fromStr s = .ok state) : s = state.toText := by
  unfold fromStr at h
  split_ifs at h with h₁ h₂ h₃ h₄ h₅
  · exact h₁.trans (by rw [← Except.ok.inj h]; rfl)
  · exact h₂.trans (by rw [← Except.ok.inj h]; rfl)
  · exact h₃.trans (by rw [← Except.ok.inj h]; rfl)
  · exact h₄.trans (by rw [← Except.ok.inj h]; rfl)
  · exact h₅.trans (by rw [← Except.ok.inj h]; rfl)

/-- A new token in the columns is one in the record. -/
theorem rowToStateFile_mint {row : SetupRow} {state : SetupStateFile}
    (h : rowToStateFile row = .ok state) (hash : Text) (expiresAt now : ℤ) :
    rowToStateFile (row.mint hash expiresAt now) = .ok (state.mint hash expiresAt now) := by
  obtain ⟨setupState, version, hstate, hversion, rfl⟩ := rowToStateFile_eq_ok.mp h
  have htext := SetupState.toText_of_fromStr hstate
  unfold SetupRow.mint SetupStateFile.mint
  by_cases hready : (row.record setupState version).setupState = .ready
  · rw [if_pos (htext.trans (congrArg SetupState.toText hready)), if_pos hready]
    exact h
  · have hne : row.setupState ≠ SetupState.ready.toText := by
      intro heq
      rw [heq] at hstate
      exact hready (Except.ok.inj (hstate.symm.trans (SetupState.fromStr_toText .ready)))
    rw [if_neg hne, if_neg hready]
    exact rowToStateFile_eq_ok.mpr ⟨setupState, version, hstate, hversion, rfl⟩

/-- New preferences in the columns are those of the record. -/
theorem rowToStateFile_prefer {row : SetupRow} {state : SetupStateFile}
    (h : rowToStateFile row = .ok state) (session : Option SetupSessionRecord) (clearsOidc : Bool)
    (now : ℤ) : rowToStateFile (row.prefer session clearsOidc now) =
      .ok (state.prefer session clearsOidc now) := by
  obtain ⟨setupState, version, hstate, hversion, rfl⟩ := rowToStateFile_eq_ok.mp h
  refine rowToStateFile_eq_ok.mpr ⟨setupState, version, ?_, ?_, ?_⟩
  · cases clearsOidc <;> exact hstate
  · cases clearsOidc <;> exact hversion
  · cases clearsOidc <;> cases session <;> rfl

theorem rowToStateFile_write {row : SetupRow} {state : SetupStateFile}
    (h : rowToStateFile row = .ok state) (write : Write) :
    rowToStateFile (row.write write) = .ok (state.write write) := by
  cases write with
  | save state' => exact rowToStateFile_save state'
  | mint hash expiresAt now => exact rowToStateFile_mint h hash expiresAt now
  | prefer session clearsOidc now => exact rowToStateFile_prefer h session clearsOidc now

/-- After any writes of the whole row and of parts of it, the row reads back as the record on which
the same writes were made. -/
theorem row_reads_back (state : SetupStateFile) (writes : List Write) :
    rowToStateFile (writes.foldl SetupRow.write (save state)) =
      .ok (writes.foldl SetupStateFile.write state) := by
  suffices h : ∀ row state, rowToStateFile row = .ok state →
      rowToStateFile (writes.foldl SetupRow.write row) =
        .ok (writes.foldl SetupStateFile.write state) from
    h _ _ (rowToStateFile_save state)
  induction writes with
  | nil => exact fun row state h => h
  | cons write writes ih => exact fun row state h => ih _ _ (rowToStateFile_write h write)

end Setup

end OoreBuild
