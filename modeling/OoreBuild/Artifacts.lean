import OoreBuild.BuildCreation
import OoreBuild.Lib.Run
import OoreBuild.Retention

/-!
# Storing a build's artifacts

After its steps the runner walks the workspace, packages every `.app` bundle that matches the
artifact patterns and uploads what it found, one file after the other: the daemon reserves an
artifact and hands out a URL (`createArtifact`), the runner puts the file there, and the daemon
makes the artifact available (`finishArtifact`). Content that the build has already is not
reserved again: the daemon answers with the artifact that holds it and no URL.
-/

namespace OoreBuild

open Text

/-! ## The daemon -/

def validArtifactTypes : List Text := ["apk", "ipa", "app", "aab", "generic"]

def isValidArtifactName (name : Text) : Bool :=
  !name.isEmpty && byteLen name ≤ 255 && '/' ∉ name && '\\' ∉ name

/-- An artifact row. -/
structure ArtifactRow where
  id : ℕ
  buildId : ℕ
  name : Text
  artifactType : Text
  fileSize : Option ℤ
  checksum : Option Text
  metadata : Text
  createdAt : ℤ
  expiresAt : Option ℤ
  state : ArtifactState
  finalizedAt : Option ℤ
  errorMessage : Option Text
  valid : isValidArtifactName name = true

/-- The key of an artifact's file. -/
def artifactKey (buildId id : ℕ) (name : Text) : Text :=
  join "/" ["artifacts", ofNat buildId, ofNat id, name]

def ArtifactRow.filePath (row : ArtifactRow) : Text := artifactKey row.buildId row.id row.name

/-- The daemon's rows and the files of its storage. -/
structure ArtifactStore where
  builds : Table Build.id
  artifacts : Table ArtifactRow.id
  objects : Text → Option (List UInt8)

/-- Where artifact files are stored: the URL for a key, unless storage is disabled, and the key
that a `PUT` to a URL writes, or the status that refuses it. -/
structure Storage where
  uploadUrl : Text → Option Text
  put : Text → Except ℕ Text

structure CreateArtifactRequest where
  name : Text
  artifactType : Text
  fileSize : Option ℤ
  checksum : Option Text
  metadata : Text

structure CreateArtifactResponse where
  artifact : ArtifactRow
  uploadUrl : Text

/-- A runner's request about one of its jobs. -/
structure RunnerRequest where
  /-- The runner that the token belongs to. -/
  authRunner : Text
  runnerId : Text
  jobId : ℕ
  now : ℤ
  /-- The expiry that the retention policy gives to artifacts. -/
  expiresAt : Option ℤ

def runnerMismatch (message : Text) : ApiError := ⟨403, "runner_mismatch", message⟩

def storeError (message : Text) : ApiError := ⟨500, "store_error", message⟩

/-- The checks of the request, before the build is looked up. -/
def checkArtifactRequest (call : RunnerRequest) (req : CreateArtifactRequest) :
    Except ApiError Unit :=
  if call.authRunner ≠ call.runnerId then
    .error (runnerMismatch "Runner token does not match the requested runner ID")
  else if !validArtifactTypes.contains req.artifactType then
    .error (badRequest "invalid_artifact_type"
      ("artifact_type must be one of: " ++ join ", " validArtifactTypes))
  else if !isValidArtifactName (trim req.name) then
    .error (badRequest "invalid_name"
      "Artifact name must be 1-255 characters and must not contain path separators")
  else .ok ()

/-- The build, when it is assigned to the runner. -/
def ArtifactStore.ownBuild (s : ArtifactStore) (call : RunnerRequest) : Except ApiError Build :=
  match s.builds.find call.jobId with
  | none => .error (notFound "Build not found")
  | some build =>
    if build.runnerId = some call.runnerId then .ok build
    else .error (runnerMismatch "This build is not assigned to your runner")

def ArtifactRow.holds (row : ArtifactRow) (buildId : ℕ) (checksum : Text) : Bool :=
  row.buildId = buildId && row.checksum = some checksum && row.state = .available

/-- The first available artifact of a build with a checksum. -/
def ArtifactStore.available (s : ArtifactStore) (buildId : ℕ) (checksum : Text) :
    Option ArtifactRow :=
  (s.artifacts.rows.filter fun row => row.holds buildId checksum).minOn? ArtifactRow.createdAt

/-- An id that no artifact has. -/
def ArtifactStore.freshArtifactId (s : ArtifactStore) : ℕ :=
  (s.artifacts.rows.map ArtifactRow.id).foldr max 0 + 1

theorem ArtifactStore.freshArtifactId_notMem (s : ArtifactStore) :
    s.freshArtifactId ∉ s.artifacts.rows.map ArtifactRow.id := by
  intro h
  have := le_foldr_max (m := 0) h
  unfold freshArtifactId at this
  omega

/-- Insert a pending artifact with the URL that its file goes to. -/
def insertArtifact (storage : Storage) (call : RunnerRequest) (req : CreateArtifactRequest)
    (valid : isValidArtifactName (trim req.name) = true) (s : ArtifactStore) :
    CreateArtifactResponse × ArtifactStore :=
  let row : ArtifactRow :=
    { id := s.freshArtifactId, buildId := call.jobId, name := trim req.name
      artifactType := req.artifactType, fileSize := req.fileSize
      checksum := normalizeOptional req.checksum, metadata := req.metadata
      createdAt := call.now, expiresAt := call.expiresAt, state := .pending, finalizedAt := none
      errorMessage := none, valid }
  (⟨row, (storage.uploadUrl row.filePath).getD ""⟩,
    { s with artifacts := s.artifacts.insert row s.freshArtifactId_notMem })

def createArtifact (storage : Storage) (call : RunnerRequest) (req : CreateArtifactRequest) :
    Run ArtifactStore ApiError CreateArtifactResponse := fun s =>
  match checkArtifactRequest call req, s.ownBuild call with
  | .error error, _ | .ok (), .error error => (.error error, s)
  | .ok (), .ok _ =>
    match (normalizeOptional req.checksum).bind (s.available call.jobId) with
    | some existing => (.ok ⟨existing, ""⟩, s)
    | none =>
      if valid : isValidArtifactName (trim req.name) = true then
        let (response, s) := insertArtifact storage call req valid s
        (.ok response, s)
      -- The name was checked above.
      else (.error (storeError "Failed to create artifact"), s)

/-- The row is a reservation that the runner may end. -/
def ArtifactStore.pendingOf (s : ArtifactStore) (call : RunnerRequest) (id : ℕ) :
    Option ArtifactRow :=
  (s.artifacts.find id).filter fun row => row.buildId = call.jobId && row.state = .pending &&
    (s.builds.find call.jobId).any fun build => build.runnerId = some call.runnerId

/-- A row whose upload has ended. -/
def ArtifactRow.finished (row : ArtifactRow) (now : ℤ) (available : Bool) (error : Option Text) :
    ArtifactRow :=
  { row with
    state := if available then .available else .failed
    finalizedAt := some now
    errorMessage := error }

/-- End an upload. -/
def ArtifactStore.finish (s : ArtifactStore) (id : ℕ) (now : ℤ) (available : Bool)
    (error : Option Text) : ArtifactStore :=
  { s with artifacts :=
      (s.artifacts.modify id (fun row => row.finished now available error) fun _ => rfl) }

/-- An upload that finished after its reservation was given up on left a file behind. -/
def ArtifactStore.removeAbandonedUpload (s : ArtifactStore) (call : RunnerRequest) (id : ℕ) :
    ArtifactStore :=
  match s.artifacts.find id with
  | some row =>
    if row.buildId = call.jobId ∧ row.state = .failed ∧
        row.errorMessage = some "upload reservation expired" then
      { s with objects := Function.update s.objects row.filePath none }
    else s
  | none => s

/-- Another available artifact of the build has the row's checksum, which the unique index
forbids. -/
def ArtifactStore.taken (s : ArtifactStore) (row : ArtifactRow) : Bool :=
  row.checksum.any fun checksum => trim checksum ≠ [] &&
    s.artifacts.rows.any fun other => other.holds row.buildId checksum

def finishArtifact (call : RunnerRequest) (id : ℕ) (available : Bool) (error : Option Text) :
    Run ArtifactStore ApiError Unit := fun s =>
  if call.authRunner ≠ call.runnerId then
    (.error (runnerMismatch "Runner token does not match the requested runner ID"), s)
  else
    match s.pendingOf call id with
    | none =>
      (.error (conflict "artifact_not_pending"
          "Artifact is not pending or does not belong to this runner job"),
        if available then s.removeAbandonedUpload call id else s)
    | some row =>
      if available && s.taken row then (.error (storeError "Failed to finalize artifact"), s)
      else (.ok (), s.finish id call.now available error)

/-! ## The workspace -/

/-- The entries of a directory. -/
inductive Listing where
  | nil
  | file (name : Text) (content : List UInt8) (rest : Listing)
  | symlink (name : Text) (rest : Listing)
  | dir (name : Text) (entries rest : Listing)

namespace Listing

def names : Listing → List Text
  | nil => []
  | file name _ rest | symlink name rest | dir name _ rest => name :: rest.names

/-- Names are not empty, have no separator and are distinct, in every directory. -/
def WellFormed : Listing → Prop
  | nil => True
  | file name _ rest | symlink name rest =>
      name ≠ [] ∧ '/' ∉ name ∧ name ∉ rest.names ∧ rest.WellFormed
  | dir name entries rest =>
      name ≠ [] ∧ '/' ∉ name ∧ name ∉ rest.names ∧ entries.WellFormed ∧ rest.WellFormed

end Listing

structure Workspace where
  entries : Listing
  wellFormed : entries.WellFormed

/-- The extension of a file name: what follows its last dot, unless the name starts there. -/
def fileExtension (name : Text) : Option Text :=
  match splitFirst "." name.reverse with
  | some (after, before) => if before.isEmpty || name = ".." then none else some after.reverse
  | none => none

/-- What the walk finds: a file, or a bundle with what is in it. -/
inductive FoundContent where
  | file (content : List UInt8)
  | bundle (entries : Listing)

/-- A file or a bundle, with the names of the directories above it and its own. -/
structure FoundArtifact where
  directories : List Text
  name : Text
  content : FoundContent

/-- The path relative to the workspace. -/
def FoundArtifact.relative (found : FoundArtifact) : Text := join "/" (found.directories ++ [found.name])

/-- Every file and bundle below a directory. Symbolic links and hidden directories are left out,
and a bundle is not looked into. -/
def walkArtifactCandidates : List Text → Listing → List FoundArtifact
  | _, .nil => []
  | above, .file name content rest =>
      ⟨above, name, .file content⟩ :: walkArtifactCandidates above rest
  | above, .symlink _ rest => walkArtifactCandidates above rest
  | above, .dir name entries rest =>
      (if startsWith name "." then []
        else if fileExtension name = some ("app" : Text) then [⟨above, name, .bundle entries⟩]
        else walkArtifactCandidates (above ++ [name]) entries) ++
      walkArtifactCandidates above rest

def Workspace.candidates (workspace : Workspace) : List FoundArtifact :=
  walkArtifactCandidates [] workspace.entries

def matchesPatterns (patterns : List Text) (relative : Text) : Bool :=
  patterns.any fun pattern => artifactPatternMatches pattern relative

/-- The matching files, each path once. -/
def selectFound (patterns : List Text) : List Text → List FoundArtifact → List FoundArtifact
  | _, [] => []
  | seen, found :: rest =>
    if !matchesPatterns patterns found.relative || seen.contains found.relative then
      selectFound patterns seen rest
    else found :: selectFound patterns (found.relative :: seen) rest

/-! ## The runner -/

/-- The SHA-256 digest of a file in hexadecimal digits. -/
structure Sha256 where
  hex : List UInt8 → Text
  length_hex : ∀ content, (hex content).length = 64
  digits : ∀ content, ∀ c ∈ hex content, c ∈ ("0123456789abcdef".toList)

/-- What the runner uploads with. -/
structure RunnerEnv where
  call : RunnerRequest
  daemonUrl : Text
  storage : Storage
  sha256 : Sha256
  /-- The archive that packaging a bundle writes. -/
  ditto : Text → Listing → List UInt8
  /-- Metadata of a signed IPA. -/
  iosMetadata : Option Text

/-- Where an upload reads its bytes: a file of the workspace, or a package by its name. -/
inductive UploadPath where
  | workspaceFile (content : List UInt8)
  | package (name : Text)

structure ArtifactUpload where
  path : UploadPath
  artifactType : Text
  name : Text

/-- Lowercase the letters whose lowercase is an ASCII letter: the ASCII ones and the Kelvin
sign. -/
def lowercaseExtension (ext : Text) : Text :=
  ext.map fun c => if c.toNat = 0x212A then 'k' else c.toLower

def artifactTypeForExtension (ext : Text) : Option Text :=
  let ext := lowercaseExtension ext
  if (["apk", "ipa", "aab"] : List Text).contains ext then some ext else none

def packageName (bundleName : Text) : Text := bundleName ++ ".zip"

/-- A found file as the runner uploads it. -/
def FoundArtifact.upload (found : FoundArtifact) : ArtifactUpload :=
  match found.content with
  | .bundle _ => ⟨.package found.name, "app", packageName found.name⟩
  | .file content => ⟨.workspaceFile content,
      ((fileExtension found.name).bind artifactTypeForExtension).getD "generic", found.name⟩

/-- Package the bundles in order: a bundle replaces the package of an earlier one of its name. -/
def packageBundles (env : RunnerEnv) (found : List FoundArtifact) : Text → List UInt8 :=
  found.foldl (fun packages found =>
    match found.content with
    | .bundle entries => Function.update packages found.name (env.ditto found.name entries)
    | .file _ => packages) fun _ => []

def ArtifactUpload.read (upload : ArtifactUpload) (packages : Text → List UInt8) : List UInt8 :=
  match upload.path with
  | .workspaceFile content => content
  | .package name => packages name

/-- The path that local storage takes uploads at. -/
def localUploadPath : Text := "/v1/artifacts/local-upload/"

/-- Uploads to local storage go to the daemon at the address that the runner knows. -/
def runnerArtifactUploadUrl (daemonUrl uploadUrl : Text) : Text :=
  match splitFirst localUploadPath uploadUrl with
  | some (_, token) => daemonUrl.rdropWhile (· = '/') ++ localUploadPath ++ token
  | none => uploadUrl

/-- Reserve an artifact, an App Bundle as `generic` at a daemon that does not know its type. -/
def reserveArtifact (env : RunnerEnv) (req : CreateArtifactRequest) :
    Run ArtifactStore Text CreateArtifactResponse := fun s =>
  let failed (status : ℕ) : Text :=
    "artifact reservation failed for " ++ req.name ++ " (HTTP " ++ ofNat status ++ ")"
  match createArtifact env.storage env.call req s with
  | (.ok response, s) => (.ok response, s)
  | (.error error, s) =>
    if error.status = 400 ∧ req.artifactType = "aab" ∧ error.code = "invalid_artifact_type" then
      match createArtifact env.storage env.call { req with artifactType := "generic" } s with
      | (.ok response, s) => (.ok response, s)
      | (.error error, s) => (.error (failed error.status), s)
    else (.error (failed error.status), s)

/-- The storage with a file written. -/
def ArtifactStore.putObject (s : ArtifactStore) (key : Text) (content : List UInt8) :
    ArtifactStore :=
  { s with objects := Function.update s.objects key (some content) }

/-- Put the file where its URL leads and make the artifact available. -/
def putAndComplete (env : RunnerEnv) (url : Text) (id : ℕ) (content : List UInt8) :
    Run ArtifactStore Text Unit := fun s =>
  match env.storage.put url with
  | .error status => (.error ("upload returned HTTP " ++ ofNat status), s)
  | .ok key =>
    match finishArtifact env.call id true none (s.putObject key content) with
    | (.ok (), s) => (.ok (), s)
    | (.error error, s) => (.error ("completion returned HTTP " ++ ofNat error.status), s)

/-- Give an artifact up, whatever the daemon answers. -/
def abortArtifact (env : RunnerEnv) (id : ℕ) (error : Text) (s : ArtifactStore) : ArtifactStore :=
  (finishArtifact env.call id false (some error) s).2

/-- The request that reserves an upload. -/
def ArtifactUpload.request (upload : ArtifactUpload) (env : RunnerEnv) (content : List UInt8) :
    CreateArtifactRequest :=
  { name := upload.name, artifactType := upload.artifactType
    fileSize := some content.length, checksum := some (env.sha256.hex content)
    metadata := if upload.artifactType = "ipa" then env.iosMetadata.getD "{}" else "{}" }

def uploadArtifact (env : RunnerEnv) (packages : Text → List UInt8) (upload : ArtifactUpload) :
    Run ArtifactStore Text Unit := fun s =>
  let content := upload.read packages
  match reserveArtifact env (upload.request env content) s with
  | (.error error, s) => (.error error, s)
  | (.ok response, s) =>
    let url := runnerArtifactUploadUrl env.daemonUrl response.uploadUrl
    if url.isEmpty then
      (.error ("artifact storage is not configured for " ++ upload.name),
        abortArtifact env response.artifact.id "artifact storage is not configured" s)
    else
      match putAndComplete env url response.artifact.id content s with
      | (.ok (), s) => (.ok (), s)
      | (.error error, s) => (.error ("failed to finalize artifact " ++ upload.name),
          abortArtifact env response.artifact.id error s)

def scanAndUploadArtifacts (env : RunnerEnv) (workspace : Workspace) (patterns : List Text) :
    Run ArtifactStore Text Unit :=
  if patterns.isEmpty then pure ()
  else
    let found := selectFound patterns [] workspace.candidates
    if found.isEmpty then
      Run.fail ("artifact patterns matched no files: " ++ join ", " patterns)
    else do
      let _ ← Run.forEach (uploadArtifact env (packageBundles env found)) (found.map (·.upload))

end OoreBuild
