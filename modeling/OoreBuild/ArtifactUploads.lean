import OoreBuild.Artifacts

/-!
# What uploading leaves available

The runner takes an empty URL to mean that artifact storage is off. The daemon answers with one
also when it has the content already, so a file with the content of another one fails the build.
Apart from that each matched file becomes the content of an available artifact.
-/

namespace OoreBuild

open Text

/-! ## Paths of the workspace -/

/-- The names on the way to a file. -/
def FoundArtifact.parts (found : FoundArtifact) : List Text := found.directories ++ [found.name]

theorem walk_parts {l : Listing} (hwell : l.WellFormed) {above : List Text} {found : FoundArtifact}
    (h : found ∈ walkArtifactCandidates above l) :
    ∃ name ∈ l.names, ∃ below, found.parts = above ++ name :: below ∧
      ∀ part ∈ name :: below, '/' ∉ part := by
  induction l generalizing above with
  | nil => cases h
  | file name content rest ih =>
    obtain ⟨-, hslash, -, hrest⟩ := hwell
    rcases List.mem_cons.mp h with rfl | h
    · exact ⟨name, List.mem_cons_self, [], rfl, by simpa using hslash⟩
    · obtain ⟨other, hother, below, hparts⟩ := ih hrest h
      exact ⟨other, List.mem_cons_of_mem _ hother, below, hparts⟩
  | symlink name rest ih =>
    obtain ⟨other, hother, below, hparts⟩ := ih hwell.2.2.2 h
    exact ⟨other, List.mem_cons_of_mem _ hother, below, hparts⟩
  | dir name entries rest ihentries ihrest =>
    obtain ⟨-, hslash, -, hentries, hrest⟩ := hwell
    rcases List.mem_append.mp h with h | h
    · split at h
      · cases h
      · split at h
        · obtain rfl := List.mem_singleton.mp h
          exact ⟨name, List.mem_cons_self, [], rfl, by simpa using hslash⟩
        · obtain ⟨other, -, below, hparts, hfree⟩ := ihentries hentries h
          refine ⟨name, List.mem_cons_self, other :: below, by simpa using hparts, ?_⟩
          intro part hpart
          rcases List.mem_cons.mp hpart with rfl | hpart
          · exact hslash
          · exact hfree part hpart
    · obtain ⟨other, hother, below, hparts⟩ := ihrest hrest h
      exact ⟨other, List.mem_cons_of_mem _ hother, below, hparts⟩

/-- Files below different names of a directory have different paths. -/
theorem walk_disjoint {l : Listing} (hwell : l.WellFormed) {above : List Text} {name : Text}
    (hname : name ∉ l.names) {found : FoundArtifact} (h : found ∈ walkArtifactCandidates above l)
    (below : List Text) : found.parts ≠ above ++ name :: below := by
  obtain ⟨other, hother, below', hparts, -⟩ := walk_parts hwell h
  rw [hparts]
  intro heq
  obtain ⟨rfl, -⟩ := List.cons.inj (List.append_cancel_left heq)
  exact hname hother

theorem walk_nodup {l : Listing} (hwell : l.WellFormed) (above : List Text) :
    ((walkArtifactCandidates above l).map FoundArtifact.parts).Nodup := by
  induction l generalizing above with
  | nil => exact List.nodup_nil
  | file name content rest ih =>
    obtain ⟨-, -, hname, hrest⟩ := hwell
    refine List.nodup_cons.mpr ⟨fun hmem => ?_, ih hrest above⟩
    obtain ⟨found, hfound, hparts⟩ := List.mem_map.mp hmem
    exact walk_disjoint hrest hname hfound [] hparts
  | symlink name rest ih => exact ih hwell.2.2.2 above
  | dir name entries rest ihentries ihrest =>
    obtain ⟨-, hslash, hname, hentries, hrest⟩ := hwell
    rw [walkArtifactCandidates, List.map_append]
    have hbelow : ∀ parts ∈ (if startsWith name "." then []
        else if fileExtension name = some ("app" : Text) then [⟨above, name, .bundle entries⟩]
        else walkArtifactCandidates (above ++ [name]) entries).map FoundArtifact.parts,
        ∃ below, parts = above ++ name :: below := by
      intro parts hmem
      obtain ⟨found, hfound, rfl⟩ := List.mem_map.mp hmem
      split at hfound
      · cases hfound
      · split at hfound
        · obtain rfl := List.mem_singleton.mp hfound
          exact ⟨[], rfl⟩
        · obtain ⟨other, -, below, hparts, -⟩ := walk_parts hentries hfound
          exact ⟨other :: below, by simpa using hparts⟩
    refine List.Nodup.append ?_ (ihrest hrest above) fun parts hparts hmem => ?_
    · split
      · exact List.nodup_nil
      · split
        · exact List.nodup_singleton _
        · exact ihentries hentries _
    · obtain ⟨found, hfound, rfl⟩ := List.mem_map.mp hmem
      obtain ⟨below, heq⟩ := hbelow _ hparts
      exact walk_disjoint hrest hname hfound below heq

/-- No two candidates of a workspace have one path. -/
theorem Workspace.nodup_relative (workspace : Workspace) :
    (workspace.candidates.map FoundArtifact.relative).Nodup := by
  have hnodup := walk_nodup workspace.wellFormed []
  have hrelative : workspace.candidates.map FoundArtifact.relative =
      (workspace.candidates.map FoundArtifact.parts).map (join "/") := by
    rw [List.map_map]
    rfl
  rw [hrelative]
  refine hnodup.map_on fun parts hparts parts' hparts' heq => ?_
  have hsplit : ∀ parts ∈ workspace.candidates.map FoundArtifact.parts,
      split (· = '/') (join "/" parts) = parts := by
    intro parts hmem
    obtain ⟨found, hfound, rfl⟩ := List.mem_map.mp hmem
    obtain ⟨name, -, below, hparts, hfree⟩ := walk_parts workspace.wellFormed hfound
    rw [hparts]
    exact split_join (by simp) hfree
  rw [← hsplit parts hparts, ← hsplit parts' hparts', heq]

/-- The files and bundles that the patterns match. -/
def matchedArtifacts (workspace : Workspace) (patterns : List Text) : List FoundArtifact :=
  workspace.candidates.filter fun found => matchesPatterns patterns found.relative

theorem selectFound_eq_filter {patterns : List Text} {l : List FoundArtifact}
    (hnodup : (l.map FoundArtifact.relative).Nodup) {seen : List Text}
    (hseen : ∀ found ∈ l, found.relative ∉ seen) :
    selectFound patterns seen l = l.filter fun found => matchesPatterns patterns found.relative := by
  induction l generalizing seen with
  | nil => rfl
  | cons found rest ih =>
    obtain ⟨hfirst, hrest⟩ := List.nodup_cons.mp hnodup
    rw [selectFound]
    by_cases hmatch : matchesPatterns patterns found.relative = true
    · have hnot : found.relative ∉ seen := hseen found List.mem_cons_self
      rw [if_neg (by simp [hmatch, hnot]), List.filter_cons, if_pos hmatch]
      rw [ih hrest fun other hother => ?_]
      rw [List.mem_cons, not_or]
      refine ⟨fun heq => hfirst ?_, hseen other (List.mem_cons_of_mem _ hother)⟩
      exact heq ▸ List.mem_map_of_mem hother
    · rw [if_pos (by simp [hmatch]), List.filter_cons, if_neg hmatch]
      exact ih hrest fun other hother => hseen other (List.mem_cons_of_mem _ hother)

theorem selectFound_candidates (workspace : Workspace) (patterns : List Text) :
    selectFound patterns [] workspace.candidates = matchedArtifacts workspace patterns :=
  selectFound_eq_filter workspace.nodup_relative (by simp)

/-! ## What the daemon holds -/

/-- An available artifact of the build has the content. -/
def ArtifactStore.Stored (s : ArtifactStore) (buildId : ℕ) (content : List UInt8) : Prop :=
  ∃ row ∈ s.artifacts.rows, row.buildId = buildId ∧ row.state = .available ∧
    s.objects row.filePath = some content

/-- An available artifact of the build has the checksum. -/
def ArtifactStore.Has (s : ArtifactStore) (buildId : ℕ) (checksum : Text) : Prop :=
  ∃ row ∈ s.artifacts.rows, row.holds buildId checksum = true

theorem ArtifactStore.available_eq_none_iff (s : ArtifactStore) (buildId : ℕ) (checksum : Text) :
    s.available buildId checksum = none ↔ ¬ s.Has buildId checksum := by
  unfold ArtifactStore.available ArtifactStore.Has
  rw [← Option.not_isSome_iff_eq_none, List.isSome_minOn?_iff, not_not, List.filter_eq_nil_iff]
  simp

theorem notMem_of_isValidArtifactName {name : Text} (h : isValidArtifactName name = true) :
    '/' ∉ name := by
  simp only [isValidArtifactName, Bool.and_eq_true, decide_eq_true_eq] at h
  exact h.1.2

theorem split_artifactKey (buildId id : ℕ) {name : Text} (h : isValidArtifactName name = true) :
    split (· = '/') (artifactKey buildId id name) =
      [("artifacts" : Text), ofNat buildId, ofNat id, name] := by
  refine split_join (List.cons_ne_nil _ _) fun part hpart => ?_
  simp only [List.mem_cons, List.not_mem_nil, or_false] at hpart
  rcases hpart with rfl | rfl | rfl | rfl
  · decide
  · exact notMem_ofNat rfl _
  · exact notMem_ofNat rfl _
  · exact notMem_of_isValidArtifactName h

/-- An artifact's key tells which one it is. -/
theorem artifactKey_ne {buildId buildId' id id' : ℕ} {name name' : Text}
    (hname : isValidArtifactName name = true) (hname' : isValidArtifactName name' = true)
    (hid : id ≠ id') : artifactKey buildId id name ≠ artifactKey buildId' id' name' := by
  intro heq
  have hparts := congrArg (split (· = '/')) heq
  rw [split_artifactKey _ _ hname, split_artifactKey _ _ hname'] at hparts
  simp only [List.cons.injEq, and_true, true_and] at hparts
  exact hid (ofNat_injective hparts.2.1)

/-! ## One upload -/

/-- The runner's requests are its own and its uploads reach the daemon's storage. -/
structure RunnerEnv.Connected (env : RunnerEnv) : Prop where
  auth : env.call.authRunner = env.call.runnerId
  reaches : ∀ key, ∃ url, env.storage.uploadUrl key = some url ∧
    runnerArtifactUploadUrl env.daemonUrl url ≠ [] ∧
    env.storage.put (runnerArtifactUploadUrl env.daemonUrl url) = .ok key

/-- The build is assigned to the runner. -/
def ArtifactStore.Owns (s : ArtifactStore) (env : RunnerEnv) : Prop :=
  ∃ build, s.builds.find env.call.jobId = some build ∧ build.runnerId = some env.call.runnerId

theorem ArtifactStore.Owns.ownBuild {s : ArtifactStore} {env : RunnerEnv} (h : s.Owns env) :
    ∃ build, s.ownBuild env.call = .ok build := by
  obtain ⟨build, hfind, hrunner⟩ := h
  refine ⟨build, ?_⟩
  unfold ArtifactStore.ownBuild
  rw [hfind]
  exact if_pos hrunner

/-- A digest is stored as it is sent. -/
theorem Sha256.normalized (sha256 : Sha256) (content : List UInt8) :
    normalizeOptional (some (sha256.hex content)) = some (sha256.hex content) := by
  have hdigit : ∀ c ∈ ("0123456789abcdef".toList), isWhitespace c = false := by
    have hall : ("0123456789abcdef".toList).all (fun c => !isWhitespace c) = true := rfl
    simpa using hall
  have htrim : trim (sha256.hex content) = sha256.hex content := by
    refine trim_eq_self (fun c hc => ?_) fun c hc => ?_
    · exact hdigit c (sha256.digits content c (List.mem_of_mem_head? hc))
    · exact hdigit c (sha256.digits content c (List.mem_of_mem_getLast? hc))
  have hne : sha256.hex content ≠ [] := by
    intro hnil
    have hlength := sha256.length_hex content
    rw [hnil] at hlength
    cases hlength
  simp [normalizeOptional, htrim, hne]

theorem mem_validArtifactTypes_upload (found : FoundArtifact) :
    found.upload.artifactType ∈ validArtifactTypes := by
  unfold FoundArtifact.upload
  split
  · show ("app" : Text) ∈ validArtifactTypes
    decide
  · dsimp only
    cases htype : (fileExtension found.name).bind artifactTypeForExtension with
    | none => decide
    | some artifactType =>
      obtain ⟨ext, -, hext⟩ := Option.bind_eq_some_iff.mp htype
      simp only [artifactTypeForExtension] at hext
      split at hext
      · rename_i hmem
        cases hext
        rw [List.contains_iff_mem] at hmem
        rw [Option.getD_some]
        simp only [List.mem_cons, List.not_mem_nil, or_false] at hmem
        rcases hmem with h | h | h <;> rw [h] <;> decide
      · cases hext

section

variable {env : RunnerEnv} {s : ArtifactStore} {req : CreateArtifactRequest}

/-- A name that the daemon does not take. -/
theorem createArtifact_of_not_valid (hconn : env.Connected)
    (htype : req.artifactType ∈ validArtifactTypes)
    (hname : isValidArtifactName (trim req.name) = false) :
    ∃ error, createArtifact env.storage env.call req s = (.error error, s) ∧
      error.code = "invalid_name" := by
  have hcheck : checkArtifactRequest env.call req = .error (badRequest "invalid_name"
      "Artifact name must be 1-255 characters and must not contain path separators") := by
    unfold checkArtifactRequest
    rw [if_neg (not_not.mpr hconn.auth), if_neg (by simpa using htype), if_pos (by simp [hname])]
  refine ⟨badRequest "invalid_name"
    "Artifact name must be 1-255 characters and must not contain path separators", ?_, rfl⟩
  unfold createArtifact
  rw [hcheck]

theorem checkArtifactRequest_ok (hconn : env.Connected)
    (htype : req.artifactType ∈ validArtifactTypes)
    (hname : isValidArtifactName (trim req.name) = true) :
    checkArtifactRequest env.call req = .ok () := by
  unfold checkArtifactRequest
  rw [if_neg (not_not.mpr hconn.auth), if_neg (by simpa using htype), if_neg (by simp [hname])]

/-- Content that the build has already: no URL. -/
theorem createArtifact_of_has (hconn : env.Connected) (howns : s.Owns env)
    (htype : req.artifactType ∈ validArtifactTypes)
    (hname : isValidArtifactName (trim req.name) = true) {checksum : Text}
    (hchecksum : normalizeOptional req.checksum = some checksum)
    (hhas : s.Has env.call.jobId checksum) :
    ∃ row, createArtifact env.storage env.call req s = (.ok ⟨row, ""⟩, s) := by
  obtain ⟨build, hbuild⟩ := howns.ownBuild
  obtain ⟨row, hrow⟩ : ∃ row, s.available env.call.jobId checksum = some row := by
    rw [← Option.ne_none_iff_exists', ne_eq, s.available_eq_none_iff]
    exact not_not.mpr hhas
  refine ⟨row, ?_⟩
  unfold createArtifact
  rw [checkArtifactRequest_ok hconn htype hname, hbuild, hchecksum]
  simp only [Option.bind_some, hrow]

/-- New content: a pending artifact. -/
theorem createArtifact_of_not_has (hconn : env.Connected) (howns : s.Owns env)
    (htype : req.artifactType ∈ validArtifactTypes)
    (hname : isValidArtifactName (trim req.name) = true) {checksum : Text}
    (hchecksum : normalizeOptional req.checksum = some checksum)
    (hhas : ¬ s.Has env.call.jobId checksum) :
    createArtifact env.storage env.call req s =
      (.ok (insertArtifact env.storage env.call req hname s).1,
        (insertArtifact env.storage env.call req hname s).2) := by
  obtain ⟨build, hbuild⟩ := howns.ownBuild
  have hnone := (s.available_eq_none_iff env.call.jobId checksum).mpr hhas
  unfold createArtifact
  rw [checkArtifactRequest_ok hconn htype hname, hbuild, hchecksum]
  simp only [Option.bind_some, hnone, hname, ↓reduceDIte]

end

/-- What one upload leaves: a further available artifact with the content. -/
structure Uploaded (env : RunnerEnv) (content : List UInt8) (s s' : ArtifactStore) : Prop where
  builds : s'.builds = s.builds
  has : ∀ checksum, s'.Has env.call.jobId checksum ↔
    s.Has env.call.jobId checksum ∨ checksum = env.sha256.hex content
  stored : s'.Stored env.call.jobId content
  kept : ∀ other, s.Stored env.call.jobId other → s'.Stored env.call.jobId other

theorem Uploaded.owns {env : RunnerEnv} {content : List UInt8} {s s' : ArtifactStore}
    (h : Uploaded env content s s') (howns : s.Owns env) : s'.Owns env := by
  unfold ArtifactStore.Owns
  rw [h.builds]
  exact howns

/-- A further row with the file at its own key. -/
theorem uploaded_of_row {env : RunnerEnv} {content : List UInt8} {s s' : ArtifactStore}
    (row : ArtifactRow) (hbuilds : s'.builds = s.builds)
    (hrows : s'.artifacts.rows = s.artifacts.rows ++ [row])
    (hobjects : s'.objects = Function.update s.objects row.filePath (some content))
    (hid : row.id ∉ s.artifacts.rows.map ArtifactRow.id) (hbuild : row.buildId = env.call.jobId)
    (hstate : row.state = .available) (hchecksum : row.checksum = some (env.sha256.hex content)) :
    Uploaded env content s s' := by
  refine ⟨hbuilds, fun checksum => ?_, ⟨row, ?_, hbuild, hstate, ?_⟩, ?_⟩
  · unfold ArtifactStore.Has
    rw [hrows]
    simp only [List.mem_append, List.mem_singleton, or_and_right, exists_or, exists_eq_left,
      ArtifactRow.holds, hbuild, hstate, hchecksum, decide_true, Bool.true_and, Bool.and_true,
      decide_eq_true_eq, Option.some.injEq]
    rw [eq_comm (a := checksum)]
  · rw [hrows]
    exact List.mem_append_right _ (List.mem_singleton_self row)
  · rw [hobjects, Function.update_self]
  · rintro other ⟨old, hold, hbuild', hstate', hobject⟩
    refine ⟨old, by rw [hrows]; exact List.mem_append_left _ hold, hbuild', hstate', ?_⟩
    have hne : old.filePath ≠ row.filePath :=
      artifactKey_ne old.valid row.valid fun heq => hid (heq ▸ List.mem_map_of_mem hold)
    rw [hobjects, Function.update_of_ne hne]
    exact hobject

section

variable {env : RunnerEnv} {s s' : ArtifactStore} {req : CreateArtifactRequest}

theorem reserveArtifact_of_ok {response : CreateArtifactResponse}
    (h : createArtifact env.storage env.call req s = (.ok response, s')) :
    reserveArtifact env req s = (.ok response, s') := by
  unfold reserveArtifact
  simp only [h]

/-- Only the answer that the type is unknown is asked again. -/
theorem reserveArtifact_of_error {error : ApiError}
    (h : createArtifact env.storage env.call req s = (.error error, s'))
    (hcode : error.code ≠ "invalid_artifact_type") :
    ∃ text, reserveArtifact env req s = (.error text, s') := by
  refine ⟨"artifact reservation failed for " ++ req.name ++ " (HTTP " ++ ofNat error.status ++ ")",
    ?_⟩
  unfold reserveArtifact
  simp only [h]
  rw [if_neg fun hall => hcode hall.2.2]

/-- A pending artifact of the runner's build becomes available with the file that was put. -/
theorem putAndComplete_ok (hconn : env.Connected) (howns : s.Owns env) {row : ArtifactRow}
    (hfind : s.artifacts.find row.id = some row) (hbuild : row.buildId = env.call.jobId)
    (hstate : row.state = .pending) (htaken : s.taken row = false) {url : Text}
    (hput : env.storage.put url = .ok row.filePath) (content : List UInt8) :
    putAndComplete env url row.id content s =
      (.ok (), (s.putObject row.filePath content).finish row.id env.call.now true none) := by
  obtain ⟨build, hjob, hrunner⟩ := howns
  have hpending : (s.putObject row.filePath content).pendingOf env.call row.id = some row := by
    unfold ArtifactStore.pendingOf ArtifactStore.putObject
    simp only [hfind, hbuild, hstate, hjob, hrunner, Option.any_some, decide_true, Bool.and_self,
      Option.filter_some, ↓reduceIte]
  have htaken' : (s.putObject row.filePath content).taken row = false := htaken
  unfold putAndComplete
  rw [hput]
  dsimp only
  unfold finishArtifact
  rw [if_neg (not_not.mpr hconn.auth), hpending]
  simp only [htaken', Bool.and_false, Bool.false_eq_true, ↓reduceIte]

end

section

variable {env : RunnerEnv} {s : ArtifactStore} {packages : Text → List UInt8}
  {upload : ArtifactUpload}

/-- A file whose name the daemon does not take, or whose content the build has already, fails. -/
theorem uploadArtifact_refused (hconn : env.Connected) (howns : s.Owns env)
    (htype : upload.artifactType ∈ validArtifactTypes)
    (h : isValidArtifactName (trim upload.name) = false ∨
      s.Has env.call.jobId (env.sha256.hex (upload.read packages))) :
    ∃ error s', uploadArtifact env packages upload s = (.error error, s') := by
  have hrequest : (upload.request env (upload.read packages)).artifactType ∈ validArtifactTypes :=
    htype
  unfold uploadArtifact
  cases hname : isValidArtifactName (trim upload.name) with
  | false =>
    obtain ⟨error, hcreate, hcode⟩ := createArtifact_of_not_valid (s := s) hconn hrequest hname
    obtain ⟨text, hreserve⟩ := reserveArtifact_of_error hcreate (by rw [hcode]; decide)
    refine ⟨text, s, ?_⟩
    simp only [hreserve]
  | true =>
    have hhas := h.resolve_left (by simp [hname])
    obtain ⟨row, hcreate⟩ := createArtifact_of_has hconn howns hrequest hname
      (env.sha256.normalized (upload.read packages)) hhas
    -- The daemon's answer has no URL, which the runner takes for storage that is off.
    refine ⟨"artifact storage is not configured for " ++ upload.name,
      abortArtifact env row.id "artifact storage is not configured" s, ?_⟩
    simp only [reserveArtifact_of_ok hcreate]
    rfl

/-- A file with a good name and new content becomes an available artifact. -/
theorem uploadArtifact_stored (hconn : env.Connected) (howns : s.Owns env)
    (htype : upload.artifactType ∈ validArtifactTypes)
    (hname : isValidArtifactName (trim upload.name) = true)
    (hhas : ¬ s.Has env.call.jobId (env.sha256.hex (upload.read packages))) :
    ∃ s', uploadArtifact env packages upload s = (.ok (), s') ∧
      Uploaded env (upload.read packages) s s' := by
  have hrequest : (upload.request env (upload.read packages)).artifactType ∈ validArtifactTypes :=
    htype
  have hnormal := env.sha256.normalized (upload.read packages)
  have hcreate := createArtifact_of_not_has hconn howns hrequest hname hnormal hhas
  obtain ⟨row, hrow⟩ : ∃ row, row = (insertArtifact env.storage env.call
      (upload.request env (upload.read packages)) hname s).1.artifact := ⟨_, rfl⟩
  obtain ⟨s₁, hs₁⟩ : ∃ s₁, s₁ = (insertArtifact env.storage env.call
      (upload.request env (upload.read packages)) hname s).2 := ⟨_, rfl⟩
  obtain ⟨url, hurl, hne, hput⟩ := hconn.reaches row.filePath
  have hfresh : row.id ∉ s.artifacts.rows.map ArtifactRow.id := by
    rw [hrow]
    exact s.freshArtifactId_notMem
  have hchecksum : row.checksum = some (env.sha256.hex (upload.read packages)) := by
    rw [hrow]
    exact hnormal
  have hstate : row.state = .pending := by rw [hrow]; rfl
  have hbuild : row.buildId = env.call.jobId := by rw [hrow]; rfl
  have hinsert : s₁ = { s with artifacts := s.artifacts.insert row hfresh } := by
    subst hrow hs₁
    rfl
  have hfind : s₁.artifacts.find row.id = some row := by
    rw [hinsert, Table.find_insert, if_pos rfl]
  have htaken : s₁.taken row = false := by
    have hnone : s₁.artifacts.rows.any (fun other => other.holds row.buildId
        (env.sha256.hex (upload.read packages))) = false := by
      rw [hinsert]
      show (s.artifacts.rows ++ [row]).any _ = false
      rw [List.any_append, Bool.or_eq_false_iff, List.any_eq_false]
      refine ⟨fun other hother hholds => hhas ⟨other, hother, hbuild ▸ hholds⟩, ?_⟩
      simp [ArtifactRow.holds, hstate]
    unfold ArtifactStore.taken
    rw [hchecksum, Option.any_some, hnone, Bool.and_false]
  have howns₁ : s₁.Owns env := by
    rw [hinsert]
    exact howns
  have hdone := putAndComplete_ok hconn howns₁ hfind hbuild hstate htaken hput
    (upload.read packages)
  have hresponse : (insertArtifact env.storage env.call (upload.request env (upload.read packages))
      hname s).1.uploadUrl = url := by
    show (env.storage.uploadUrl (insertArtifact env.storage env.call
      (upload.request env (upload.read packages)) hname s).1.artifact.filePath).getD [] = url
    rw [← hrow, hurl, Option.getD_some]
  have huploaded : Uploaded env (upload.read packages) s
      ((s₁.putObject row.filePath (upload.read packages)).finish row.id env.call.now true none) := by
    rw [hinsert]
    refine uploaded_of_row (row.finished env.call.now true none) rfl ?_ rfl hfresh hbuild rfl
      hchecksum
    exact s.artifacts.rows_modify_insert row hfresh
      (fun row => row.finished env.call.now true none) fun _ => rfl
  refine ⟨_, ?_, huploaded⟩
  unfold uploadArtifact
  simp only [reserveArtifact_of_ok hcreate, ← hrow, ← hs₁, hresponse]
  rw [if_neg (by simpa using hne), hdone]

end

/-! ## All uploads -/

/-- What lets all uploads succeed: good names and contents that are new, to the build and among
each other. -/
structure Uploadable (env : RunnerEnv) (packages : Text → List UInt8) (s : ArtifactStore)
    (uploads : List ArtifactUpload) : Prop where
  names : ∀ upload ∈ uploads, isValidArtifactName (trim upload.name) = true
  distinct : (uploads.map fun upload => env.sha256.hex (upload.read packages)).Nodup
  new : ∀ upload ∈ uploads, ¬ s.Has env.call.jobId (env.sha256.hex (upload.read packages))

theorem uploadable_cons_iff {env : RunnerEnv} {packages : Text → List UInt8}
    {s s' : ArtifactStore} {upload : ArtifactUpload} {rest : List ArtifactUpload}
    (h : Uploaded env (upload.read packages) s s') :
    Uploadable env packages s (upload :: rest) ↔
      isValidArtifactName (trim upload.name) = true ∧
      ¬ s.Has env.call.jobId (env.sha256.hex (upload.read packages)) ∧
      Uploadable env packages s' rest := by
  constructor
  · rintro ⟨hnames, hdistinct, hnew⟩
    obtain ⟨hfirst, hrest⟩ := List.nodup_cons.mp hdistinct
    refine ⟨hnames _ List.mem_cons_self, hnew _ List.mem_cons_self,
      fun other hother => hnames _ (List.mem_cons_of_mem _ hother), hrest, fun other hother => ?_⟩
    rw [h.has, not_or]
    refine ⟨hnew _ (List.mem_cons_of_mem _ hother), fun heq => hfirst ?_⟩
    exact List.mem_map.mpr ⟨other, hother, heq⟩
  · rintro ⟨hname, hhas, hnames, hdistinct, hnew⟩
    have hold : ∀ other ∈ rest, ¬ s.Has env.call.jobId (env.sha256.hex (other.read packages)) ∧
        env.sha256.hex (other.read packages) ≠ env.sha256.hex (upload.read packages) := by
      intro other hother
      have hother := hnew other hother
      rwa [h.has, not_or] at hother
    refine ⟨?_, List.nodup_cons.mpr ⟨fun hmem => ?_, hdistinct⟩, ?_⟩
    · intro other hother
      rcases List.mem_cons.mp hother with rfl | hother
      · exact hname
      · exact hnames other hother
    · obtain ⟨other, hother, heq⟩ := List.mem_map.mp hmem
      exact (hold other hother).2 heq
    · intro other hother
      rcases List.mem_cons.mp hother with rfl | hother
      · exact hhas
      · exact (hold other hother).1

/-- All uploads succeed where nothing stands against one, and then all contents are stored. -/
theorem forEach_uploadArtifact {env : RunnerEnv} (hconn : env.Connected)
    (packages : Text → List UInt8) {uploads : List ArtifactUpload}
    (htypes : ∀ upload ∈ uploads, upload.artifactType ∈ validArtifactTypes) {s : ArtifactStore}
    (howns : s.Owns env) :
    (Uploadable env packages s uploads ∧
      ∃ rs s', Run.forEach (uploadArtifact env packages) uploads s = (.ok rs, s') ∧
        (∀ upload ∈ uploads, s'.Stored env.call.jobId (upload.read packages)) ∧
        ∀ content, s.Stored env.call.jobId content → s'.Stored env.call.jobId content) ∨
    (¬ Uploadable env packages s uploads ∧
      ∃ error s', Run.forEach (uploadArtifact env packages) uploads s = (.error error, s')) := by
  induction uploads generalizing s with
  | nil => exact .inl ⟨⟨by simp, List.nodup_nil, by simp⟩, [], s, rfl, by simp, fun _ h => h⟩
  | cons upload rest ih =>
    have htype := htypes upload List.mem_cons_self
    by_cases hgood : isValidArtifactName (trim upload.name) = true ∧
        ¬ s.Has env.call.jobId (env.sha256.hex (upload.read packages))
    · obtain ⟨s₁, hok, huploaded⟩ :=
        uploadArtifact_stored hconn howns htype hgood.1 hgood.2
      rw [uploadable_cons_iff huploaded]
      rcases ih (fun other hother => htypes other (List.mem_cons_of_mem _ hother))
        (huploaded.owns howns) with
        ⟨hrest, rs, s', hrun, hstored, hkept⟩ | ⟨hrest, error, s', hrun⟩
      · refine .inl ⟨⟨hgood.1, hgood.2, hrest⟩, () :: rs, s', ?_, fun other hother => ?_,
          fun content h => hkept content (huploaded.kept content h)⟩
        · exact (Run.bind_of_ok hok).trans ((Run.bind_of_ok hrun).trans rfl)
        · rcases List.mem_cons.mp hother with rfl | hother
          · exact hkept _ huploaded.stored
          · exact hstored other hother
      · refine .inr ⟨fun h => hrest h.2.2, error, s', ?_⟩
        exact (Run.bind_of_ok hok).trans (Run.bind_of_error hrun)
    · have hrefused : isValidArtifactName (trim upload.name) = false ∨
          s.Has env.call.jobId (env.sha256.hex (upload.read packages)) := by
        rcases Bool.eq_false_or_eq_true (isValidArtifactName (trim upload.name)) with h | h
        · exact .inr (not_not.mp fun hhas => hgood ⟨h, hhas⟩)
        · exact .inl h
      obtain ⟨error, s', herror⟩ := uploadArtifact_refused hconn howns htype hrefused
      refine .inr ⟨fun h => ?_, error, s', Run.bind_of_error herror⟩
      exact hgood ⟨h.names _ List.mem_cons_self, h.new _ List.mem_cons_self⟩

/-! ## Bundles and their packages -/

def FoundArtifact.isBundle (found : FoundArtifact) : Bool :=
  match found.content with
  | .bundle _ => true
  | .file _ => false

/-- The bytes of a file, or of the package of a bundle. -/
def FoundArtifact.own (env : RunnerEnv) (found : FoundArtifact) : List UInt8 :=
  match found.content with
  | .file content => content
  | .bundle entries => env.ditto found.name entries

def bundleNames (found : List FoundArtifact) : List Text :=
  (found.filter (·.isBundle)).map (·.name)

/-- Packaging what was found, after other packages. -/
def packageAfter (env : RunnerEnv) (packages : Text → List UInt8) (found : List FoundArtifact) :
    Text → List UInt8 :=
  found.foldl (fun packages found =>
    match found.content with
    | .bundle entries => Function.update packages found.name (env.ditto found.name entries)
    | .file _ => packages) packages

theorem packageAfter_of_notMem (env : RunnerEnv) {name : Text} {found : List FoundArtifact}
    (h : name ∉ bundleNames found) (packages : Text → List UInt8) :
    packageAfter env packages found name = packages name := by
  induction found generalizing packages with
  | nil => rfl
  | cons first rest ih =>
    obtain ⟨directories, other, content⟩ := first
    cases content with
    | file content => exact ih h packages
    | bundle entries =>
      have hnot : name ≠ other ∧ name ∉ bundleNames rest := by
        simpa [bundleNames, FoundArtifact.isBundle] using h
      refine (ih hnot.2 _).trans ?_
      exact Function.update_of_ne hnot.1 _ _

/-- Where bundles have different names, every upload reads what was found. -/
theorem read_packageAfter (env : RunnerEnv) {found : List FoundArtifact}
    (hnodup : (bundleNames found).Nodup) (packages : Text → List UInt8) :
    ∀ one ∈ found, one.upload.read (packageAfter env packages found) = one.own env := by
  induction found generalizing packages with
  | nil => simp
  | cons first rest ih =>
    intro one hone
    obtain ⟨directories, name, content⟩ := first
    cases content with
    | file content =>
      rcases List.mem_cons.mp hone with rfl | hone
      · rfl
      · exact ih hnodup packages one hone
    | bundle entries =>
      obtain ⟨hname, hrest⟩ : name ∉ bundleNames rest ∧ (bundleNames rest).Nodup := by
        simpa [bundleNames, FoundArtifact.isBundle] using hnodup
      rcases List.mem_cons.mp hone with rfl | hone
      · refine (packageAfter_of_notMem env hname _).trans ?_
        exact Function.update_self _ _ _
      · exact ih hrest _ one hone

/-- Uploads with different contents are of bundles with different names. -/
theorem bundleNames_nodup {env : RunnerEnv} {packages : Text → List UInt8}
    {found : List FoundArtifact}
    (h : (found.map fun one => env.sha256.hex (one.upload.read packages)).Nodup) :
    (bundleNames found).Nodup := by
  have hbundles : ((found.filter (·.isBundle)).map fun one =>
      env.sha256.hex (one.upload.read packages)).Nodup :=
    h.sublist (List.filter_sublist.map _)
  have hread : (found.filter (·.isBundle)).map (fun one =>
      env.sha256.hex (one.upload.read packages)) =
        (bundleNames found).map fun name => env.sha256.hex (packages name) := by
    rw [bundleNames, List.map_map]
    refine List.map_congr_left fun one hone => ?_
    obtain ⟨directories, name, content⟩ := one
    cases content with
    | bundle entries => rfl
    | file content => cases (List.mem_filter.mp hone).2
  rw [hread] at hbundles
  exact List.Nodup.of_map _ hbundles

/-! ## Every match stored -/

/-- The scan succeeds and the bytes of every match, as a file or as the package of a bundle, are
the content of an available artifact. -/
def StoresMatches (env : RunnerEnv) (workspace : Workspace) (patterns : List Text)
    (s : ArtifactStore) : Prop :=
  ∃ s', scanAndUploadArtifacts env workspace patterns s = (.ok (), s') ∧
    ∀ found ∈ workspace.candidates, matchesPatterns patterns found.relative = true →
      s'.Stored env.call.jobId (found.own env)

/-- Something matches, under names that the daemon takes, with bundles of different names and with
contents that are new, to the build and among each other. -/
structure DistinctMatches (env : RunnerEnv) (workspace : Workspace) (patterns : List Text)
    (s : ArtifactStore) : Prop where
  some_match : matchedArtifacts workspace patterns ≠ []
  names : ∀ found ∈ matchedArtifacts workspace patterns,
    isValidArtifactName (trim found.upload.name) = true
  bundles : (bundleNames (matchedArtifacts workspace patterns)).Nodup
  distinct : ((matchedArtifacts workspace patterns).map fun found =>
    env.sha256.hex (found.own env)).Nodup
  new : ∀ found ∈ matchedArtifacts workspace patterns,
    ¬ s.Has env.call.jobId (env.sha256.hex (found.own env))

theorem uploadable_iff {env : RunnerEnv} {s : ArtifactStore} {found : List FoundArtifact} :
    Uploadable env (packageBundles env found) s (found.map (·.upload)) ↔
      (∀ one ∈ found, isValidArtifactName (trim one.upload.name) = true) ∧
      (bundleNames found).Nodup ∧
      (found.map fun one => env.sha256.hex (one.own env)).Nodup ∧
      ∀ one ∈ found, ¬ s.Has env.call.jobId (env.sha256.hex (one.own env)) := by
  have hread : (bundleNames found).Nodup → ∀ one ∈ found,
      one.upload.read (packageBundles env found) = one.own env :=
    fun hnodup => read_packageAfter env hnodup fun _ => []
  have hmap : (bundleNames found).Nodup →
      (found.map fun one => env.sha256.hex (one.upload.read (packageBundles env found))) =
        found.map fun one => env.sha256.hex (one.own env) := fun hnodup =>
    List.map_congr_left fun one hone => congrArg env.sha256.hex (hread hnodup one hone)
  constructor
  · rintro ⟨hnames, hdistinct, hnew⟩
    rw [List.map_map] at hdistinct
    have hnodup : (bundleNames found).Nodup := bundleNames_nodup hdistinct
    refine ⟨fun one hone => hnames _ (List.mem_map_of_mem hone), hnodup, hmap hnodup ▸ hdistinct,
      fun one hone => ?_⟩
    rw [← hread hnodup one hone]
    exact hnew _ (List.mem_map_of_mem hone)
  · rintro ⟨hnames, hnodup, hdistinct, hnew⟩
    refine ⟨fun upload hupload => ?_, ?_, fun upload hupload => ?_⟩
    · obtain ⟨one, hone, rfl⟩ := List.mem_map.mp hupload
      exact hnames one hone
    · rw [List.map_map]
      exact (hmap hnodup).symm ▸ hdistinct
    · obtain ⟨one, hone, rfl⟩ := List.mem_map.mp hupload
      rw [hread hnodup one hone]
      exact hnew one hone

/-- With storage configured and every call going through, the scan stores the bytes of every match
exactly when there are no patterns, or something matches and no match shares its content or its
package with another one or with an artifact that the build has. A content that is there already
fails the build. -/
theorem stores_matches_iff {env : RunnerEnv} (hconn : env.Connected) (workspace : Workspace)
    (patterns : List Text) {s : ArtifactStore} (howns : s.Owns env) :
    StoresMatches env workspace patterns s ↔
      patterns = [] ∨ DistinctMatches env workspace patterns s := by
  cases patterns with
  | nil => exact iff_of_true ⟨s, rfl, fun _ _ h => by cases h⟩ (.inl rfl)
  | cons pattern more =>
    have hscan : scanAndUploadArtifacts env workspace (pattern :: more) =
        if (matchedArtifacts workspace (pattern :: more)).isEmpty then
          Run.fail ("artifact patterns matched no files: " ++ join ", " (pattern :: more))
        else Run.forEach (uploadArtifact env (packageBundles env
          (matchedArtifacts workspace (pattern :: more))))
            ((matchedArtifacts workspace (pattern :: more)).map (·.upload)) >>= fun _ => pure () := by
      unfold scanAndUploadArtifacts
      rw [if_neg (by simp), selectFound_candidates]
    rw [or_iff_right (List.cons_ne_nil _ _), StoresMatches, hscan]
    generalize hpatterns : pattern :: more = patterns
    by_cases hempty : matchedArtifacts workspace patterns = []
    · rw [if_pos (by simp [hempty])]
      refine iff_of_false ?_ fun h => h.some_match hempty
      rintro ⟨s', hrun, -⟩
      cases hrun
    rw [if_neg (by simpa using hempty)]
    have htypes : ∀ upload ∈ (matchedArtifacts workspace patterns).map (·.upload),
        upload.artifactType ∈ validArtifactTypes := by
      intro upload hupload
      obtain ⟨one, -, rfl⟩ := List.mem_map.mp hupload
      exact mem_validArtifactTypes_upload one
    have hcondition : DistinctMatches env workspace patterns s ↔
        Uploadable env (packageBundles env (matchedArtifacts workspace patterns)) s
          ((matchedArtifacts workspace patterns).map (·.upload)) := by
      rw [uploadable_iff]
      exact ⟨fun h => ⟨h.names, h.bundles, h.distinct, h.new⟩,
        fun h => ⟨hempty, h.1, h.2.1, h.2.2.1, h.2.2.2⟩⟩
    rw [hcondition]
    rcases forEach_uploadArtifact hconn (packageBundles env (matchedArtifacts workspace patterns))
      htypes howns with
      ⟨hgood, rs, s', hrun, hstored, -⟩ | ⟨hbad, error, s', hrun⟩
    · refine iff_of_true ⟨s', (Run.bind_of_ok hrun).trans rfl, fun one hone hmatch => ?_⟩ hgood
      have hmem : one ∈ matchedArtifacts workspace patterns := List.mem_filter.mpr ⟨hone, hmatch⟩
      have hnodup := (uploadable_iff.mp hgood).2.1
      rw [← read_packageAfter env hnodup (fun _ => []) one hmem]
      exact hstored _ (List.mem_map_of_mem hmem)
    · refine iff_of_false ?_ hbad
      rintro ⟨s'', hok, -⟩
      rw [Run.bind_of_error hrun] at hok
      cases hok

/-! ## Local storage -/

/-- The daemon's own storage: URLs at its public address with a token for the key. -/
def localStorage (publicBaseUrl daemonUrl : Text) (token : Text → Text) (keyOf : Text → Option Text) :
    Storage where
  uploadUrl key := some (publicBaseUrl ++ localUploadPath ++ token key)
  put url :=
    match splitFirst localUploadPath url with
    | some (host, token) =>
      if host = daemonUrl.rdropWhile (· = '/') then
        match keyOf token with
        | some key => .ok key
        | none => .error 401
      else .error 404
    | none => .error 404

/-- Where neither address hides the upload path, an upload reaches the key that its token stands
for, whatever public address the daemon has. -/
theorem localStorage_reaches {publicBaseUrl daemonUrl : Text} {token : Text → Text}
    {keyOf : Text → Option Text} (htoken : ∀ key, keyOf (token key) = some key)
    (hpublic : splitFirst localUploadPath (publicBaseUrl ++ localUploadPath) =
      some (publicBaseUrl, []))
    (hdaemon : splitFirst localUploadPath (daemonUrl.rdropWhile (· = '/') ++ localUploadPath) =
      some (daemonUrl.rdropWhile (· = '/'), [])) (key : Text) :
    ∃ url, (localStorage publicBaseUrl daemonUrl token keyOf).uploadUrl key = some url ∧
      runnerArtifactUploadUrl daemonUrl url ≠ [] ∧
      (localStorage publicBaseUrl daemonUrl token keyOf).put (runnerArtifactUploadUrl daemonUrl url) =
        .ok key := by
  refine ⟨_, rfl, ?_⟩
  have hurl : runnerArtifactUploadUrl daemonUrl (publicBaseUrl ++ localUploadPath ++ token key) =
      daemonUrl.rdropWhile (· = '/') ++ localUploadPath ++ token key := by
    unfold runnerArtifactUploadUrl
    rw [splitFirst_append hpublic (token key)]
    rfl
  rw [hurl]
  constructor
  · intro hnil
    rw [List.append_eq_nil_iff, List.append_eq_nil_iff] at hnil
    exact absurd hnil.1.2 (by decide)
  · show (match splitFirst localUploadPath
        (daemonUrl.rdropWhile (· = '/') ++ localUploadPath ++ token key) with
      | some (host, token) => _
      | none => _) = _
    rw [splitFirst_append hdaemon (token key)]
    simp [htoken]

/-! ## Two files of a build -/

/-- The digests of the empty file, of `a` and of `b`. -/
def sampleDigests : Sha256 where
  hex content :=
    if content = [97] then "ca978112ca1bbdcafac231b39a23dc4da786eff8147c4e72b9807785afee48bb"
    else if content = [98] then "3e23e8160039594a33894f6564e1b1348bbd7a0088d42c4acb73eeaed59c009d"
    else "e3b0c44298fc1c149afbf4c8996fb92427ae41e4649b934ca495991b7852b855"
  length_hex content := by split_ifs <;> rfl
  digits content c hc := by
    have hall : ∀ t : Text, t.all (fun c => ("0123456789abcdef".toList).contains c) = true →
        c ∈ t → c ∈ ("0123456789abcdef".toList) := fun t ht hc => by
      simpa using List.all_eq_true.mp ht c hc
    split_ifs at hc
    · exact hall _ rfl hc
    · exact hall _ rfl hc
    · exact hall _ rfl hc

/-- A runner of a daemon with local storage. -/
def sampleEnv : RunnerEnv where
  call := { authRunner := "r1", runnerId := "r1", jobId := 1, now := 0, expiresAt := none }
  daemonUrl := "http://127.0.0.1:8787/"
  storage := localStorage "https://ci.example" "http://127.0.0.1:8787/" id some
  sha256 := sampleDigests
  ditto _ _ := []
  iosMetadata := none

theorem sampleEnv_connected : sampleEnv.Connected :=
  ⟨rfl, localStorage_reaches (fun _ => rfl) (by decide +kernel) (by decide +kernel)⟩

/-- A daemon with a build of that runner and no artifacts. -/
def sampleStore : ArtifactStore where
  builds := ⟨[{ id := 1, projectId := "p1", pipelineId := "pl1", buildNumber := 1
                status := .running, branch := none, commitSha := none
                snapshot := createConfigSnapshot "repo" "https://git.example/app.git" none
                webhookId := none, sourceBuildId := none, approvalRequestedAt := none
                runnerId := some "r1" }], List.nodup_singleton _⟩
  artifacts := ⟨[], List.nodup_nil⟩
  objects _ := none

theorem sampleStore_owns : sampleStore.Owns sampleEnv := ⟨_, rfl, rfl⟩

/-- A workspace with two files. -/
def twoFiles (first second : List UInt8) : Workspace where
  entries := .file "a.txt" first (.file "b.txt" second .nil)
  wellFormed := by simp [Listing.WellFormed, Listing.names]

theorem matchedArtifacts_twoFiles (first second : List UInt8) :
    matchedArtifacts (twoFiles first second) ["*.txt"] =
      [⟨[], "a.txt", .file first⟩, ⟨[], "b.txt", .file second⟩] := by
  have hmatch : ∀ name ∈ (["a.txt", "b.txt"] : List Text), matchesPatterns ["*.txt"]
      (join "/" ([] ++ [name])) = true := by decide +kernel
  have hfirst : matchesPatterns ["*.txt"] (FoundArtifact.relative ⟨[], "a.txt", .file first⟩) =
      true := hmatch _ (by simp)
  have hsecond : matchesPatterns ["*.txt"] (FoundArtifact.relative ⟨[], "b.txt", .file second⟩) =
      true := hmatch _ (by simp)
  show List.filter _ ([⟨[], "a.txt", .file first⟩, ⟨[], "b.txt", .file second⟩] :
    List FoundArtifact) = _
  rw [List.filter_cons, if_pos hfirst, List.filter_cons, if_pos hsecond]
  rfl

theorem stores_different_files :
    StoresMatches sampleEnv (twoFiles [97] [98]) ["*.txt"] sampleStore := by
  refine (stores_matches_iff sampleEnv_connected _ _ sampleStore_owns).mpr (.inr ?_)
  have hmatched := matchedArtifacts_twoFiles [97] [98]
  refine ⟨hmatched ▸ List.cons_ne_nil _ _, ?_, ?_, ?_, ?_⟩
  · rw [hmatched]
    decide +kernel
  · rw [hmatched]
    exact List.nodup_nil
  · rw [hmatched]
    decide +kernel
  · rintro found hfound ⟨row, hrow, -⟩
    cases hrow

/-- Two files with one content fail the build. -/
theorem equal_files_fail :
    ¬ ∀ (env : RunnerEnv) (workspace : Workspace) (patterns : List Text) (s : ArtifactStore),
      env.Connected → s.Owns env → matchedArtifacts workspace patterns ≠ [] →
      StoresMatches env workspace patterns s := by
  intro hall
  obtain ⟨s', hrun, -⟩ := hall sampleEnv (twoFiles [97] [97]) ["*.txt"] sampleStore
    sampleEnv_connected sampleStore_owns (matchedArtifacts_twoFiles _ _ ▸ List.cons_ne_nil _ _)
  have hfails : (scanAndUploadArtifacts sampleEnv (twoFiles [97] [97]) ["*.txt"]
      sampleStore).1.isOk = false := by decide +kernel
  rw [hrun] at hfails
  cases hfails

end OoreBuild
