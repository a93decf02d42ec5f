import OoreBuild.ConfigFiles

/-!
# Pipelines for new config files

A file that is new, valid and unused gets one pipeline, and no file gets one that has one already.
The cache is committed before the pipelines are added, so a refresh that ends in between loses
those that are left: the next one finds their files in the cache (`auto_add_exact`).
-/

namespace OoreBuild

namespace ConfigFiles

open Text Steps

/-! ## What must hold -/

structure Store.AddsOnce (s : Store) : Prop where
  /-- No file gets a second pipeline while it stays in the cache, also when the first is deleted. -/
  once : s.added.Nodup
  /-- Only files that no pipeline used when they appeared get one. -/
  asked : ∀ path ∈ s.added, path ∈ s.owed
  noSecond : s.doubled = []
  /-- After a refresh that succeeded, each new file has got its pipeline. -/
  complete : s.refresh = none → s.succeeded = true → ∀ path ∈ s.owed, path ∈ s.added

/-- A user's change beside a refresh that has written its cache: the new files are used by a
pipeline as before, until they are looked up, and those to be added are not used. -/
def Store.KeepsUse (s s' : Store) : Prop :=
  match s.refresh with
  | some (.loadCache previousSeen) | some (.resolveLegacy _ previousSeen)
  | some (.enabled _ previousSeen) | some (.used _ previousSeen) =>
    ∀ file ∈ s.files, file.valid = true → file.path ∉ previousSeen →
      (s'.Uses file.path ↔ s.Uses file.path)
  | some (.add files) => ∀ file ∈ files, ¬ s'.Uses file.path
  | _ => True

/-- A refresh only fails or stops while no pipeline is left to add, and users do not change the use
of the files that it adds pipelines for. -/
def Store.LeavesNone (s : Store) : Event → Prop
  | .fail _ | .stop => ∀ path ∈ s.owed, path ∈ s.added
  | .createPipeline id configPath =>
    ∀ s', s.step (.createPipeline id configPath) = some s' → s.KeepsUse s'
  | .updatePipeline id configPath =>
    ∀ s', s.step (.updatePipeline id configPath) = some s' → s.KeepsUse s'
  | .deletePipeline id => ∀ s', s.step (.deletePipeline id) = some s' → s.KeepsUse s'
  | _ => True

/-! ## Resolving config paths -/

theorem trim_candidate {path : Text} (h : isCandidatePath path = true) : trim path = path := by
  obtain ⟨hend, hstart⟩ := Bool.and_eq_true_iff.mp h
  have hhead : path.head? = some '.' := by
    rcases Bool.or_eq_true_iff.mp hstart with hroot | hdir
    · obtain ⟨rest, hrest⟩ := Option.isSome_iff_exists.mp (Bool.and_eq_true_iff.mp hroot).1
      rw [stripPrefix_eq_some_iff.mp hrest]
      rfl
    · obtain ⟨rest, hrest, -⟩ := (Option.any_eq_true ..).mp hdir
      rw [stripPrefix_eq_some_iff.mp hrest]
      rfl
  have hlast : path.getLast? = some 'l' := by
    rw [← List.head?_reverse]
    rcases Bool.or_eq_true_iff.mp hend with hyaml | hyml
    · obtain ⟨rest, hrest⟩ := Option.isSome_iff_exists.mp hyaml
      rw [stripPrefix_eq_some_iff.mp hrest]
      rfl
    · obtain ⟨rest, hrest⟩ := Option.isSome_iff_exists.mp hyml
      rw [stripPrefix_eq_some_iff.mp hrest]
      rfl
  apply trim_eq_self
  · rw [hhead]
    rintro c ⟨⟩
    decide
  · rw [hlast]
    rintro c ⟨⟩
    decide

theorem findSome_path (files : List CachedFile) (candidates : List Text) :
    (candidates.findSome? fun path => files.find? (·.path = path)).map (·.path) =
      candidates.find? (· ∈ paths files) := by
  induction candidates with
  | nil => rfl
  | cons path candidates ih =>
    rw [List.findSome?_cons, List.find?_cons]
    cases hfind : files.find? (·.path = path) with
    | some file =>
      have hfound := List.find?_some hfind
      have hpath : file.path = path := of_decide_eq_true hfound
      have hmem : path ∈ paths files :=
        List.mem_map.mpr ⟨file, List.mem_of_find?_eq_some hfind, hpath⟩
      simp only [hmem, decide_true, Option.map_some, hpath]
    | none =>
      have hmem : path ∉ paths files := by
        intro h
        obtain ⟨file, hfile, hpath⟩ := List.mem_map.mp h
        exact List.find?_eq_none.mp hfind file hfile (decide_eq_true hpath)
      simp only [hmem, decide_false, ih]

/-- What a config path resolves to, as a path. -/
theorem resolve_path (files : List CachedFile) (configPath : Text) :
    (resolve files configPath).map (·.path) =
      (configPathCandidates configPath).find? (· ∈ paths files) :=
  findSome_path files (configPathCandidates configPath)

theorem resolve_path_congr {files files' : List CachedFile}
    (h : ∀ path, path ∈ paths files ↔ path ∈ paths files') (configPath : Text) :
    (resolve files configPath).map (·.path) = (resolve files' configPath).map (·.path) := by
  rw [resolve_path, resolve_path]
  congr 1
  funext path
  exact decide_eq_decide.mpr (h path)

theorem resolve_self {files : List CachedFile} {path : Text} (hmem : path ∈ paths files)
    (htrim : trim path = path) : (resolve files path).map (·.path) = some path := by
  rw [resolve_path]
  unfold configPathCandidates
  simp only [htrim]
  split <;> simp only [List.find?_cons, hmem, decide_true]

/-- Writing the file that `.oore.yaml` stands for keeps what a pipeline builds from. -/
theorem resolve_legacyPath (files : List CachedFile) :
    (resolve files (legacyPath files)).map (·.path) =
      (resolve files defaultConfigPath).map (·.path) := by
  unfold legacyPath
  cases hresolve : resolve files defaultConfigPath with
  | none => rw [hresolve]
  | some file =>
    have hfind : (configPathCandidates defaultConfigPath).find? (· ∈ paths files) =
        some file.path := by
      rw [← resolve_path, hresolve, Option.map_some]
    have hfound := List.find?_some hfind
    have hmem : file.path ∈ paths files := of_decide_eq_true hfound
    have hcandidates : configPathCandidates defaultConfigPath =
        [defaultConfigPath, legacyConfigPath] := by decide
    have htrim : trim file.path = file.path := by
      have := List.mem_of_find?_eq_some hfind
      rw [hcandidates] at this
      rcases List.mem_pair.mp this with h | h
      · rw [h]
        decide
      · rw [h]
        decide
    exact resolve_self hmem htrim

theorem usedPaths_congr (rows : List PipelineRow) {files files' : List CachedFile}
    (h : ∀ path, path ∈ paths files ↔ path ∈ paths files') :
    usedPaths rows files = usedPaths rows files' := by
  unfold usedPaths
  congr 1
  funext row
  exact resolve_path_congr h row.configPath

theorem mem_newFiles {files : List CachedFile} {previousSeen used : List Text}
    {file : CachedFile} : file ∈ newFiles files previousSeen used ↔
      file ∈ files ∧ file.valid = true ∧ file.path ∉ previousSeen ∧ file.path ∉ used := by
  unfold newFiles
  rw [List.mem_filter, Bool.and_eq_true, Bool.and_eq_true, decide_eq_true_iff, decide_eq_true_iff]

/-! ## The invariant -/

/-- What holds of the tables whatever the refresh is at. -/
structure TablesOk (s : Store) : Prop where
  enabled : s.autoAddPipelines = true
  legacy : ∀ row ∈ s.pipelines.rows, row.configPathExplicit = false →
    row.configPath = defaultConfigPath
  nodup : (paths s.files).Nodup
  candidates : ∀ path ∈ paths s.files, isCandidatePath path = true
  cached : ∀ path ∈ s.added, path ∈ paths s.files
  once : s.added.Nodup
  asked : ∀ path ∈ s.added, path ∈ s.owed
  noSecond : s.doubled = []

/-- Each new file has its pipeline. -/
def Store.Handled (s : Store) : Prop := ∀ path ∈ s.owed, path ∈ s.added

/-- These files are left to add pipelines for. -/
structure Store.Left (s : Store) (left : List Text) : Prop where
  nodup : left.Nodup
  cached : ∀ path ∈ left, path ∈ paths s.files
  unused : ∀ path ∈ left, ¬ s.Uses path
  owed : ∀ path ∈ left, path ∈ s.owed ∧ path ∉ s.added
  others : ∀ path ∈ s.owed, path ∈ s.added ∨ path ∈ left

/-- The new files of the cache that no pipeline uses. -/
def Store.newPaths (s : Store) (previousSeen : List Text) : List Text :=
  paths (newFiles s.files previousSeen (usedPaths s.pipelines.rows s.files))

def StageOk (s : Store) : Option Stage → Prop
  | some (.discover _ previous) => s.Handled ∧
    ∀ path ∈ paths s.files, path ∈ previous.elim [] fun cache => paths cache.files
  | some (.write _ _ found previousSeen) => s.Handled ∧ (paths found).Nodup ∧
    (∀ path ∈ paths found, isCandidatePath path = true) ∧
      ∀ path ∈ paths s.files, path ∈ previousSeen
  | some (.loadCache previousSeen) => s.Left (s.newPaths previousSeen)
  | some (.resolveLegacy cache previousSeen) | some (.enabled cache previousSeen)
  | some (.used cache previousSeen) =>
    cache.files.Perm s.files ∧ s.Left (s.newPaths previousSeen)
  | some (.add files) => s.Left (paths files)
  | _ => s.Handled

def Sound (s : Store) : Prop := TablesOk s ∧ StageOk s s.refresh

theorem Project.sound (project : Project) : Sound project.new where
  left :=
    { enabled := rfl
      legacy := project.legacy
      nodup := List.nodup_nil
      candidates := fun _ h => absurd h List.not_mem_nil
      cached := fun _ h => absurd h List.not_mem_nil
      once := List.nodup_nil
      asked := fun _ h => absurd h List.not_mem_nil
      noSecond := rfl }
  right := fun _ h => absurd h List.not_mem_nil

theorem Sound.addsOnce {s : Store} (h : Sound s) : s.AddsOnce where
  once := h.1.once
  asked := h.1.asked
  noSecond := h.1.noSecond
  complete hidle _ := by
    have hstage := h.2
    rw [hidle] at hstage
    exact hstage

theorem TablesOk.of_same {s s' : Store} (h : TablesOk s)
    (henabled : s'.autoAddPipelines = s.autoAddPipelines) (hpipelines : s'.pipelines = s.pipelines)
    (hfiles : s'.files = s.files) (howed : s'.owed = s.owed) (hadded : s'.added = s.added)
    (hdoubled : s'.doubled = s.doubled) : TablesOk s' where
  enabled := henabled ▸ h.enabled
  legacy := hpipelines ▸ h.legacy
  nodup := hfiles ▸ h.nodup
  candidates := hfiles ▸ h.candidates
  cached := by
    rw [hadded, hfiles]
    exact h.cached
  once := hadded ▸ h.once
  asked := by
    rw [hadded, howed]
    exact h.asked
  noSecond := hdoubled ▸ h.noSecond

/-- The tables do not depend on where the refresh is. -/
theorem TablesOk.at {s : Store} (h : TablesOk s) (refresh : Option Stage) (succeeded : Bool) :
    TablesOk { s with refresh, succeeded } :=
  h.of_same rfl rfl rfl rfl rfl rfl

theorem Store.Left.of_same {s s' : Store} {left : List Text} (h : s.Left left)
    (hfiles : s'.files = s.files) (howed : s'.owed = s.owed) (hadded : s'.added = s.added)
    (hunused : ∀ path ∈ left, ¬ s'.Uses path) : s'.Left left where
  nodup := h.nodup
  cached := hfiles ▸ h.cached
  unused := hunused
  owed := by
    rw [howed, hadded]
    exact h.owed
  others := by
    rw [howed, hadded]
    exact h.others

theorem Store.Left.at {s : Store} {left : List Text} (h : s.Left left) (refresh : Option Stage)
    (succeeded : Bool) : Store.Left { s with refresh, succeeded } left :=
  h.of_same rfl rfl rfl h.unused

theorem Store.Left.handled {s : Store} (h : s.Left []) : s.Handled := fun path howed =>
  (h.others path howed).resolve_right List.not_mem_nil

theorem Store.Left.perm {s : Store} {left left' : List Text} (h : s.Left left)
    (hperm : left'.Perm left) : s.Left left' where
  nodup := hperm.nodup_iff.mpr h.nodup
  cached path hpath := h.cached path (hperm.mem_iff.mp hpath)
  unused path hpath := h.unused path (hperm.mem_iff.mp hpath)
  owed path hpath := h.owed path (hperm.mem_iff.mp hpath)
  others path hpath := (h.others path hpath).imp_right hperm.mem_iff.mpr

/-! ## Steps of a refresh -/

theorem Sound.ended {s : Store} (htables : TablesOk s) (hhandled : s.Handled) (succeeded : Bool) :
    Sound { s with refresh := none, succeeded } :=
  ⟨htables.at none succeeded, hhandled⟩

theorem files_recordScanError (s : Store) (error : Text) :
    (s.recordScanError error).files = s.files := by
  unfold Store.recordScanError Store.files
  cases s.cache with
  | none => rfl
  | some cache => rfl

theorem paths_newFiles_sublist (files : List CachedFile) (previousSeen used : List Text) :
    (paths (newFiles files previousSeen used)).Sublist (paths files) :=
  (List.filter_sublist).map _

theorem notMem_used_of_mem_newFiles {files : List CachedFile} {previousSeen used : List Text}
    {path : Text} (h : path ∈ paths (newFiles files previousSeen used)) :
    path ∉ previousSeen ∧ path ∉ used := by
  obtain ⟨file, hfile, rfl⟩ := List.mem_map.mp h
  exact (mem_newFiles.mp hfile).2.2

/-- Files that are left have not been seen before, so none of them has its pipeline. -/
theorem Store.Handled.left_writeCache {s : Store} (h : s.Handled) (htables : TablesOk s)
    (sha : Text) (truncated : Bool) {found : List CachedFile} {previousSeen : List Text}
    (hnodup : (paths found).Nodup) (hseen : ∀ path ∈ paths s.files, path ∈ previousSeen) :
    (s.writeCache sha truncated found previousSeen).Left
      ((s.writeCache sha truncated found previousSeen).newPaths previousSeen) where
  nodup := hnodup.sublist (paths_newFiles_sublist ..)
  cached _ hpath := (paths_newFiles_sublist ..).subset hpath
  unused _ hpath := (notMem_used_of_mem_newFiles hpath).2
  owed path hpath := by
    refine ⟨List.mem_append_right _ hpath, fun hadded => ?_⟩
    have hcached := htables.cached path (List.mem_filter.mp hadded).1
    exact (notMem_used_of_mem_newFiles hpath).1 (hseen path hcached)
  others path howed := by
    rcases List.mem_append.mp howed with hold | hnew
    · obtain ⟨hold, hfound⟩ := List.mem_filter.mp hold
      exact .inl (List.mem_filter.mpr ⟨h path hold, hfound⟩)
    · exact .inr hnew

theorem TablesOk.writeCache {s : Store} (h : TablesOk s) (sha : Text) (truncated : Bool)
    {found : List CachedFile} (previousSeen : List Text) (hnodup : (paths found).Nodup)
    (hcandidates : ∀ path ∈ paths found, isCandidatePath path = true) :
    TablesOk (s.writeCache sha truncated found previousSeen) where
  enabled := h.enabled
  legacy := h.legacy
  nodup := hnodup
  candidates := hcandidates
  cached _ hadded := of_decide_eq_true (List.mem_filter.mp hadded).2
  once := h.once.filter _
  asked path hadded := by
    obtain ⟨hadded, hfound⟩ := List.mem_filter.mp hadded
    exact List.mem_append_left _ (List.mem_filter.mpr ⟨h.asked path hadded, hfound⟩)
  noSecond := h.noSecond

theorem BranchCache.load_perm (cache : BranchCache) : cache.load.files.Perm cache.files :=
  List.perm_insertionSort _ _

theorem mem_paths_perm {files files' : List CachedFile} (h : files.Perm files') (path : Text) :
    path ∈ paths files ↔ path ∈ paths files' := (h.map _).mem_iff

/-- Once the legacy config paths are written, the pipelines build from the same files. -/
theorem usedPaths_resolved {rows : List PipelineRow} {files files' : List CachedFile}
    (hlegacy : ∀ row ∈ rows, row.configPathExplicit = false → row.configPath = defaultConfigPath)
    (hperm : files'.Perm files) :
    usedPaths (rows.map (·.resolved (legacyPath files'))) files = usedPaths rows files := by
  unfold usedPaths
  rw [List.filterMap_map]
  refine List.filterMap_congr fun row hrow => ?_
  have hcongr := resolve_path_congr (mem_paths_perm hperm.symm)
  cases hexplicit : row.configPathExplicit with
  | true =>
    rw [Function.comp_apply, PipelineRow.resolved, if_pos hexplicit]
  | false =>
    rw [Function.comp_apply, PipelineRow.resolved, if_neg (by rw [hexplicit]; decide),
      hlegacy row hrow hexplicit, hcongr, hcongr, resolve_legacyPath]

theorem TablesOk.resolveLegacy {s : Store} (h : TablesOk s) (cache : BranchCache) :
    TablesOk (s.resolveLegacy cache) where
  enabled := h.enabled
  legacy row hrow hexplicit := by
    obtain ⟨old, -, rfl⟩ := List.mem_map.mp hrow
    cases hold : old.configPathExplicit with
    | true =>
      rw [PipelineRow.resolved, if_pos hold, hold] at hexplicit
      cases hexplicit
    | false =>
      rw [PipelineRow.resolved, if_neg (by rw [hold]; decide)] at hexplicit
      cases hexplicit
  nodup := h.nodup
  candidates := h.candidates
  cached := h.cached
  once := h.once
  asked := h.asked
  noSecond := h.noSecond

theorem Store.Left.resolveLegacy {s : Store} {cache : BranchCache} {previousSeen : List Text}
    (h : s.Left (s.newPaths previousSeen)) (htables : TablesOk s)
    (hperm : cache.files.Perm s.files) :
    (s.resolveLegacy cache).Left ((s.resolveLegacy cache).newPaths previousSeen) := by
  have hused : usedPaths (s.resolveLegacy cache).pipelines.rows s.files =
      usedPaths s.pipelines.rows s.files := usedPaths_resolved htables.legacy hperm
  have hnew : (s.resolveLegacy cache).newPaths previousSeen = s.newPaths previousSeen :=
    congrArg (fun used => paths (newFiles s.files previousSeen used)) hused
  rw [hnew]
  refine h.of_same rfl rfl rfl fun path hpath huses => h.unused path hpath ?_
  replace huses : path ∈ usedPaths (s.resolveLegacy cache).pipelines.rows s.files := huses
  rw [hused] at huses
  exact huses

/-- A pipeline for a file of the cache builds from that file. -/
theorem uses_addPipeline {s : Store} {id : ℕ} {path : Text} (h : id ∉ s.pipelines.rows.map (·.id))
    (htables : TablesOk s) (hcached : path ∈ paths s.files) {other : Text} :
    (s.addPipeline id path h).Uses other ↔ s.Uses other ∨ other = path := by
  have hself := resolve_self hcached (trim_candidate (htables.candidates path hcached))
  have hused : usedPaths (s.pipelines.rows ++ [⟨id, path, true⟩]) s.files =
      usedPaths s.pipelines.rows s.files ++ [path] := by
    rw [usedPaths, List.filterMap_append]
    exact congrArg _ (List.filterMap_cons_some hself)
  change other ∈ usedPaths (s.pipelines.rows ++ [⟨id, path, true⟩]) s.files ↔ _
  rw [hused, List.mem_append, List.mem_singleton]
  rfl

theorem TablesOk.addPipeline {s : Store} (h : TablesOk s) {id : ℕ} {path : Text}
    (hid : id ∉ s.pipelines.rows.map (·.id)) (hcached : path ∈ paths s.files)
    (hunused : ¬ s.Uses path) (howed : path ∈ s.owed) (hadded : path ∉ s.added) :
    TablesOk (s.addPipeline id path hid) where
  enabled := h.enabled
  legacy row hrow hexplicit := by
    rcases List.mem_append.mp hrow with hold | hnew
    · exact h.legacy row hold hexplicit
    · rw [List.mem_singleton.mp hnew] at hexplicit
      cases hexplicit
  nodup := h.nodup
  candidates := h.candidates
  cached other hother := by
    rcases List.mem_cons.mp hother with rfl | hother
    · exact hcached
    · exact h.cached other hother
  once := List.nodup_cons.mpr ⟨hadded, h.once⟩
  asked other hother := by
    rcases List.mem_cons.mp hother with rfl | hother
    · exact howed
    · exact h.asked other hother
  noSecond := (if_neg hunused).trans h.noSecond

theorem Store.Left.addPipeline {s : Store} {path : Text} {left : List Text}
    (h : s.Left (path :: left)) (htables : TablesOk s) {id : ℕ}
    (hid : id ∉ s.pipelines.rows.map (·.id)) : (s.addPipeline id path hid).Left left := by
  obtain ⟨hnot, hnodup⟩ := List.nodup_cons.mp h.nodup
  have hcached := h.cached path List.mem_cons_self
  refine ⟨hnodup, fun other hother => h.cached other (List.mem_cons_of_mem _ hother), ?_, ?_, ?_⟩
  · intro other hother huses
    rcases (uses_addPipeline hid htables hcached).mp huses with huses | rfl
    · exact h.unused other (List.mem_cons_of_mem _ hother) huses
    · exact hnot hother
  · intro other hother
    obtain ⟨howed, hadded⟩ := h.owed other (List.mem_cons_of_mem _ hother)
    refine ⟨howed, fun hnew => ?_⟩
    rcases List.mem_cons.mp hnew with rfl | hold
    · exact hnot hother
    · exact hadded hold
  · intro other howed
    rcases h.others other howed with hadded | hleft
    · exact .inl (List.mem_cons_of_mem _ hadded)
    · rcases List.mem_cons.mp hleft with rfl | hleft
      · exact .inl List.mem_cons_self
      · exact .inr hleft

theorem Sound.proceed {s s' : Store} {id : ℕ} (h : Sound s) (hstep : s.proceed id = some s') :
    Sound s' := by
  obtain ⟨htables, hstage⟩ := h
  unfold Store.proceed at hstep
  split at hstep
  · rename_i hrefresh
    cases hstep
    rw [hrefresh] at hstage
    exact ⟨htables.at _ _, hstage⟩
  · rename_i hrefresh
    rw [hrefresh] at hstage
    split at hstep
    · cases hstep
      exact ⟨htables.at _ _, hstage⟩
    · cases hstep
      exact ⟨htables.at _ _, hstage⟩
  · rename_i error hrefresh
    cases hstep
    rw [hrefresh] at hstage
    have hfiles := files_recordScanError s error
    exact ⟨htables.of_same rfl rfl hfiles rfl rfl rfl, hstage⟩
  · rename_i sha force hrefresh
    rw [hrefresh] at hstage
    dsimp only at hstep
    split at hstep
    · cases hstep
      exact .ended htables hstage true
    · cases hstep
      refine ⟨htables.at _ _, hstage, ?_⟩
      intro path hpath
      cases hcache : s.cache with
      | none =>
        rw [Store.files, hcache] at hpath
        exact absurd hpath List.not_mem_nil
      | some cache =>
        rw [Store.files, hcache] at hpath
        exact (mem_paths_perm cache.load_perm path).mpr hpath
  · rename_i sha truncated found previousSeen hrefresh
    cases hstep
    rw [hrefresh] at hstage
    obtain ⟨hhandled, hnodup, hcandidates, hseen⟩ := hstage
    have hleft := hhandled.left_writeCache htables sha truncated hnodup hseen
    exact ⟨(htables.writeCache sha truncated previousSeen hnodup hcandidates).at _ _,
      hleft.at _ _⟩
  · rename_i previousSeen hrefresh
    rw [hrefresh] at hstage
    obtain ⟨cache, hcache, rfl⟩ := Option.map_eq_some_iff.mp hstep
    have hfiles : s.files = cache.files := by
      rw [Store.files, hcache]
      rfl
    refine ⟨htables.at _ _, ?_, hstage.at _ _⟩
    change cache.load.files.Perm s.files
    rw [hfiles]
    exact cache.load_perm
  · rename_i cache previousSeen hrefresh
    cases hstep
    rw [hrefresh] at hstage
    exact ⟨(htables.resolveLegacy cache).at _ _, hstage.1,
      (hstage.2.resolveLegacy htables hstage.1).at _ _⟩
  · rename_i cache previousSeen hrefresh
    rw [hrefresh] at hstage
    rw [if_pos htables.enabled] at hstep
    cases hstep
    exact ⟨htables.at _ _, hstage.1, hstage.2.at _ _⟩
  · rename_i cache previousSeen hrefresh
    cases hstep
    rw [hrefresh] at hstage
    obtain ⟨hperm, hleft⟩ := hstage
    have hused := usedPaths_congr s.pipelines.rows (mem_paths_perm hperm)
    refine ⟨htables.at _ _, (hleft.perm ?_).at _ _⟩
    rw [hused]
    exact ((hperm.filter _).map _)
  · rename_i hrefresh
    cases hstep
    rw [hrefresh] at hstage
    exact .ended htables hstage.handled true
  · rename_i file files hrefresh
    rw [hrefresh] at hstage
    split at hstep
    · rename_i hid
      cases hstep
      have hfirst : file.path ∈ paths (file :: files) := List.mem_cons_self
      obtain ⟨howed, hadded⟩ := hstage.owed _ hfirst
      have hnew := htables.addPipeline hid (hstage.cached _ hfirst) (hstage.unused _ hfirst) howed
        hadded
      have hleft : (s.addPipeline id file.path hid).Left (paths files) :=
        hstage.addPipeline htables hid
      exact ⟨hnew.at _ _, hleft.at _ _⟩
    · cases hstep
  · cases hstep

/-! ## Failures and the changes of users -/

theorem Sound.fail {s s' : Store} {error : Text} (h : Sound s) (hhandled : s.Handled)
    (hstep : s.fail error = some s') : Sound s' := by
  unfold Store.fail at hstep
  split at hstep
  · cases hstep
    exact ⟨h.1.at _ _, hhandled⟩
  · cases hstep
    exact ⟨h.1.at _ _, hhandled⟩
  · cases hstep
    exact .ended h.1 hhandled false
  · cases hstep

theorem newPaths_keep {s s' : Store} {previousSeen : List Text} (hfiles : s'.files = s.files)
    (hkeep : ∀ file ∈ s.files, file.valid = true → file.path ∉ previousSeen →
      (s'.Uses file.path ↔ s.Uses file.path)) :
    s'.newPaths previousSeen = s.newPaths previousSeen := by
  unfold Store.newPaths newFiles
  rw [hfiles]
  congr 1
  refine List.filter_congr fun file hfile => ?_
  cases hvalid : file.valid with
  | false => rfl
  | true =>
    by_cases hseen : file.path ∈ previousSeen
    · rw [decide_eq_false (not_not.mpr hseen), Bool.false_and, Bool.false_and]
    · have hused : (file.path ∉ usedPaths s'.pipelines.rows s.files) ↔
          (file.path ∉ usedPaths s.pipelines.rows s.files) := by
        have := hkeep file hfile hvalid hseen
        unfold Store.Uses at this
        rw [hfiles] at this
        exact not_congr this
      rw [decide_eq_decide.mpr hused]

/-- A user's change of the pipelines. -/
def Store.setPipelines (s : Store) (pipelines : Table PipelineRow.id) : Store :=
  { s with pipelines }

/-- A change of the pipelines that does not disturb the refresh. -/
theorem Sound.setPipelines {s : Store} (h : Sound s) (pipelines : Table PipelineRow.id)
    (hlegacy : ∀ row ∈ pipelines.rows, row.configPathExplicit = false →
      row.configPath = defaultConfigPath)
    (hkeeps : s.KeepsUse (s.setPipelines pipelines)) : Sound (s.setPipelines pipelines) := by
  obtain ⟨htables, hstage⟩ := h
  have hleft : ∀ previousSeen, s.Left (s.newPaths previousSeen) →
      (∀ file ∈ s.files, file.valid = true → file.path ∉ previousSeen →
        ((s.setPipelines pipelines).Uses file.path ↔ s.Uses file.path)) →
      (s.setPipelines pipelines).Left ((s.setPipelines pipelines).newPaths previousSeen) := by
    intro previousSeen hleft hkeep
    have hunused : ∀ path ∈ (s.setPipelines pipelines).newPaths previousSeen,
        ¬ (s.setPipelines pipelines).Uses path := fun path hpath =>
      (notMem_used_of_mem_newFiles hpath).2
    have hnew : (s.setPipelines pipelines).newPaths previousSeen = s.newPaths previousSeen :=
      newPaths_keep rfl hkeep
    rw [hnew] at hunused ⊢
    exact hleft.of_same rfl rfl rfl hunused
  refine ⟨⟨htables.enabled, hlegacy, htables.nodup, htables.candidates, htables.cached,
    htables.once, htables.asked, htables.noSecond⟩, ?_⟩
  unfold Store.KeepsUse at hkeeps
  change StageOk (s.setPipelines pipelines) s.refresh
  cases hrefresh : s.refresh with
  | none =>
    rw [hrefresh] at hstage
    exact hstage
  | some stage =>
    rw [hrefresh] at hstage hkeeps
    cases stage with
    | loadCache previousSeen => exact hleft previousSeen hstage hkeeps
    | resolveLegacy cache previousSeen => exact ⟨hstage.1, hleft previousSeen hstage.2 hkeeps⟩
    | enabled cache previousSeen => exact ⟨hstage.1, hleft previousSeen hstage.2 hkeeps⟩
    | used cache previousSeen => exact ⟨hstage.1, hleft previousSeen hstage.2 hkeeps⟩
    | add files =>
      refine hstage.of_same rfl rfl rfl fun path hpath => ?_
      obtain ⟨file, hfile, rfl⟩ := List.mem_map.mp hpath
      exact hkeeps file hfile
    | source pushed force => exact hstage
    | resolve force => exact hstage
    | recordError error => exact hstage
    | loadPrevious sha force => exact hstage
    | discover sha previous => exact hstage
    | write sha truncated found previousSeen => exact hstage

theorem Sound.step {s s' : Store} {e : Event} (h : Sound s) (hcond : s.LeavesNone e)
    (hstep : s.step e = some s') : Sound s' := by
  have hchange := hstep
  unfold Store.step at hstep
  cases e with
  | refresh pushed force =>
    dsimp only at hstep
    split at hstep
    · rename_i hidle
      cases hstep
      have hstage := h.2
      rw [Option.isNone_iff_eq_none.mp hidle] at hstage
      exact ⟨h.1.at _ _, hstage⟩
    · cases hstep
  | proceed id => exact h.proceed hstep
  | fail error => exact h.fail hcond hstep
  | resolved sha =>
    dsimp only at hstep
    split at hstep
    · rename_i force hrefresh
      cases hstep
      have hstage := h.2
      rw [hrefresh] at hstage
      exact ⟨h.1.at _ _, hstage⟩
    · cases hstep
  | discovered found truncated =>
    dsimp only at hstep
    split at hstep
    · rename_i sha previous hrefresh
      split at hstep
      · rename_i hfound
        cases hstep
        have hstage := h.2
        rw [hrefresh] at hstage
        exact ⟨h.1.at _ _, hstage.1, hfound.1, hfound.2, hstage.2⟩
      · cases hstep
    · cases hstep
  | stop =>
    dsimp only at hstep
    split at hstep
    · cases hstep
      exact .ended h.1 hcond false
    · cases hstep
      exact h
  | createPipeline id configPath =>
    have hkeeps := hcond s' hchange
    dsimp only at hstep
    split at hstep
    · cases hstep
      refine h.setPipelines _ (fun row hrow hexplicit => ?_) hkeeps
      rcases List.mem_append.mp hrow with hold | hnew
      · exact h.1.legacy row hold hexplicit
      · rw [List.mem_singleton.mp hnew] at hexplicit
        cases hexplicit
    · cases hstep
  | updatePipeline id configPath =>
    have hkeeps := hcond s' hchange
    cases hstep
    refine h.setPipelines _ (fun row hrow hexplicit => ?_) hkeeps
    obtain ⟨old, hold, rfl⟩ := List.mem_map.mp hrow
    by_cases hid : old.id = id
    · rw [if_pos hid] at hexplicit
      cases hexplicit
    · rw [if_neg hid] at hexplicit ⊢
      exact h.1.legacy old hold hexplicit
  | deletePipeline id =>
    have hkeeps := hcond s' hchange
    cases hstep
    refine h.setPipelines _ (fun row hrow hexplicit => ?_) hkeeps
    exact h.1.legacy row (List.mem_filter.mp hrow).1 hexplicit

/-- In every run in which refreshes only end early while no pipeline is left to add, and users leave
the use of the files alone that a refresh adds pipelines for, each new file gets one pipeline and no
file a second one. -/
theorem auto_add_exact (project : Project) (events : List Event)
    (hmeets : Meets Store.step Store.LeavesNone project.new events) :
    ∀ s, run Store.step project.new events = some s → s.AddsOnce := by
  intro s hrun
  have hsound : Sound s :=
    keeps_run (fun _ _ _ h hcond hstep => Sound.step h hcond hstep) project.sound hmeets hrun
  exact hsound.addsOnce

/-- A project without pipelines. -/
def emptyProject : Project where
  branch := "main"
  pipelines := ⟨[], List.nodup_nil⟩
  legacy := fun _ h => absurd h List.not_mem_nil

/-- A refresh of commit `c1`, whose only config file is valid, up to the write of the cache. -/
def readOnce : List Event :=
  [.refresh none false, .proceed 1, .resolved "c1", .proceed 1,
    .discovered [⟨".oore.yaml", true⟩] false, .proceed 1]

/-- A refresh that goes on and adds the pipeline, which a user deletes afterwards. -/
def addedOnce : List Event :=
  readOnce ++ [.proceed 1, .proceed 1, .proceed 1, .proceed 1, .proceed 1, .proceed 1,
    .deletePipeline 1, .refresh none true, .proceed 1, .fail "unreachable", .proceed 1]

/-- Failures only while each new file has its pipeline, and no user's change beside a refresh. -/
def Store.looksLeft (s : Store) : Event → Bool
  | .fail _ | .stop => s.owed.all fun path => path ∈ s.added
  | .createPipeline .. | .updatePipeline .. | .deletePipeline _ => s.refresh.isNone
  | _ => true

theorem Store.keepsUse_of_idle {s : Store} (h : s.refresh.isNone = true) (s' : Store) :
    s.KeepsUse s' := by
  unfold KeepsUse
  rw [Option.isNone_iff_eq_none.mp h]
  trivial

theorem Store.leavesNone_of_looksLeft (s : Store) (e : Event) (h : s.looksLeft e = true) :
    s.LeavesNone e := by
  cases e with
  | fail error => exact fun path hpath => of_decide_eq_true (List.all_eq_true.mp h path hpath)
  | stop => exact fun path hpath => of_decide_eq_true (List.all_eq_true.mp h path hpath)
  | createPipeline id configPath => exact fun s' _ => keepsUse_of_idle h s'
  | updatePipeline id configPath => exact fun s' _ => keepsUse_of_idle h s'
  | deletePipeline id => exact fun s' _ => keepsUse_of_idle h s'
  | refresh pushed force => trivial
  | proceed id => trivial
  | resolved sha => trivial
  | discovered found truncated => trivial

theorem auto_add_exact_once : ∃ s, run Store.step emptyProject.new addedOnce = some s ∧
    s.AddsOnce ∧ s.added = [defaultConfigPath] := by
  have hadded : (run Store.step emptyProject.new addedOnce).any
      (fun s => s.added = [defaultConfigPath]) = true := by decide +kernel
  obtain ⟨s, hrun, hadded⟩ := (Option.any_eq_true ..).mp hadded
  have hmeets : Meets Store.step Store.LeavesNone emptyProject.new addedOnce :=
    meets_of_checks Store.leavesNone_of_looksLeft (by decide +kernel)
  exact ⟨s, hrun, auto_add_exact emptyProject addedOnce hmeets s hrun, of_decide_eq_true hadded⟩

/-- The daemon stops after the cache is written. A refresh of the same commit comes next. -/
def lostOnce : List Event :=
  readOnce ++ [.stop, .refresh none false, .proceed 1, .resolved "c1", .proceed 1]

/-- That refresh succeeds, and the file has no pipeline. -/
theorem auto_add_lost : ¬ ∀ (project : Project) (events : List Event) (s : Store),
    run Store.step project.new events = some s → s.AddsOnce := by
  intro h
  have hlost : (run Store.step emptyProject.new lostOnce).any (fun s => s.refresh.isNone &&
      (s.succeeded && (s.owed = [defaultConfigPath] && s.added = []))) = true := by
    decide +kernel
  obtain ⟨s, hrun, hlost⟩ := (Option.any_eq_true ..).mp hlost
  rw [Bool.and_eq_true, Bool.and_eq_true, Bool.and_eq_true, decide_eq_true_iff, decide_eq_true_iff,
    Option.isNone_iff_eq_none] at hlost
  obtain ⟨hidle, hsucceeded, howed, hadded⟩ := hlost
  have hmem := (h _ _ s hrun).complete hidle hsucceeded defaultConfigPath (by simp [howed])
  rw [hadded] at hmem
  exact List.not_mem_nil hmem

end ConfigFiles

end OoreBuild
