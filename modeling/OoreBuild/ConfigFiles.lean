import OoreBuild.Lib.Steps
import OoreBuild.Lib.Table
import OoreBuild.Lib.Text
import Mathlib.Data.List.Sort

/-!
# Config files found in a repository

A project caches the config files on its default branch. A refresh reads the branch, rewrites the
cache and adds a pipeline for each new valid file that no pipeline uses (`refresh`, `write_cache`,
`resolve_legacy_config_paths` and `auto_add_pipelines` in the source). Refreshes run one at a time;
every read and every write of one may fail, or be the last before the daemon stops.

The project has a default branch and asks for pipelines to be added. Names of pipelines and the
errors and workflows of a file are left out.
-/

namespace OoreBuild

namespace ConfigFiles

open Text

/-! ## The cache -/

structure CachedFile where
  path : Text
  valid : Bool
  deriving DecidableEq

/-- What was last read on the branch: the row of the scan with the rows of its files. -/
structure BranchCache where
  /-- The commit the files were read at; `none` until a read succeeds. -/
  sha : Option Text
  truncated : Bool
  error : Option Text
  files : List CachedFile

structure PipelineRow where
  id : ℕ
  configPath : Text
  /-- Not set on a pipeline from before config paths were explicit. -/
  configPathExplicit : Bool

def defaultConfigPath : Text := ".oore.yaml"

def legacyConfigPath : Text := ".oore.yml"

/-- The paths that are tried, in order, for a pipeline's file. -/
def configPathCandidates (configPath : Text) : List Text :=
  let path := trim configPath
  if path = defaultConfigPath then [path, legacyConfigPath] else [path]

/-- The file that a pipeline with this config path builds from. -/
def resolve (files : List CachedFile) (configPath : Text) : Option CachedFile :=
  (configPathCandidates configPath).findSome? fun path => files.find? (·.path = path)

/-- A file that a read looks at. -/
def isCandidatePath (path : Text) : Bool :=
  (endsWith path ".yaml" || endsWith path ".yml") &&
    (startsWith path ".oore." && '/' ∉ path ||
      (stripPrefix ".oore/" path).any fun rest => rest.count '/' ≤ 1)

def fileRank (path : Text) : ℕ :=
  if path = defaultConfigPath then 0
  else if path = legacyConfigPath then 1
  else if '/' ∉ path then 2
  else 3

/-- Default files first, then those at the root. -/
def fileOrder (a b : CachedFile) : Prop :=
  fileRank a.path < fileRank b.path ∨ fileRank a.path = fileRank b.path ∧ a.path ≤ b.path

instance : DecidableRel fileOrder := fun a b =>
  inferInstanceAs (Decidable (fileRank a.path < fileRank b.path ∨
    fileRank a.path = fileRank b.path ∧ a.path ≤ b.path))

/-- The cache as it is loaded. -/
def BranchCache.load (cache : BranchCache) : BranchCache :=
  { cache with files := cache.files.insertionSort fileOrder }

def paths (files : List CachedFile) : List Text := files.map (·.path)

/-- The files that the pipelines build from. -/
def usedPaths (pipelines : List PipelineRow) (files : List CachedFile) : List Text :=
  pipelines.filterMap fun row => (resolve files row.configPath).map (·.path)

/-- The valid files that are new since the last read and that no pipeline uses. -/
def newFiles (files : List CachedFile) (previousSeen used : List Text) : List CachedFile :=
  files.filter fun file => file.valid && (file.path ∉ previousSeen && file.path ∉ used)

/-! ## The refresh under way -/

/-- What a refresh does next. -/
inductive Stage where
  /-- Load the project's source. A push tells its branch and commit. -/
  | source (pushed : Option (Text × Text)) (force : Bool)
  /-- Ask the provider for the commit at the branch. -/
  | resolve (force : Bool)
  | recordError (error : Text)
  | loadPrevious (sha : Text) (force : Bool)
  /-- Ask the provider for the files. -/
  | discover (sha : Text) (previous : Option BranchCache)
  | write (sha : Text) (truncated : Bool) (found : List CachedFile) (previousSeen : List Text)
  | loadCache (previousSeen : List Text)
  | resolveLegacy (cache : BranchCache) (previousSeen : List Text)
  | enabled (cache : BranchCache) (previousSeen : List Text)
  | used (cache : BranchCache) (previousSeen : List Text)
  /-- Add a pipeline for each of the files. -/
  | add (files : List CachedFile)

structure Store where
  /-- The default branch. -/
  branch : Text
  autoAddPipelines : Bool
  pipelines : Table PipelineRow.id
  cache : Option BranchCache
  refresh : Option Stage
  /-- The last refresh that was not skipped came to its end without an error. -/
  succeeded : Bool
  /-- The files in the cache that were new, valid and used by no pipeline in the read in which they
  appeared. -/
  owed : List Text
  /-- The files for which a pipeline was added since they are in the cache. -/
  added : List Text
  /-- The files for which a pipeline was added while another one used them. -/
  doubled : List Text

/-- The files in the cache. -/
def Store.files (s : Store) : List CachedFile := s.cache.elim [] (·.files)

/-- A pipeline builds from this file. -/
def Store.Uses (s : Store) (path : Text) : Prop := path ∈ usedPaths s.pipelines.rows s.files

instance (s : Store) (path : Text) : Decidable (s.Uses path) :=
  inferInstanceAs (Decidable (path ∈ usedPaths s.pipelines.rows s.files))

def Store.finish (s : Store) : Store := { s with refresh := none, succeeded := true }

def Store.giveUp (s : Store) : Store := { s with refresh := none, succeeded := false }

/-- Record why a read failed. The files of the read before it remain. -/
def Store.recordScanError (s : Store) (error : Text) : Store :=
  { s with cache := some (match s.cache with
      | none => ⟨none, false, some error, []⟩
      | some cache => { cache with error := some error }) }

def Store.writeCache (s : Store) (sha : Text) (truncated : Bool) (found : List CachedFile)
    (previousSeen : List Text) : Store :=
  { s with
    cache := some ⟨some sha, truncated, none, found⟩
    owed := s.owed.filter (· ∈ paths found) ++
      paths (newFiles found previousSeen (usedPaths s.pipelines.rows found))
    added := s.added.filter (· ∈ paths found) }

def PipelineRow.resolved (row : PipelineRow) (path : Text) : PipelineRow :=
  if row.configPathExplicit then row
  else { row with configPath := path, configPathExplicit := true }

theorem PipelineRow.resolved_id (row : PipelineRow) (path : Text) :
    (row.resolved path).id = row.id := by
  unfold resolved
  split <;> rfl

/-- The file of the pipelines from before config paths were explicit. -/
def legacyPath (files : List CachedFile) : Text :=
  match resolve files defaultConfigPath with
  | some file => file.path
  | none => defaultConfigPath

def Store.resolveLegacy (s : Store) (cache : BranchCache) : Store :=
  { s with pipelines := s.pipelines.mapRows (·.resolved (legacyPath cache.files)) fun row =>
      row.resolved_id (legacyPath cache.files) }

def Store.insertPipeline (s : Store) (id : ℕ) (configPath : Text)
    (h : id ∉ s.pipelines.rows.map (·.id)) : Store :=
  { s with pipelines := s.pipelines.insert ⟨id, configPath, true⟩ h }

def Store.addPipeline (s : Store) (id : ℕ) (path : Text)
    (h : id ∉ s.pipelines.rows.map (·.id)) : Store :=
  { s.insertPipeline id path h with
    added := path :: s.added
    doubled := if s.Uses path then path :: s.doubled else s.doubled }

/-- The next store operation of the refresh; a pipeline that it adds gets the id. -/
def Store.proceed (s : Store) (id : ℕ) : Option Store :=
  match s.refresh with
  | some (.source none force) => some { s with refresh := some (.resolve force) }
  | some (.source (some (branch, sha)) force) =>
    if branch ≠ s.branch then some { s with refresh := none }
    else some { s with refresh := some (.loadPrevious sha force) }
  | some (.recordError error) => some (s.recordScanError error).giveUp
  | some (.loadPrevious sha force) =>
    let previous := s.cache.map (·.load)
    if !force && previous.any fun cache => cache.sha = some sha && cache.error.isNone then
      some s.finish
    else some { s with refresh := some (.discover sha previous) }
  | some (.write sha truncated found previousSeen) =>
    some { s.writeCache sha truncated found previousSeen with
      refresh := some (.loadCache previousSeen) }
  | some (.loadCache previousSeen) =>
    s.cache.map fun cache => { s with refresh := some (.resolveLegacy cache.load previousSeen) }
  | some (.resolveLegacy cache previousSeen) =>
    some { s.resolveLegacy cache with refresh := some (.enabled cache previousSeen) }
  | some (.enabled cache previousSeen) =>
    if s.autoAddPipelines then some { s with refresh := some (.used cache previousSeen) }
    else some s.finish
  | some (.used cache previousSeen) =>
    let used := usedPaths s.pipelines.rows cache.files
    some { s with refresh := some (.add (newFiles cache.files previousSeen used)) }
  | some (.add []) => some s.finish
  | some (.add (file :: files)) =>
    if h : id ∉ s.pipelines.rows.map (·.id) then
      some { s.addPipeline id file.path h with refresh := some (.add files) }
    else none
  | _ => none

/-- What the refresh does next fails. Where the provider does not answer, that is recorded. -/
def Store.fail (s : Store) (error : Text) : Option Store :=
  match s.refresh with
  | some (.resolve _) | some (.discover ..) =>
    some { s with refresh := some (.recordError error) }
  | some _ => some s.giveUp
  | none => none

inductive Event where
  | refresh (pushed : Option (Text × Text)) (force : Bool)
  | proceed (id : ℕ)
  | fail (error : Text)
  /-- The provider tells the commit at the branch. -/
  | resolved (sha : Text)
  /-- The provider tells the files. -/
  | discovered (found : List CachedFile) (truncated : Bool)
  /-- The daemon stops and starts again. -/
  | stop
  | createPipeline (id : ℕ) (configPath : Text)
  | updatePipeline (id : ℕ) (configPath : Text)
  | deletePipeline (id : ℕ)

def PipelineRow.repointed (row : PipelineRow) (configPath : Text) : PipelineRow :=
  { row with configPath := trim configPath, configPathExplicit := true }

theorem PipelineRow.repointed_id (row : PipelineRow) (configPath : Text) :
    (row.repointed configPath).id = row.id := rfl

def Store.step (s : Store) : Event → Option Store
  | .refresh pushed force =>
    if s.refresh.isNone then some { s with refresh := some (.source pushed force) } else none
  | .proceed id => s.proceed id
  | .fail error => s.fail error
  | .resolved sha =>
    match s.refresh with
    | some (.resolve force) => some { s with refresh := some (.loadPrevious sha force) }
    | _ => none
  | .discovered found truncated =>
    match s.refresh with
    | some (.discover sha previous) =>
      if (paths found).Nodup ∧ ∀ path ∈ paths found, isCandidatePath path = true then
        let previousSeen := previous.elim [] fun cache => paths cache.files
        some { s with refresh := some (.write sha truncated found previousSeen) }
      else none
    | _ => none
  | .stop => if s.refresh.isSome then some s.giveUp else some s
  | .createPipeline id configPath =>
    if h : id ∉ s.pipelines.rows.map (·.id) then some (s.insertPipeline id (trim configPath) h)
    else none
  | .updatePipeline id configPath =>
    some { s with pipelines := s.pipelines.modify id (·.repointed configPath) fun row =>
      row.repointed_id configPath }
  | .deletePipeline id => some { s with pipelines := s.pipelines.erase id }

/-- A project before its first read. The pipelines from before config paths were explicit name
`.oore.yaml`. -/
structure Project where
  branch : Text
  pipelines : Table PipelineRow.id
  legacy : ∀ row ∈ pipelines.rows, row.configPathExplicit = false →
    row.configPath = defaultConfigPath

def Project.new (project : Project) : Store where
  branch := project.branch
  autoAddPipelines := true
  pipelines := project.pipelines
  cache := none
  refresh := none
  succeeded := false
  owed := []
  added := []
  doubled := []

end ConfigFiles

end OoreBuild
