import OoreBuild.RetentionLimits

/-!
# A run of the retention cleanup

The loop over the projects, round after round, until no project had a full batch or a round cleaned
nothing. Whether a query, a storage deletion or a database write fails, in which order the database
and the hash set of candidates give the builds, and how long a project takes come from outside, for
each round anew. Nothing else writes to the tables meanwhile.

A round that asks for another one has cleaned a build. A build that was cleaned is gone, or is kept
expired in a way that its project's policy leaves alone, so the builds that a policy still allows to
clean get fewer with each round.
-/

namespace OoreBuild

open Text

/-! ## Policies -/

/-- What a project sets itself, over the global policy. -/
structure ProjectRetentionOverride where
  enabled : Option Bool
  maxAgeDays : Option ℤ
  maxBuildsPerProject : Option ℕ
  maxArtifactSizeBytes : Option ℤ
  cleanupTarget : Option RetentionCleanupTarget
  keepStatuses : Option (List BuildStatus)
  deriving DecidableEq, Repr

def mergeOverride (global : RetentionPolicy) (ovr : ProjectRetentionOverride) :
    RetentionPolicy where
  enabled := ovr.enabled.getD global.enabled
  maxAgeDays := ovr.maxAgeDays.or global.maxAgeDays
  maxBuildsPerProject := ovr.maxBuildsPerProject.or global.maxBuildsPerProject
  maxArtifactSizeBytes := ovr.maxArtifactSizeBytes.or global.maxArtifactSizeBytes
  cleanupTarget := ovr.cleanupTarget.getD global.cleanupTarget
  keepStatuses := ovr.keepStatuses.getD global.keepStatuses
  dryRun := global.dryRun

/-- The global policy and the overrides of the projects. -/
structure RetentionSettings where
  global : RetentionPolicy
  overrides : Text → Option ProjectRetentionOverride

def RetentionSettings.loadEffectivePolicy (settings : RetentionSettings) (projectId : Text) :
    RetentionPolicy :=
  match settings.overrides projectId with
  | none => settings.global
  | some ovr => mergeOverride settings.global ovr

/-! ## What goes wrong -/

/-- The statements about one build that fail. -/
structure BuildFaults where
  deleteObject : Text → Bool
  screenshots : Bool
  deleteBuild : Bool
  deleteArtifacts : Bool
  rememberStatus : Bool
  transition : Bool

/-- How one project goes in one round. -/
structure ProjectAnswers where
  policyFails : Bool
  rows : RetentionRows
  artifactsFail : Bool
  /-- The hash set of candidates, in the order of its iteration. -/
  ordered : List ℕ
  build : ℕ → BuildFaults
  /-- The clock of the transitions. -/
  clock : ℤ
  /-- The time budget is used up after the project. -/
  elapsed : Bool

/-! ## One build -/

/-- Remember the outcome that a build had before it expired. -/
def rememberStatus (s : RetentionStore) (buildId : ℕ) : RetentionStore :=
  { s with db := { s.db with builds := s.db.builds.modify buildId rememberRow rememberRow_id } }

def expireBuildArtifacts (s : RetentionStore) (faults : BuildFaults) (clock : ℤ) (buildId : ℕ) :
    RetentionStore × Bool :=
  if faults.deleteArtifacts then (s, false)
  else
    let s := s.deleteArtifactRows buildId
    if faults.rememberStatus then (s, false)
    else
      let s := rememberStatus s buildId
      if !faults.transition &&
          (s.db.builds.find buildId).any fun row => row.status.canTransitionTo .expired then
        (s.moveBuild buildId .expired clock, true)
      else (s, false)

/-- A build with a release keeps its row. -/
def cleanupBuildRecord (s : RetentionStore) (faults : BuildFaults) (clock : ℤ) (buildId : ℕ) :
    RetentionCleanupTarget → RetentionStore × Bool
  | .artifactsOnly => expireBuildArtifacts s faults clock buildId
  | .full =>
    if faults.deleteBuild then (s, false)
    else if (s.db.builds.find buildId).isSome && (s.releaseStates buildId).isEmpty then
      (s.deleteRow buildId, true)
    else expireBuildArtifacts s faults clock buildId

def deleteArtifactFiles (faults : BuildFaults) (buildId : ℕ) :
    RetentionStore → List Text → RetentionStore × Bool
  | s, [] => (s, true)
  | s, file :: files =>
    if faults.deleteObject file then (s, false)
    else deleteArtifactFiles faults buildId ((s.lose buildId .file).deleteObject file) files

/-- What the loop of `cleanup_project` does with one candidate. -/
def cleanupCandidate (target : RetentionCleanupTarget) (answers : ProjectAnswers)
    (s : RetentionStore) (buildId : ℕ) (files : List Text) : RetentionStore × Bool :=
  let faults := answers.build buildId
  match deleteArtifactFiles faults buildId s files with
  | (s, false) => (s, false)
  | (s, true) =>
    if target = .full && faults.screenshots then (s, false)
    else cleanupBuildRecord s faults answers.clock buildId target

/-! ## One project -/

/-- The candidates of one call and those that were cleaned. -/
structure CleanupBatch where
  candidates : List ℕ
  cleaned : List ℕ
  deriving DecidableEq, Repr

def cleanupCandidates (target : RetentionCleanupTarget) (answers : ProjectAnswers) :
    RetentionStore → List (ℕ × List Text) → RetentionStore × List ℕ
  | s, [] => (s, [])
  | s, (buildId, files) :: rest =>
    let (s, done) := cleanupCandidate target answers s buildId files
    let (s, cleaned) := cleanupCandidates target answers s rest
    (s, if done then buildId :: cleaned else cleaned)

/-- The order of the hash set's iteration. -/
def iterationOrder (ids ordered : List ℕ) : List ℕ := if ordered.isPerm ids then ordered else ids

/-- `none` where a query fails. -/
def cleanupProject (settings : RetentionSettings) (now : ℤ) (answers : ProjectAnswers)
    (s : RetentionStore) (projectId : Text) : Option (RetentionStore × CleanupBatch) :=
  let policy := settings.loadEffectivePolicy projectId
  if answers.policyFails then none
  else if !policy.enabled then some (s, ⟨[], []⟩)
  else
    match collectRetentionCandidates s projectId policy now answers.rows with
    | none => none
    | some picks =>
      let candidates := iterationOrder (picks.map Pick.buildId) answers.ordered
      if answers.artifactsFail && !candidates.isEmpty then none
      else if policy.dryRun then some (s, ⟨candidates, []⟩)
      else
        let (s, cleaned) := cleanupCandidates policy.cleanupTarget answers s
          (candidates.map fun id => (id, artifactFiles s id))
        some (s, ⟨candidates, cleaned⟩)

/-! ## The loop -/

/-- A round over the projects: its batches, and how it stopped. -/
structure CleanupRound where
  batches : List CleanupBatch := []
  budgetExhausted : Bool := false
  failed : Bool := false
  deriving DecidableEq, Repr

def CleanupRound.fullBatchSeen (round : CleanupRound) : Bool :=
  round.batches.any fun batch => batch.candidates.length = retentionBatchSize

def CleanupRound.madeProgress (round : CleanupRound) : Bool :=
  round.batches.any fun batch => 0 < batch.cleaned.length

def CleanupRound.failedCleanup (round : CleanupRound) : Bool :=
  round.batches.any fun batch => batch.cleaned.length < batch.candidates.length

def cleanupRound (settings : RetentionSettings) (now : ℤ) (answers : Text → ProjectAnswers) :
    RetentionStore → List Text → RetentionStore × CleanupRound
  | s, [] => (s, {})
  | s, projectId :: rest =>
    match cleanupProject settings now (answers projectId) s projectId with
    | none => (s, { failed := true })
    | some (s, batch) =>
      if (answers projectId).elapsed then (s, { batches := [batch], budgetExhausted := true })
      else
        let (s, round) := cleanupRound settings now answers s rest
        (s, { round with batches := batch :: round.batches })

/-- How a run ends: a failure, or whether to run again soon. -/
inductive RunEnd where
  | failed
  | done (retrySoon : Bool)
  deriving DecidableEq, Repr

/-- What comes after a round; `none` asks for another one. -/
def CleanupRound.next (dryRun : Bool) (round : CleanupRound) : Option RunEnd :=
  if round.failed then some .failed
  else if dryRun then some (.done false)
  else if round.budgetExhausted || (round.fullBatchSeen && !round.madeProgress) then
    some (.done true)
  else if !round.fullBatchSeen then some (.done round.failedCleanup)
  else none

/-- A run that ended. -/
structure CleanupRun where
  rounds : List CleanupRound
  ending : RunEnd
  store : RetentionStore

/-- The loop, for at most `fuel` rounds; `none` when it asks for one more. -/
def cleanupLoop (settings : RetentionSettings) (projects : List Text) (now : ℤ) :
    (ℕ → Text → ProjectAnswers) → ℕ → RetentionStore → Option CleanupRun
  | _, 0, _ => none
  | answers, fuel + 1, s =>
    let (s, round) := cleanupRound settings now (answers 0) s projects
    match round.next settings.global.dryRun with
    | some ending => some ⟨[round], ending, s⟩
    | none =>
      (cleanupLoop settings projects now (fun n => answers (n + 1)) fuel s).map fun run =>
        { run with rounds := round :: run.rounds }

/-- A disabled policy runs nothing. -/
def runRetentionCleanup (settings : RetentionSettings) (projects : List Text) (now : ℤ)
    (answers : ℕ → Text → ProjectAnswers) (fuel : ℕ) (s : RetentionStore) : Option CleanupRun :=
  if !settings.global.enabled then some ⟨[], .done false, s⟩
  else cleanupLoop settings projects now answers fuel s

/-! ## Statements touch one build -/

/-- A change of the tables that leaves all releases and all other builds as they were. -/
structure Touches (buildId : ℕ) (s s' : RetentionStore) : Prop where
  releases : s'.releases = s.releases
  others : ∀ other, other ≠ buildId → s'.db.builds.find other = s.db.builds.find other

section Touches

variable {s s' s'' : RetentionStore} {buildId : ℕ}

theorem Touches.refl : Touches buildId s s := ⟨rfl, fun _ _ => rfl⟩

theorem Touches.trans (h : Touches buildId s s') (h' : Touches buildId s' s'') :
    Touches buildId s s'' :=
  ⟨h'.releases.trans h.releases, fun other hne => (h'.others other hne).trans (h.others other hne)⟩

theorem Touches.of_modify {f : Build → Build} (hf : ∀ row, (f row).id = row.id)
    (hreleases : s'.releases = s.releases)
    (hbuilds : s'.db.builds = s.db.builds.modify buildId f hf) : Touches buildId s s' :=
  ⟨hreleases, fun other hne => by rw [hbuilds, Table.find_modify_of_ne _ hne]⟩

theorem touches_deleteRow : Touches buildId s (s.deleteRow buildId) := by
  refine ⟨rfl, fun other hne => ?_⟩
  unfold RetentionStore.deleteRow
  dsimp only
  rw [Table.find_erase, if_neg hne]

theorem builds_deleteArtifactRows : (s.deleteArtifactRows buildId).db = s.db := by
  unfold RetentionStore.deleteArtifactRows
  dsimp only
  split <;> rfl

theorem touches_moveBuild {target : BuildStatus} {now : ℤ} :
    Touches buildId s (s.moveBuild buildId target now) := by
  unfold RetentionStore.moveBuild
  split
  · exact .of_modify (transitionRow_id target none now) rfl rfl
  · exact .refl

/-- Deleting the files of a build changes no row. -/
theorem deleteArtifactFiles_keeps {faults : BuildFaults} {files : List Text} :
    (deleteArtifactFiles faults buildId s files).1.db = s.db ∧
      (deleteArtifactFiles faults buildId s files).1.releases = s.releases := by
  induction files generalizing s with
  | nil => exact ⟨rfl, rfl⟩
  | cons file files ih =>
    unfold deleteArtifactFiles
    split
    · exact ⟨rfl, rfl⟩
    · exact ih

/-- An expired build keeps its project. -/
theorem expireBuildArtifacts_spec {faults : BuildFaults} {clock : ℤ} {row : Build}
    (hrow : s.db.builds.find buildId = some row) :
    Touches buildId s (expireBuildArtifacts s faults clock buildId).1 ∧
      ((expireBuildArtifacts s faults clock buildId).2 = true →
        ∃ row', (expireBuildArtifacts s faults clock buildId).1.db.builds.find buildId = some row' ∧
          row'.status = .expired ∧ row'.projectId = row.projectId) := by
  have hdeleted : Touches buildId s (s.deleteArtifactRows buildId) :=
    ⟨releases_deleteArtifactRows s buildId, fun _ _ => by rw [builds_deleteArtifactRows]⟩
  unfold expireBuildArtifacts
  split
  · exact ⟨.refl, fun h => by cases h⟩
  · dsimp only
    split
    · exact ⟨hdeleted, fun h => by cases h⟩
    · have htouched : Touches buildId s (rememberStatus (s.deleteArtifactRows buildId) buildId) :=
        hdeleted.trans (.of_modify rememberRow_id rfl rfl)
      have hfind : (rememberStatus (s.deleteArtifactRows buildId) buildId).db.builds.find buildId =
          some (rememberRow row) := by
        unfold rememberStatus
        dsimp only
        rw [Table.find_modify_self, builds_deleteArtifactRows, hrow, Option.map_some]
      split
      · rename_i hmove
        refine ⟨htouched.trans touches_moveBuild, fun _ => ?_⟩
        rw [Bool.and_eq_true] at hmove
        refine ⟨transitionRow .expired none clock (rememberRow row), ?_, rfl,
          (rememberRow_keeps row).1⟩
        unfold RetentionStore.moveBuild
        rw [if_pos hmove.2]
        dsimp only
        rw [Table.find_modify_self, hfind, Option.map_some]
      · exact ⟨htouched, fun h => by cases h⟩

end Touches

/-! ## The builds a policy still allows to clean -/

/-- The build is stored, and its project's policy allows to clean it. -/
def Cleanable (settings : RetentionSettings) (s : RetentionStore) (buildId : ℕ) : Prop :=
  ∃ row, s.db.builds.find buildId = some row ∧
    (Eligible.new (settings.loadEffectivePolicy row.projectId)).allows s row = true

section Cleanable

variable {settings : RetentionSettings} {s s' : RetentionStore} {buildId : ℕ}

theorem Touches.allows (h : Touches buildId s s') (eligible : Eligible) (row : Build) :
    eligible.allows s' row = eligible.allows s row := by
  unfold Eligible.allows
  rw [h.releases]

theorem Touches.cleanable_iff {other : ℕ} (h : Touches buildId s s') (hne : other ≠ buildId) :
    Cleanable settings s' other ↔ Cleanable settings s other := by
  unfold Cleanable
  rw [h.others other hne]
  simp only [h.allows]

/-- A build whose row is gone is cleaned for good. -/
theorem not_cleanable_deleteRow : ¬ Cleanable settings (s.deleteRow buildId) buildId := by
  rintro ⟨row, hfind, -⟩
  unfold RetentionStore.deleteRow at hfind
  dsimp only at hfind
  rw [Table.find_erase, if_pos rfl] at hfind
  cases hfind

/-- An expired build is left alone where only artifacts are cleaned, and where it has a release. -/
theorem not_cleanable_of_expired {row : Build} (hfind : s.db.builds.find buildId = some row)
    (hstatus : row.status = .expired)
    (hkept : (settings.loadEffectivePolicy row.projectId).cleanupTarget = .artifactsOnly ∨
      s.releaseStates buildId ≠ []) : ¬ Cleanable settings s buildId := by
  rintro ⟨row', hfind', hallows⟩
  cases Option.some.inj (hfind.symm.trans hfind')
  unfold Eligible.allows at hallows
  rw [Bool.and_eq_true, Bool.and_eq_true, hstatus] at hallows
  obtain ⟨⟨hstatuses, -⟩, hreleases⟩ := hallows
  rcases hkept with htarget | hstates
  · rw [List.contains_iff_mem] at hstatuses
    simp [Eligible.new, htarget, terminalBuildStatuses] at hstatuses
  · obtain ⟨state, hstate⟩ := List.exists_mem_of_ne_nil _ hstates
    obtain ⟨release, hrelease, -⟩ := List.mem_map.mp hstate
    obtain ⟨hmem, hbuild⟩ := List.mem_filter.mp hrelease
    rw [Bool.not_eq_true', List.any_eq_false] at hreleases
    refine hreleases release hmem ?_
    rw [Table.key_of_find hfind]
    simpa using hbuild

/-- A build whose record was cleaned is cleaned for good. -/
theorem cleanupBuildRecord_spec {faults : BuildFaults} {clock : ℤ} {row : Build}
    {target : RetentionCleanupTarget} (hrow : s.db.builds.find buildId = some row)
    (htarget : (settings.loadEffectivePolicy row.projectId).cleanupTarget = target) :
    Touches buildId s (cleanupBuildRecord s faults clock buildId target).1 ∧
      ((cleanupBuildRecord s faults clock buildId target).2 = true →
        ¬ Cleanable settings (cleanupBuildRecord s faults clock buildId target).1 buildId) := by
  obtain ⟨hexpire, hexpired⟩ := @expireBuildArtifacts_spec s buildId faults clock row hrow
  cases target with
  | artifactsOnly =>
    refine ⟨hexpire, fun hdone => ?_⟩
    obtain ⟨row', hfind, hstatus, hproject⟩ := hexpired hdone
    exact not_cleanable_of_expired hfind hstatus (.inl (by rw [hproject, htarget]))
  | full =>
    simp only [cleanupBuildRecord]
    split
    · exact ⟨.refl, fun h => by cases h⟩
    · split
      · exact ⟨touches_deleteRow, fun _ => not_cleanable_deleteRow⟩
      · rename_i hdelete
        refine ⟨hexpire, fun hdone => ?_⟩
        obtain ⟨row', hfind, hstatus, -⟩ := hexpired hdone
        -- the row is there, so the delete found a release
        refine not_cleanable_of_expired hfind hstatus (.inr fun hnil => hdelete ?_)
        unfold RetentionStore.releaseStates at hnil ⊢
        rw [hexpire.releases] at hnil
        rw [hnil, hrow]
        rfl

theorem cleanupCandidate_spec {answers : ProjectAnswers} {files : List Text} {row : Build}
    {target : RetentionCleanupTarget} (hrow : s.db.builds.find buildId = some row)
    (htarget : (settings.loadEffectivePolicy row.projectId).cleanupTarget = target) :
    Touches buildId s (cleanupCandidate target answers s buildId files).1 ∧
      ((cleanupCandidate target answers s buildId files).2 = true →
        ¬ Cleanable settings (cleanupCandidate target answers s buildId files).1 buildId) := by
  obtain ⟨hdb, hreleases⟩ :=
    @deleteArtifactFiles_keeps s buildId (answers.build buildId) files
  unfold cleanupCandidate
  dsimp only
  generalize deleteArtifactFiles (answers.build buildId) buildId s files = deleted at hdb hreleases
  obtain ⟨emptied, deletedAll⟩ := deleted
  dsimp only at hdb hreleases
  have htouched : Touches buildId s emptied := ⟨hreleases, fun _ _ => by rw [hdb]⟩
  have hrow' : emptied.db.builds.find buildId = some row := by rw [hdb, hrow]
  cases deletedAll with
  | false => exact ⟨htouched, fun h => by cases h⟩
  | true =>
    dsimp only
    split
    · exact ⟨htouched, fun h => by cases h⟩
    · obtain ⟨hrecord, hdone⟩ := @cleanupBuildRecord_spec settings emptied buildId
        (answers.build buildId) answers.clock row target hrow' htarget
      exact ⟨htouched.trans hrecord, hdone⟩

end Cleanable

/-! ## Rounds clean for good -/

/-- No build becomes cleanable, and those that were cleaned are not any more. -/
structure Cleans (settings : RetentionSettings) (s s' : RetentionStore) (cleaned : List ℕ) :
    Prop where
  shrinks : ∀ id, Cleanable settings s' id → Cleanable settings s id
  gone : ∀ id ∈ cleaned, Cleanable settings s id ∧ ¬ Cleanable settings s' id

section Cleans

variable {settings : RetentionSettings} {s s' s'' : RetentionStore} {cleaned cleaned' : List ℕ}

theorem Cleans.refl : Cleans settings s s [] := ⟨fun _ h => h, by simp⟩

theorem Cleans.trans (h : Cleans settings s s' cleaned) (h' : Cleans settings s' s'' cleaned') :
    Cleans settings s s'' (cleaned ++ cleaned') := by
  refine ⟨fun id hid => h.shrinks id (h'.shrinks id hid), fun id hid => ?_⟩
  rcases List.mem_append.mp hid with hid | hid
  · exact ⟨(h.gone id hid).1, fun hlater => (h.gone id hid).2 (h'.shrinks id hlater)⟩
  · exact ⟨h.shrinks id (h'.gone id hid).1, (h'.gone id hid).2⟩

/-- A change of one cleanable build. -/
theorem Touches.cleans {buildId : ℕ} {done : Bool} (h : Touches buildId s s')
    (hcleanable : Cleanable settings s buildId)
    (hdone : done = true → ¬ Cleanable settings s' buildId) :
    Cleans settings s s' (if done then [buildId] else []) := by
  constructor
  · intro id hid
    by_cases heq : id = buildId
    · exact heq ▸ hcleanable
    · exact (h.cleanable_iff heq).mp hid
  · intro id hid
    cases done with
    | false => cases hid
    | true =>
      obtain rfl := List.mem_singleton.mp hid
      exact ⟨hcleanable, hdone rfl⟩

/-- A build that a cleanup of the project can pick. -/
def PickableIn (settings : RetentionSettings) (projectId : Text) (s : RetentionStore) (id : ℕ) :
    Prop :=
  ∃ row, s.db.builds.find id = some row ∧ row.projectId = projectId ∧
    (Eligible.new (settings.loadEffectivePolicy projectId)).allows s row = true

theorem PickableIn.cleanable {projectId : Text} {id : ℕ}
    (h : PickableIn settings projectId s id) : Cleanable settings s id := by
  obtain ⟨row, hfind, rfl, hallows⟩ := h
  exact ⟨row, hfind, hallows⟩

/-- Each candidate of the loop is found as it was picked: those before it are other builds. -/
theorem cleanupCandidates_cleans {projectId : Text} {answers : ProjectAnswers}
    {work : List (ℕ × List Text)} {target : RetentionCleanupTarget}
    (htarget : (settings.loadEffectivePolicy projectId).cleanupTarget = target)
    (hdistinct : (work.map Prod.fst).Nodup)
    (hpickable : ∀ id ∈ work.map Prod.fst, PickableIn settings projectId s id) :
    Cleans settings s (cleanupCandidates target answers s work).1
      (cleanupCandidates target answers s work).2 := by
  induction work generalizing s with
  | nil => exact .refl
  | cons item rest ih =>
    obtain ⟨buildId, files⟩ := item
    rw [List.map_cons, List.nodup_cons] at hdistinct
    have hpick := hpickable buildId List.mem_cons_self
    have hcleanable := hpick.cleanable
    obtain ⟨row, hfind, hproject, -⟩ := hpick
    obtain ⟨htouches, hdone⟩ := @cleanupCandidate_spec settings s buildId answers files row target
      hfind (by rw [hproject, htarget])
    unfold cleanupCandidates
    dsimp only
    generalize cleanupCandidate target answers s buildId files = step at htouches hdone
    obtain ⟨next, done⟩ := step
    dsimp only at htouches hdone ⊢
    have hrest : ∀ id ∈ rest.map Prod.fst, PickableIn settings projectId next id := by
      intro id hid
      have hne : id ≠ buildId := fun heq => hdistinct.1 (heq ▸ hid)
      obtain ⟨other, hother, hin, hallows⟩ := hpickable id (List.mem_cons_of_mem _ hid)
      exact ⟨other, by rw [htouches.others id hne, hother], hin, by rw [htouches.allows, hallows]⟩
    have hboth := (htouches.cleans hcleanable hdone).trans (ih hdistinct.2 hrest)
    cases done <;> exact hboth

theorem iterationOrder_perm (ids ordered : List ℕ) : (iterationOrder ids ordered).Perm ids := by
  unfold iterationOrder
  split
  · rename_i hperm
    exact List.isPerm_iff.mp hperm
  · exact .refl _

/-- What a cleanup collects is distinct, and its policy allows it. -/
theorem collect_picked {projectId : Text} {policy : RetentionPolicy} {now : ℤ}
    {rows : RetentionRows} {picks : List Pick}
    (h : collectRetentionCandidates s projectId policy now rows = some picks) :
    Picked s projectId policy picks := by
  unfold collectRetentionCandidates at h
  split_ifs at h
  · cases h
    exact .nil
  · obtain ⟨aged, haged, h⟩ := Option.bind_eq_some_iff.mp h
    obtain ⟨counted, hcounted, h⟩ := Option.bind_eq_some_iff.mp h
    obtain ⟨hpicked, -⟩ := counted_spec haged hcounted
    rcases withRoom_cases h with rfl | ⟨maxSize, -, hroom, hadd⟩
    · exact hpicked
    · obtain ⟨-, -, hsized, -⟩ := size_spec hpicked hroom hadd
      exact hsized

/-- A cleanup of a project starts from builds that can be cleaned. -/
theorem cleanupProject_cleans {now : ℤ} {answers : ProjectAnswers} {projectId : Text}
    {batch : CleanupBatch}
    (h : cleanupProject settings now answers s projectId = some (s', batch)) :
    Cleans settings s s' batch.cleaned ∧ ∀ id ∈ batch.candidates, Cleanable settings s id := by
  unfold cleanupProject at h
  dsimp only at h
  split at h
  · cases h
  split at h
  · cases h
    exact ⟨.refl, by simp⟩
  · cases hpicks : collectRetentionCandidates s projectId (settings.loadEffectivePolicy projectId)
        now answers.rows with
    | none =>
      rw [hpicks] at h
      cases h
    | some picks =>
      rw [hpicks] at h
      dsimp only at h
      have hpicked := collect_picked hpicks
      have hperm := iterationOrder_perm (picks.map Pick.buildId) answers.ordered
      have hpickable : ∀ id ∈ iterationOrder (picks.map Pick.buildId) answers.ordered,
          PickableIn settings projectId s id := by
        intro id hid
        obtain ⟨pick, hpick, rfl⟩ := List.mem_map.mp (hperm.mem_iff.mp hid)
        obtain ⟨row, hrow, hid⟩ := hpicked.eligible pick hpick
        obtain ⟨hfind, hproject, hallows⟩ := eligible_find hrow
        exact ⟨row, hid ▸ hfind, hproject, hallows⟩
      split_ifs at h
      · cases h
        exact ⟨.refl, fun id hid => (hpickable id hid).cleanable⟩
      · cases h
        refine ⟨cleanupCandidates_cleans rfl ?_ ?_, fun id hid => (hpickable id hid).cleanable⟩
        · rw [List.map_map]
          exact (List.map_id _).symm ▸ hperm.nodup_iff.mpr hpicked.distinct
        · rw [List.map_map]
          exact (List.map_id _).symm ▸ hpickable

/-- No later batch has a candidate that an earlier one cleaned. -/
def NeverAgain (batches : List CleanupBatch) : Prop :=
  batches.Pairwise fun earlier later => ∀ id ∈ earlier.cleaned, id ∉ later.candidates

/-- Batches one after the other, from one store to another. -/
structure Batches (settings : RetentionSettings) (s s' : RetentionStore)
    (batches : List CleanupBatch) : Prop where
  cleans : Cleans settings s s' (batches.flatMap CleanupBatch.cleaned)
  candidates : ∀ batch ∈ batches, ∀ id ∈ batch.candidates, Cleanable settings s id
  neverAgain : NeverAgain batches

variable {batches batches' : List CleanupBatch}

theorem Batches.nil : Batches settings s s [] := ⟨.refl, by simp, .nil⟩

theorem Batches.append (h : Batches settings s s' batches) (h' : Batches settings s' s'' batches') :
    Batches settings s s'' (batches ++ batches') := by
  constructor
  · rw [List.flatMap_append]
    exact h.cleans.trans h'.cleans
  · intro batch hbatch id hid
    rcases List.mem_append.mp hbatch with hbatch | hbatch
    · exact h.candidates batch hbatch id hid
    · exact h.cleans.shrinks id (h'.candidates batch hbatch id hid)
  · refine List.pairwise_append.mpr ⟨h.neverAgain, h'.neverAgain, ?_⟩
    intro earlier hearlier later hlater id hcleaned hcandidate
    have hgone := h.cleans.gone id (List.mem_flatMap.mpr ⟨earlier, hearlier, hcleaned⟩)
    exact hgone.2 (h'.candidates later hlater id hcandidate)

theorem Batches.single {batch : CleanupBatch} (hcleans : Cleans settings s s' batch.cleaned)
    (hcandidates : ∀ id ∈ batch.candidates, Cleanable settings s id) :
    Batches settings s s' [batch] := by
  refine ⟨?_, ?_, List.pairwise_singleton _ _⟩
  · rw [List.flatMap_singleton]
    exact hcleans
  · intro other hother
    obtain rfl := List.mem_singleton.mp hother
    exact hcandidates

theorem cleanupRound_batches {now : ℤ} {answers : Text → ProjectAnswers} {projects : List Text} :
    Batches settings s (cleanupRound settings now answers s projects).1
      (cleanupRound settings now answers s projects).2.batches := by
  induction projects generalizing s with
  | nil => exact .nil
  | cons projectId rest ih =>
    unfold cleanupRound
    cases hproject : cleanupProject settings now (answers projectId) s projectId with
    | none => exact .nil
    | some result =>
      obtain ⟨next, batch⟩ := result
      obtain ⟨hcleans, hcandidates⟩ := cleanupProject_cleans hproject
      have hsingle := Batches.single hcleans hcandidates
      dsimp only
      split
      · exact hsingle
      · exact hsingle.append ih

end Cleans

/-! ## The loop ends -/

section Loop

variable {settings : RetentionSettings} {s s' : RetentionStore} {batches : List CleanupBatch}

/-- A round asks for another one only after it cleaned a build. -/
theorem exists_cleaned_of_next {dryRun : Bool} {round : CleanupRound}
    (h : round.next dryRun = none) : ∃ batch ∈ round.batches, batch.cleaned ≠ [] := by
  unfold CleanupRound.next at h
  split_ifs at h with hfailed hdry hbudget hfull
  have hprogress : round.madeProgress = true := by
    cases hprogress : round.madeProgress with
    | true => rfl
    | false => simp_all
  obtain ⟨batch, hbatch, hcleaned⟩ := List.any_eq_true.mp hprogress
  exact ⟨batch, hbatch, List.length_pos_iff.mp (of_decide_eq_true hcleaned)⟩

theorem finite_cleanable : {id | Cleanable settings s id}.Finite := by
  refine Set.Finite.subset (s.db.builds.rows.map Build.id).toFinset.finite_toSet fun id hid => ?_
  obtain ⟨row, hfind, -⟩ := hid
  rw [Finset.mem_coe, List.mem_toFinset, ← Table.key_of_find hfind]
  exact List.mem_map_of_mem (Table.mem_of_find hfind)

theorem card_cleanable_le : {id | Cleanable settings s id}.ncard ≤ s.db.builds.rows.length := by
  have hsubset : {id | Cleanable settings s id} ⊆ ↑(s.db.builds.rows.map Build.id).toFinset := by
    intro id hid
    obtain ⟨row, hfind, -⟩ := hid
    rw [Finset.mem_coe, List.mem_toFinset, ← Table.key_of_find hfind]
    exact List.mem_map_of_mem (Table.mem_of_find hfind)
  calc {id | Cleanable settings s id}.ncard
      ≤ (↑(s.db.builds.rows.map Build.id).toFinset : Set ℕ).ncard :=
        Set.ncard_le_ncard hsubset (Finset.finite_toSet _)
    _ = (s.db.builds.rows.map Build.id).toFinset.card := Set.ncard_coe_finset _
    _ ≤ (s.db.builds.rows.map Build.id).length := List.toFinset_card_le _
    _ = s.db.builds.rows.length := List.length_map _

/-- A round that cleaned a build leaves fewer to clean. -/
theorem card_cleanable_lt (h : Batches settings s s' batches)
    (hprogress : ∃ batch ∈ batches, batch.cleaned ≠ []) :
    {id | Cleanable settings s' id}.ncard < {id | Cleanable settings s id}.ncard := by
  obtain ⟨batch, hbatch, hcleaned⟩ := hprogress
  obtain ⟨id, hid⟩ := List.exists_mem_of_ne_nil _ hcleaned
  obtain ⟨hbefore, hafter⟩ := h.cleans.gone id (List.mem_flatMap.mpr ⟨batch, hbatch, hid⟩)
  refine Set.ncard_lt_ncard ⟨h.cleans.shrinks, fun hsuperset => ?_⟩ finite_cleanable
  exact hafter (hsuperset hbefore)

theorem cleanupLoop_ends {projects : List Text} {now : ℤ} {answers : ℕ → Text → ProjectAnswers}
    {fuel : ℕ} (hfuel : {id | Cleanable settings s id}.ncard < fuel) :
    ∃ run, cleanupLoop settings projects now answers fuel s = some run ∧
      Batches settings s run.store (run.rounds.flatMap CleanupRound.batches) := by
  induction fuel generalizing s answers with
  | zero => omega
  | succ fuel ih =>
    have hround := @cleanupRound_batches settings s now (answers 0) projects
    unfold cleanupLoop
    generalize cleanupRound settings now (answers 0) s projects = result at hround
    obtain ⟨next, round⟩ := result
    dsimp only at hround ⊢
    cases hnext : round.next settings.global.dryRun with
    | some ending =>
      refine ⟨_, rfl, ?_⟩
      rw [List.flatMap_singleton]
      exact hround
    | none =>
      have hless := card_cleanable_lt hround (exists_cleaned_of_next hnext)
      obtain ⟨run, hrun, hbatches⟩ := @ih next (fun n => answers (n + 1)) (by omega)
      dsimp only
      rw [hrun]
      refine ⟨_, rfl, ?_⟩
      rw [List.flatMap_cons]
      exact hround.append hbatches

end Loop

/-- Whatever fails and however much time there is, the run ends after at most one round more than
there are builds; a round that asks for another one has cleaned a build, and what was cleaned is
never a candidate again. -/
theorem retentionCleanup_ends (settings : RetentionSettings) (projects : List Text) (now : ℤ)
    (answers : ℕ → Text → ProjectAnswers) (s : RetentionStore) :
    ∃ run, runRetentionCleanup settings projects now answers (s.db.builds.rows.length + 1) s =
        some run ∧
      (∀ round ∈ run.rounds, round.next settings.global.dryRun = none →
        ∃ batch ∈ round.batches, batch.cleaned ≠ []) ∧
      NeverAgain (run.rounds.flatMap CleanupRound.batches) := by
  unfold runRetentionCleanup
  split
  · exact ⟨_, rfl, by simp, .nil⟩
  · obtain ⟨run, hrun, hbatches⟩ := @cleanupLoop_ends settings s projects now answers _
      (Nat.lt_succ_of_le card_cleanable_le)
    exact ⟨run, hrun, fun round _ => exists_cleaned_of_next, hbatches.neverAgain⟩

end OoreBuild
