import OoreBuild.JobInvariants
import OoreBuild.Retention

/-!
# Build numbers

A new build gets the number after the highest one that its project's builds have at that moment, so
numbers depend on which rows cleanups left. `numbers_increase` is the condition under which no
number comes back.
-/

namespace OoreBuild

open Text Interleave

/-! ## What a statement does to the builds -/

/-- The rows of the builds keep their ids, projects and numbers. -/
structure SameNumbers (s s' : RetentionStore) : Prop where
  handedOut : s'.handedOut = s.handedOut
  kept : ∀ row ∈ s.db.builds.rows, ∃ row' ∈ s'.db.builds.rows,
    row'.projectId = row.projectId ∧ row'.buildNumber = row.buildNumber

theorem SameNumbers.of_builds {s s' : RetentionStore} (hbuilds : s'.db.builds = s.db.builds)
    (hhanded : s'.handedOut = s.handedOut) : SameNumbers s s' :=
  ⟨hhanded, fun row hrow => ⟨row, hbuilds ▸ hrow, rfl, rfl⟩⟩

/-- An update of one row. -/
theorem SameNumbers.of_modify {s s' : RetentionStore} {buildId : ℕ} {f : Build → Build}
    (hf : ∀ row : Build, (f row).id = row.id)
    (hbuilds : s'.db.builds = s.db.builds.modify buildId f hf)
    (hhanded : s'.handedOut = s.handedOut)
    (hkeep : ∀ row, (f row).projectId = row.projectId ∧ (f row).buildNumber = row.buildNumber) :
    SameNumbers s s' := by
  refine ⟨hhanded, fun row hrow => ?_⟩
  rw [hbuilds]
  refine ⟨_, List.mem_map_of_mem hrow, ?_⟩
  split
  · exact hkeep row
  · exact ⟨rfl, rfl⟩

theorem sameNumbers_moveBuild (s : RetentionStore) (buildId : ℕ) (target : BuildStatus) (now : ℤ) :
    SameNumbers s (s.moveBuild buildId target now) := by
  unfold RetentionStore.moveBuild
  split
  · exact .of_modify (transitionRow_id target none now) rfl rfl fun row => ⟨rfl, rfl⟩
  · exact .of_builds rfl rfl

theorem sameNumbers_deleteArtifactRows (s : RetentionStore) (buildId : ℕ) :
    SameNumbers s (s.deleteArtifactRows buildId) := by
  unfold RetentionStore.deleteArtifactRows
  split <;> exact .of_builds rfl rfl

theorem rememberRow_keeps (row : Build) :
    (rememberRow row).projectId = row.projectId ∧ (rememberRow row).buildNumber = row.buildNumber := by
  unfold rememberRow
  split <;> exact ⟨rfl, rfl⟩

/-- A call takes a build's row at this statement. -/
def RetentionCall.deletesBuild (call : RetentionCall) (s : RetentionStore)
    (answer : RetentionAnswer) (buildId : ℕ) : Prop :=
  ∃ rest, call = .deleteBuild buildId rest ∧ answer.fails = false ∧
    s.releaseStates buildId = []

/-- A statement keeps the numbers or takes a row. -/
theorem advanceRetention_numbers {s s' : RetentionStore} {call : RetentionCall}
    {answer : RetentionAnswer} {next : Option RetentionCall}
    (h : advanceRetention s call answer = some (s', next)) :
    SameNumbers s s' ∨ ∃ buildId, call.deletesBuild s answer buildId ∧ s' = s.deleteRow buildId := by
  unfold advanceRetention at h
  split at h
  · left
    split at h
    · cases h
      exact .of_builds rfl rfl
    · dsimp only at h
      split at h
      · cases h
        exact .of_builds rfl rfl
      · cases h
  · left
    split at h <;> cases h <;> exact .of_builds rfl rfl
  · left
    cases h
    exact .of_builds rfl rfl
  · left
    split at h <;> cases h <;> exact .of_builds rfl rfl
  · rename_i buildId rest
    split at h
    · cases h
      exact .inl (.of_builds rfl rfl)
    · rename_i hfails
      split at h
      · rename_i hfree
        cases h
        rw [Bool.and_eq_true, List.isEmpty_iff] at hfree
        exact .inr ⟨buildId, ⟨rest, rfl, Bool.eq_false_iff.mpr hfails, hfree.2⟩, rfl⟩
      · cases h
        exact .inl (.of_builds rfl rfl)
  · left
    split at h
    · cases h
      exact .of_builds rfl rfl
    · cases h
      exact sameNumbers_deleteArtifactRows s _
  · left
    split at h
    · cases h
      exact .of_builds rfl rfl
    · cases h
      exact .of_modify rememberRow_id rfl rfl rememberRow_keeps
  · left
    cases h
    split
    · exact .of_builds rfl rfl
    · exact sameNumbers_moveBuild s _ _ _
  · left
    split at h <;> cases h <;> exact .of_builds rfl rfl
  · left
    split at h <;> cases h <;> exact .of_builds rfl rfl
  · left
    obtain ⟨next', -, heq⟩ := Option.map_eq_some_iff.mp h
    cases heq
    exact .of_builds rfl rfl

/-! ## Numbers that are handed out -/

/-- Each number is higher than those before it in its project; the latest comes first. -/
def StrictlyNumbered (handedOut : List (Text × ℕ)) : Prop :=
  handedOut.Pairwise fun later earlier => later.1 = earlier.1 → earlier.2 < later.2

/-- The numbers increase, and every one is at most that of a row of its project. -/
structure RetentionStore.Numbered (s : RetentionStore) : Prop where
  strictly : StrictlyNumbered s.handedOut
  covered : ∀ given ∈ s.handedOut, ∃ row ∈ s.db.builds.rows,
    row.projectId = given.1 ∧ given.2 ≤ row.buildNumber

theorem RetentionStore.Numbered.same {s s' : RetentionStore} (h : s.Numbered)
    (hsame : SameNumbers s s') : s'.Numbered := by
  refine ⟨hsame.handedOut ▸ h.strictly, fun given hgiven => ?_⟩
  rw [hsame.handedOut] at hgiven
  obtain ⟨row, hrow, hproject, hle⟩ := h.covered given hgiven
  obtain ⟨row', hrow', hproject', hnumber⟩ := hsame.kept row hrow
  exact ⟨row', hrow', hproject'.trans hproject, hnumber ▸ hle⟩

/-- The rows after an insert. -/
theorem exists_row_of_insert {db db' : Database} {binds : BuildInsertBinds}
    (h : executeBuildInsert db binds = some db') :
    (∀ row ∈ db.builds.rows, ∃ row' ∈ db'.builds.rows,
      row'.projectId = row.projectId ∧ row'.buildNumber = row.buildNumber) ∧
    newBuild db binds ∈ db'.builds.rows := by
  refine ⟨fun row hrow => ?_, Table.mem_of_find (find_newBuild h)⟩
  have hfind := find_of_insert h (Table.find_of_mem hrow)
  refine ⟨_, Table.mem_of_find hfind, ?_⟩
  unfold cancelSuperseded withdrawPending cancelRow
  split <;> exact ⟨rfl, rfl⟩

theorem number_lt_newBuild {db : Database} {binds : BuildInsertBinds} {row : Build}
    (hrow : row ∈ db.builds.rows) (hproject : row.projectId = binds.projectId) :
    row.buildNumber < (newBuild db binds).buildNumber := by
  have hmem : row.buildNumber ∈ (db.builds.rows.filter fun r => r.projectId = binds.projectId).map
      Build.buildNumber :=
    List.mem_map_of_mem (List.mem_filter.mpr ⟨hrow, by simpa using hproject⟩)
  exact Nat.lt_succ_of_le (le_foldr_max hmem)

/-- A new build gets a number above all that its project got. -/
theorem RetentionStore.Numbered.create {s : RetentionStore} (h : s.Numbered)
    {binds : BuildInsertBinds} {db : Database} (hinsert : executeBuildInsert s.db binds = some db) :
    RetentionStore.Numbered { s with
      db
      handedOut := (binds.projectId, (newBuild s.db binds).buildNumber) :: s.handedOut } := by
  obtain ⟨hkept, hnew⟩ := exists_row_of_insert hinsert
  refine ⟨List.pairwise_cons.mpr ⟨fun given hgiven hproject => ?_, h.strictly⟩,
    fun given hgiven => ?_⟩
  · obtain ⟨row, hrow, hrowProject, hle⟩ := h.covered given hgiven
    exact hle.trans_lt (number_lt_newBuild hrow (hrowProject.trans hproject.symm))
  · rcases List.mem_cons.mp hgiven with rfl | hgiven
    · exact ⟨_, hnew, rfl, le_refl _⟩
    · obtain ⟨row, hrow, hproject, hle⟩ := h.covered given hgiven
      obtain ⟨row', hrow', hproject', hnumber⟩ := hkept row hrow
      exact ⟨row', hrow', hproject'.trans hproject, hnumber ▸ hle⟩

/-- The build is not the last of its project. -/
def NotLast (builds : Table Build.id) (buildId : ℕ) : Prop :=
  ∀ row, builds.find buildId = some row →
    ∃ other ∈ builds.rows, other.projectId = row.projectId ∧ row.buildNumber < other.buildNumber

theorem RetentionStore.Numbered.deleteRow {s : RetentionStore} (h : s.Numbered) {buildId : ℕ}
    (hlast : NotLast s.db.builds buildId) : (s.deleteRow buildId).Numbered := by
  refine ⟨h.strictly, fun given hgiven => ?_⟩
  obtain ⟨row, hrow, hproject, hle⟩ := h.covered given hgiven
  by_cases hid : row.id = buildId
  · have hfind := Table.find_of_mem hrow
    rw [hid] at hfind
    obtain ⟨other, hother, hsame, hlt⟩ := hlast row hfind
    have hne : other.id ≠ buildId := by
      intro heq
      have hfind' := Table.find_of_mem hother
      rw [heq, hfind] at hfind'
      rw [← Option.some.inj hfind'] at hlt
      exact absurd hlt (lt_irrefl _)
    exact ⟨other, List.mem_filter.mpr ⟨hother, decide_eq_true hne⟩, hsame.trans hproject,
      hle.trans hlt.le⟩
  · exact ⟨row, List.mem_filter.mpr ⟨hrow, decide_eq_true hid⟩, hproject, hle⟩

/-! ## Runs -/

/-- No cleanup takes the row of the last build of a project. -/
def lastKept : Condition RetentionStore RetentionCall RetentionInput RetentionAnswer :=
  { Condition.any with advance := fun s call answer =>
      ∀ buildId, call.deletesBuild s answer buildId → NotLast s.db.builds buildId }

theorem enterRetention_numbered {s s' : RetentionStore} {input : RetentionInput}
    {started : List RetentionCall} (h : s.Numbered)
    (henter : enterRetention s input = some (s', started)) : s'.Numbered := by
  cases input with
  | createBuild binds =>
    obtain ⟨db, hinsert, heq⟩ := Option.map_eq_some_iff.mp henter
    cases heq
    exact h.create hinsert
  | transitionBuild buildId target now =>
    cases henter
    exact h.same (sameNumbers_moveBuild s _ _ _)
  | upload artifact =>
    simp only [enterRetention] at henter
    split at henter
    · split at henter
      · cases henter
        exact h.same (.of_builds rfl rfl)
      · cases henter
    · cases henter
  | createRelease buildId state =>
    simp only [enterRetention] at henter
    split at henter
    · cases henter
      exact h
    · cases henter
  | promote buildId state =>
    simp only [enterRetention] at henter
    split at henter
    · cases henter
    · cases henter
      exact h
  | moveRelease releaseId target =>
    simp only [enterRetention] at henter
    split at henter
    · cases henter
      exact h.same (.of_builds rfl rfl)
    · cases henter
  | cleanupProject projectId policy now =>
    simp only [enterRetention] at henter
    split at henter <;> cases henter <;> exact h
  | expireArtifacts now artifacts =>
    simp only [enterRetention] at henter
    split at henter
    · cases henter
      exact h
    · cases henter

theorem numbers_stable : Stable retention lastKept RetentionStore.Numbered (fun _ _ => True)
    fun _ _ => True where
  symm _ _ _ := trivial
  enter _ _ _ _ h _ henter :=
    ⟨enterRetention_numbered h henter, fun _ _ => trivial, List.pairwise_of_forall fun _ _ => trivial⟩
  enterBeside _ _ _ _ _ _ _ _ _ _ := ⟨trivial, fun _ _ => trivial⟩
  advance s call answer s' _ h _ hcond hadvance := by
    refine ⟨?_, fun _ _ => trivial⟩
    rcases advanceRetention_numbers hadvance with hsame | ⟨buildId, hdeletes, rfl⟩
    · exact h.same hsame
    · exact h.deleteRow (hcond buildId hdeletes)
  advanceBeside _ _ _ _ _ _ _ _ _ _ _ _ _ := ⟨trivial, fun _ _ => trivial⟩
  drop _ _ h _ := h
  dropBeside _ _ _ _ _ _ _ := trivial
  restart _ h := h

/-! ## Store version codes -/

/-- The version code a build sends to stores. The sum stays far below the bounds of an `i64`
whenever it is accepted. -/
def storeVersionCode (buildNumber offset : ℤ) : Except Text ℤ :=
  match validateBuildNumberOffset offset with
  | .error error => .error ("build_number_offset " ++ error)
  | .ok () =>
    let code := buildNumber + offset
    if 1 ≤ code ∧ code ≤ maxStoreVersionCode then .ok code
    else .error ("version code " ++ ofInt code ++ " (build " ++ ofInt buildNumber ++ " + offset " ++
      ofInt offset ++ ") is outside the store range 1..=" ++ ofInt maxStoreVersionCode)

theorem storeVersionCode_eq_ok {buildNumber offset code : ℤ}
    (h : storeVersionCode buildNumber offset = .ok code) : code = buildNumber + offset := by
  unfold storeVersionCode at h
  split at h
  · cases h
  · dsimp only at h
    split at h
    · cases h
      rfl
    · cases h

/-- No two numbers of one project are sent to stores under one code. -/
def DistinctCodes (handedOut : List (Text × ℕ)) : Prop :=
  handedOut.Pairwise fun later earlier => later.1 = earlier.1 → ∀ offset code : ℤ,
    storeVersionCode later.2 offset = .ok code → storeVersionCode earlier.2 offset ≠ .ok code

theorem StrictlyNumbered.distinctCodes {handedOut : List (Text × ℕ)} (h : StrictlyNumbered handedOut) :
    DistinctCodes handedOut := by
  refine List.Pairwise.imp (fun {later earlier} hlt hproject offset code hlater hearlier => ?_) h
  have hnumbers := hlt hproject
  have hcode := storeVersionCode_eq_ok hlater
  rw [storeVersionCode_eq_ok hearlier] at hcode
  omega

/-- While no cleanup takes the last build of a project, the numbers that are handed out increase in
every project, and no two builds of a project have one version code. -/
theorem numbers_increase {s : RetentionStore} (hfresh : s.Fresh)
    {es : List (Event RetentionInput RetentionAnswer)} {c : Config RetentionStore RetentionCall}
    (hmeets : retention.Meets lastKept ⟨s, []⟩ es) (hrun : retention.run ⟨s, []⟩ es = some c) :
    StrictlyNumbered c.shared.handedOut ∧ DistinctCodes c.shared.handedOut := by
  have hstart : s.Numbered := by
    refine ⟨?_, fun given hgiven => ?_⟩
    · rw [hfresh.handedOut]
      exact List.Pairwise.nil
    · rw [hfresh.handedOut] at hgiven
      cases hgiven
  have hnumbered := (numbers_stable.run (.start hstart) hmeets hrun).shared
  exact ⟨hnumbered.strictly, hnumbered.strictly.distinctCodes⟩

/-! ## Two runs -/

/-- Builds older than a day go, with their rows. -/
def dayPolicy : RetentionPolicy where
  enabled := true
  maxAgeDays := some 1
  maxBuildsPerProject := none
  maxArtifactSizeBytes := none
  cleanupTarget := .full
  keepStatuses := []
  dryRun := false

/-- A project without builds. -/
def noBuilds : RetentionStore where
  db := oneProject
  artifacts := ⟨[], List.nodup_nil⟩
  releases := ⟨[], List.nodup_nil⟩
  files := []
  handedOut := []
  losses := []

theorem fresh_noBuilds : noBuilds.Fresh := ⟨rfl, rfl, rfl, rfl⟩

/-- A cleanup of the first build, ten days after it was canceled. -/
def cleanFirst : List (Event RetentionInput RetentionAnswer) :=
  [.enter (.transitionBuild 1 .canceled 0), .enter (.cleanupProject "p" dayPolicy 864000),
    .advance 0 { ordered := [1] }, .advance 0 { ordered := [1] }, .advance 0 {}, .advance 0 {}]

def checkLastKept (c : Config RetentionStore RetentionCall) :
    Event RetentionInput RetentionAnswer → Bool
  | .advance i _ =>
    match c.calls[i]? with
    | some (.deleteBuild buildId _) =>
      (c.shared.db.builds.find buildId).all fun row => c.shared.db.builds.rows.any fun other =>
        other.projectId = row.projectId && row.buildNumber < other.buildNumber
    | _ => true
  | _ => true

theorem met_of_checkLastKept {c : Config RetentionStore RetentionCall}
    {e : Event RetentionInput RetentionAnswer} (h : checkLastKept c e = true) :
    lastKept.Met c e := by
  cases e with
  | enter input => exact ⟨trivial, fun _ _ => trivial⟩
  | drop i => trivial
  | restart => trivial
  | advance i answer =>
    intro call hcall
    refine ⟨?_, fun _ _ => trivial⟩
    rintro buildId ⟨rest, rfl, -⟩ row hfind
    simp only [checkLastKept, hcall, hfind, Option.all_some] at h
    obtain ⟨other, hother, hlater⟩ := List.any_eq_true.mp h
    rw [Bool.and_eq_true, decide_eq_true_eq, decide_eq_true_eq] at hlater
    exact ⟨other, hother, hlater⟩

/-- A cleanup of the first of two builds. -/
theorem numbers_increase_kept : ∃ c, retention.run ⟨noBuilds, []⟩
      ([.enter (.createBuild plainBinds), .enter (.createBuild plainBinds)] ++ cleanFirst ++
        [.enter (.createBuild plainBinds)]) = some c ∧
    StrictlyNumbered c.shared.handedOut := by
  have hmeets := meets_of_checks retention (fun _ _ => met_of_checkLastKept)
    (show retention.checks checkLastKept ⟨noBuilds, []⟩
      ([.enter (.createBuild plainBinds), .enter (.createBuild plainBinds)] ++ cleanFirst ++
        [.enter (.createBuild plainBinds)]) = true by decide +kernel)
  obtain ⟨c, hc⟩ := Option.isSome_iff_exists.mp (show (retention.run ⟨noBuilds, []⟩
      ([.enter (.createBuild plainBinds), .enter (.createBuild plainBinds)] ++ cleanFirst ++
        [.enter (.createBuild plainBinds)])).isSome = true by decide +kernel)
  exact ⟨c, hc, (numbers_increase fresh_noBuilds hmeets hc).1⟩

/-- A cleanup of the only build, and its number comes back. -/
theorem number_comes_back : ¬ ∀ (s : RetentionStore), s.Fresh →
    ∀ (es : List (Event RetentionInput RetentionAnswer)) (c : Config RetentionStore RetentionCall),
    retention.run ⟨s, []⟩ es = some c → StrictlyNumbered c.shared.handedOut := by
  intro h
  have hlast : (retention.run ⟨noBuilds, []⟩ ([.enter (.createBuild plainBinds)] ++ cleanFirst ++
      [.enter (.createBuild plainBinds)])).map (·.shared.handedOut) =
      some [(("p" : Text), 1), (("p" : Text), 1)] := by
    decide +kernel
  obtain ⟨c, hc, hgiven⟩ := Option.map_eq_some_iff.mp hlast
  have hstrictly := h noBuilds fresh_noBuilds _ c hc
  rw [hgiven] at hstrictly
  have hlt := (List.pairwise_cons.mp hstrictly).1 _ (List.mem_singleton_self _) rfl
  exact absurd hlt (lt_irrefl _)

end OoreBuild
