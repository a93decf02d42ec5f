import OoreBuild.AutoAdd

/-!
# Refreshes after pushes

Every push to the default branch spawns a refresh of its commit, and others read the head of the
branch. The lock lets one run at a time, in any order. A refresh leaves what its commit and the
cache before it make of the project (`Outcome.refreshed`), so the cache holds what was read last.
Where no refresh reads a commit older than one that was read before, that is the head
(`cache_follows_head`).
-/

namespace OoreBuild

namespace ConfigFiles

open Text Steps

/-! ## What a refresh leaves -/

/-- The cache, and the config paths of the pipelines, with whether they are explicit. -/
structure Outcome where
  autoAddPipelines : Bool
  cache : Option BranchCache
  pipelines : List (Text × Bool)

def Store.outcome (s : Store) : Outcome where
  autoAddPipelines := s.autoAddPipelines
  cache := s.cache
  pipelines := s.pipelines.rows.map fun row => (row.configPath, row.configPathExplicit)

/-- The files that pipelines with these config paths build from. -/
def usedBy (pipelines : List (Text × Bool)) (files : List CachedFile) : List Text :=
  pipelines.filterMap fun pipeline => (resolve files pipeline.1).map (·.path)

def resolvedPath (path : Text) (pipeline : Text × Bool) : Text × Bool :=
  if pipeline.2 then pipeline else (path, true)

namespace Outcome

def written (o : Outcome) (sha : Text) (truncated : Bool) (found : List CachedFile) : Outcome :=
  { o with cache := some ⟨some sha, truncated, none, found⟩ }

def legacy (o : Outcome) (cache : BranchCache) : Outcome :=
  { o with pipelines := o.pipelines.map (resolvedPath (legacyPath cache.files)) }

def added (o : Outcome) (files : List CachedFile) : Outcome :=
  { o with pipelines := o.pipelines ++ files.map fun file => (file.path, true) }

def used (o : Outcome) (cache : BranchCache) (previousSeen : List Text) : Outcome :=
  o.added (newFiles cache.files previousSeen (usedBy o.pipelines cache.files))

def enabled (o : Outcome) (cache : BranchCache) (previousSeen : List Text) : Outcome :=
  if o.autoAddPipelines then o.used cache previousSeen else o

/-- What is made of the cache that was written. -/
def loaded (o : Outcome) (previousSeen : List Text) : Outcome :=
  o.cache.elim o fun cache => (o.legacy cache.load).enabled cache.load previousSeen

/-- The cache holds the commit. -/
def holds (o : Outcome) (sha : Text) : Bool :=
  o.cache.any fun cache => cache.sha = some sha && cache.error.isNone

end Outcome

/-- The files of each commit, and whether the list was cut off. -/
abbrev Listing := Text → List CachedFile × Bool

/-- The cache of a commit. -/
def cacheAt (filesAt : Listing) (sha : Text) : BranchCache :=
  ⟨some sha, (filesAt sha).2, none, (filesAt sha).1⟩

/-- A whole refresh of a commit. -/
def Outcome.refreshed (filesAt : Listing) (o : Outcome) (sha : Text) (force : Bool) : Outcome :=
  if !force && o.holds sha then o
  else (o.written sha (filesAt sha).2 (filesAt sha).1).loaded
    (o.cache.elim [] fun cache => paths cache.load.files)

/-- What the refresh under way will leave. -/
def Store.goal (filesAt : Listing) (s : Store) : Outcome :=
  match s.refresh with
  | some (.source (some (branch, sha)) force) =>
    if branch ≠ s.branch then s.outcome else s.outcome.refreshed filesAt sha force
  | some (.loadPrevious sha force) => s.outcome.refreshed filesAt sha force
  | some (.discover sha previous) =>
    (s.outcome.written sha (filesAt sha).2 (filesAt sha).1).loaded
      (previous.elim [] fun cache => paths cache.files)
  | some (.write sha truncated found previousSeen) =>
    (s.outcome.written sha truncated found).loaded previousSeen
  | some (.loadCache previousSeen) => s.outcome.loaded previousSeen
  | some (.resolveLegacy cache previousSeen) => (s.outcome.legacy cache).enabled cache previousSeen
  | some (.enabled cache previousSeen) => s.outcome.enabled cache previousSeen
  | some (.used cache previousSeen) => s.outcome.used cache previousSeen
  | some (.add files) => s.outcome.added files
  | _ => s.outcome

section Goal

variable {filesAt : Listing} {s s' : Store}

theorem usedBy_outcome (s : Store) (files : List CachedFile) :
    usedBy s.outcome.pipelines files = usedPaths s.pipelines.rows files := by
  unfold usedBy usedPaths Store.outcome
  rw [List.filterMap_map]
  rfl

theorem outcome_resolveLegacy (s : Store) (cache : BranchCache) :
    (s.resolveLegacy cache).outcome = s.outcome.legacy cache := by
  unfold Store.resolveLegacy Store.outcome Outcome.legacy Table.mapRows
  simp only [List.map_map]
  congr 2
  funext row
  unfold resolvedPath PipelineRow.resolved
  dsimp only [Function.comp_apply]
  split <;> rfl

theorem outcome_addPipeline (s : Store) (id : ℕ) (file : CachedFile)
    (h : id ∉ s.pipelines.rows.map (·.id)) :
    (s.addPipeline id file.path h).outcome = s.outcome.added [file] := by
  unfold Store.addPipeline Store.insertPipeline Store.outcome Outcome.added Table.insert
  simp

theorem added_cons (o : Outcome) (file : CachedFile) (files : List CachedFile) :
    (o.added [file]).added files = o.added (file :: files) := by
  simp [Outcome.added]

/-- What is done next does not change what the refresh will leave. -/
theorem proceed_goal {id : ℕ} (herror : ∀ error, s.refresh ≠ some (.recordError error))
    (h : s.proceed id = some s') :
    s'.goal filesAt = s.goal filesAt ∧ ∀ error, s'.refresh ≠ some (.recordError error) := by
  unfold Store.proceed at h
  unfold Store.goal
  split at h
  · rename_i hrefresh
    cases h
    rw [hrefresh]
    exact ⟨rfl, fun _ h => by cases h⟩
  · rename_i hrefresh
    rw [hrefresh]
    split at h
    · rename_i hbranch
      cases h
      exact ⟨(if_pos hbranch).symm, fun _ h => by cases h⟩
    · rename_i hbranch
      cases h
      exact ⟨(if_neg hbranch).symm, fun _ h => by cases h⟩
  · rename_i error hrefresh
    exact absurd hrefresh (herror error)
  · rename_i sha force hrefresh
    have hholds : (s.cache.map BranchCache.load).any
        (fun cache => cache.sha = some sha && cache.error.isNone) = s.outcome.holds sha :=
      Option.any_map
    rw [hrefresh]
    dsimp only at h ⊢
    rw [hholds] at h
    unfold Outcome.refreshed
    split at h
    · rename_i hheld
      cases h
      exact ⟨(if_pos hheld).symm, fun _ h => by cases h⟩
    · rename_i hheld
      cases h
      refine ⟨?_, fun _ h => by cases h⟩
      rw [if_neg hheld]
      cases hcache : s.cache <;> simp [Store.outcome, hcache]
  · rename_i hrefresh
    cases h
    rw [hrefresh]
    exact ⟨rfl, fun _ h => by cases h⟩
  · rename_i previousSeen hrefresh
    rw [hrefresh]
    obtain ⟨cache, hcache, rfl⟩ := Option.map_eq_some_iff.mp h
    refine ⟨?_, fun _ h => by cases h⟩
    have houtcome : s.outcome.cache = some cache := hcache
    dsimp only
    rw [Outcome.loaded, houtcome]
    rfl
  · rename_i cache previousSeen hrefresh
    cases h
    rw [hrefresh]
    refine ⟨?_, fun _ h => by cases h⟩
    dsimp only
    rw [← outcome_resolveLegacy]
    rfl
  · rename_i cache previousSeen hrefresh
    rw [hrefresh]
    split at h
    · rename_i henabled
      cases h
      exact ⟨(if_pos henabled).symm, fun _ h => by cases h⟩
    · rename_i henabled
      cases h
      exact ⟨(if_neg henabled).symm, fun _ h => by cases h⟩
  · rename_i cache previousSeen hrefresh
    cases h
    rw [hrefresh]
    refine ⟨?_, fun _ h => by cases h⟩
    dsimp only
    rw [Outcome.used, usedBy_outcome]
    rfl
  · rename_i hrefresh
    cases h
    rw [hrefresh]
    refine ⟨?_, fun _ h => by cases h⟩
    dsimp only [Outcome.added]
    rw [List.map_nil, List.append_nil]
    rfl
  · rename_i file files hrefresh
    rw [hrefresh]
    split at h
    · rename_i hid
      cases h
      refine ⟨?_, fun _ h => by cases h⟩
      dsimp only
      rw [← added_cons, ← outcome_addPipeline s id file hid]
      rfl
    · cases h
  · cases h

end Goal

/-! ## Pushes and refreshes -/

/-- A commit that a refresh takes, with its place among the pushes. -/
structure Read where
  index : ℕ
  sha : Text
  force : Bool

/-- The project, its default branch, and the refreshes of pushes that have not begun. -/
structure World where
  store : Store
  /-- The commits at the head of the branch, in the order of the pushes. -/
  pushes : List Text
  pending : List ℕ
  /-- The commits that refreshes have taken, in the order in which they had the lock. -/
  reads : List Read

inductive Act where
  | push (sha : Text)
  /-- The refresh of a push obtains the lock. -/
  | begin (index : ℕ)
  /-- A refresh that resolves the head itself obtains the lock. -/
  | beginHead (force : Bool)
  | proceed (id : ℕ)
  /-- The provider tells the head. -/
  | answer
  /-- The provider tells the files. -/
  | discover

def World.step (filesAt : Listing) (w : World) : Act → Option World
  | .push sha =>
    some { w with pushes := w.pushes ++ [sha], pending := w.pending ++ [w.pushes.length] }
  | .begin index =>
    if index ∈ w.pending then
      w.pushes[index]?.bind fun sha =>
        (w.store.step (.refresh (some (w.store.branch, sha)) false)).map fun store =>
          { w with
            store, pending := w.pending.erase index, reads := w.reads ++ [⟨index, sha, false⟩] }
    else none
  | .beginHead force => (w.store.step (.refresh none force)).map fun store => { w with store }
  | .proceed id => (w.store.step (.proceed id)).map fun store => { w with store }
  | .answer =>
    match w.store.refresh, w.pushes.getLast? with
    | some (.resolve force), some sha =>
      (w.store.step (.resolved sha)).map fun store =>
        { w with store, reads := w.reads ++ [⟨w.pushes.length - 1, sha, force⟩] }
    | _, _ => none
  | .discover =>
    match w.store.refresh with
    | some (.discover sha _) =>
      (w.store.step (.discovered (filesAt sha).1 (filesAt sha).2)).map fun store => { w with store }
    | _ => none

/-- A project before its first refresh, and the head of its branch. -/
def World.new (project : Project) (head : Text) : World := ⟨project.new, [head], [], []⟩

/-- What these refreshes leave, one after the other. -/
def Outcome.after (filesAt : Listing) (o : Outcome) (reads : List Read) : Outcome :=
  reads.foldl (fun o read => o.refreshed filesAt read.sha read.force) o

/-- The same refreshes, in the order of the pushes. -/
def inPushOrder (reads : List Read) : List Read := reads.insertionSort fun a b => a.index ≤ b.index

/-- When all refreshes of pushes have run, the cache holds the head and its files, and the pipelines
are those of the refreshes in the order of the pushes. -/
def World.Follows (filesAt : Listing) (start : Outcome) (w : World) : Prop :=
  w.store.refresh = none → w.pending = [] → 1 < w.pushes.length →
    w.store.cache = w.pushes.getLast?.map (cacheAt filesAt) ∧
    w.store.outcome.pipelines = (start.after filesAt (inPushOrder w.reads)).pipelines

/-- No refresh of a push begins after a later commit was read. -/
def World.InOrder (w : World) : Act → Prop
  | .begin index => ∀ read ∈ w.reads, read.index ≤ index
  | _ => True

/-- What holds whatever the refresh is at. -/
structure World.Sound (filesAt : Listing) (start : Outcome) (w : World) : Prop where
  goal : w.store.goal filesAt = start.after filesAt w.reads
  noError : ∀ error, w.store.refresh ≠ some (.recordError error)
  reads : ∀ read ∈ w.reads, w.pushes[read.index]? = some read.sha
  /-- All pushes but the first have a refresh. -/
  covered : ∀ index, 0 < index → index < w.pushes.length →
    index ∈ w.pending ∨ ∃ read ∈ w.reads, read.index = index
  ordered : w.reads.Pairwise fun a b => a.index ≤ b.index

section Order

variable {filesAt : Listing} {start : Outcome}

theorem after_append (o : Outcome) (reads reads' : List Read) :
    o.after filesAt (reads ++ reads') = (o.after filesAt reads).after filesAt reads' :=
  List.foldl_append

theorem inPushOrder_eq {reads : List Read} (h : reads.Pairwise fun a b => a.index ≤ b.index) :
    inPushOrder reads = reads :=
  List.Pairwise.insertionSort_eq h

theorem World.Sound.lt {w : World} (h : w.Sound filesAt start) {read : Read}
    (hread : read ∈ w.reads) : read.index < w.pushes.length :=
  (List.getElem?_eq_some_iff.mp (h.reads read hread)).choose

/-- The refresh that obtains the lock takes a commit. -/
theorem World.Sound.take {w w' : World} (h : w.Sound filesAt start) (read : Read)
    (hgoal : w'.store.goal filesAt = (w.store.goal filesAt).refreshed filesAt read.sha read.force)
    (hnoError : ∀ error, w'.store.refresh ≠ some (.recordError error))
    (hreads : w'.reads = w.reads ++ [read]) (hpushes : w'.pushes = w.pushes)
    (hsha : w.pushes[read.index]? = some read.sha)
    (hpending : ∀ index ∈ w.pending, index ∈ w'.pending ∨ index = read.index)
    (horder : ∀ other ∈ w.reads, other.index ≤ read.index) : w'.Sound filesAt start where
  goal := by
    rw [hreads, after_append, hgoal, h.goal]
    rfl
  noError := hnoError
  reads other hother := by
    rw [hreads, List.mem_append, List.mem_singleton] at hother
    rw [hpushes]
    rcases hother with hother | rfl
    · exact h.reads other hother
    · exact hsha
  covered index hpos hlt := by
    rw [hpushes] at hlt
    rw [hreads]
    rcases h.covered index hpos hlt with hmem | ⟨other, hother, hindex⟩
    · rcases hpending index hmem with hmem | heq
      · exact .inl hmem
      · exact .inr ⟨read, by simp, heq.symm⟩
    · exact .inr ⟨other, List.mem_append_left _ hother, hindex⟩
  ordered := by
    rw [hreads, List.pairwise_append]
    refine ⟨h.ordered, List.pairwise_singleton _ _, fun other hother last hlast => ?_⟩
    rw [List.mem_singleton.mp hlast]
    exact horder other hother

/-- The refresh under way goes on. -/
theorem World.Sound.store {w : World} {store : Store} (h : w.Sound filesAt start)
    (hgoal : store.goal filesAt = w.store.goal filesAt)
    (hnoError : ∀ error, store.refresh ≠ some (.recordError error)) :
    World.Sound filesAt start { w with store } :=
  ⟨hgoal.trans h.goal, hnoError, h.reads, h.covered, h.ordered⟩

theorem World.Sound.push {w : World} (h : w.Sound filesAt start) (sha : Text) :
    World.Sound filesAt start
      { w with pushes := w.pushes ++ [sha], pending := w.pending ++ [w.pushes.length] } where
  goal := h.goal
  noError := h.noError
  reads read hread := by
    rw [List.getElem?_append_left (h.lt hread)]
    exact h.reads read hread
  covered index hpos hlt := by
    dsimp only at hlt ⊢
    rw [List.length_append, List.length_singleton] at hlt
    rcases Nat.lt_or_ge index w.pushes.length with hold | hnew
    · exact (h.covered index hpos hold).imp_left (List.mem_append_left _)
    · have heq : index = w.pushes.length := by omega
      exact .inl (by simp [heq])
  ordered := h.ordered

theorem refresh_eq {s s' : Store} {pushed : Option (Text × Text)} {force : Bool}
    (h : s.step (.refresh pushed force) = some s') :
    s.refresh = none ∧ s' = { s with refresh := some (.source pushed force) } := by
  change (if s.refresh.isNone then some _ else none) = some s' at h
  split at h
  · rename_i hnone
    exact ⟨Option.isNone_iff_eq_none.mp hnone, (Option.some.inj h).symm⟩
  · cases h

theorem World.Sound.step {w w' : World} {act : Act} (h : w.Sound filesAt start)
    (horder : w.InOrder act) (hstep : w.step filesAt act = some w') : w'.Sound filesAt start := by
  cases act with
  | push sha =>
    cases hstep
    exact h.push sha
  | begin index =>
    change (if index ∈ w.pending then _ else none) = some w' at hstep
    split at hstep
    · obtain ⟨sha, hsha, hstep⟩ := Option.bind_eq_some_iff.mp hstep
      obtain ⟨store, hrefresh, rfl⟩ := Option.map_eq_some_iff.mp hstep
      obtain ⟨hidle, rfl⟩ := refresh_eq hrefresh
      refine h.take ⟨index, sha, false⟩ ?_ nofun rfl rfl hsha (fun other hother => ?_)
        horder
      · have hgoal : w.store.goal filesAt = w.store.outcome := by
          unfold Store.goal
          rw [hidle]
        rw [hgoal]
        exact if_neg (not_not.mpr rfl)
      · by_cases heq : other = index
        · exact .inr heq
        · exact .inl ((List.mem_erase_of_ne heq).mpr hother)
    · cases hstep
  | beginHead force =>
    obtain ⟨store, hrefresh, rfl⟩ := Option.map_eq_some_iff.mp hstep
    obtain ⟨hidle, rfl⟩ := refresh_eq hrefresh
    refine h.store ?_ nofun
    unfold Store.goal
    rw [hidle]
    rfl
  | proceed id =>
    obtain ⟨store, hproceed, rfl⟩ := Option.map_eq_some_iff.mp hstep
    obtain ⟨hgoal, hnoError⟩ := proceed_goal h.noError hproceed
    exact h.store hgoal hnoError
  | answer =>
    unfold World.step at hstep
    dsimp only at hstep
    split at hstep
    · rename_i force sha hrefresh hlast
      obtain ⟨store, hresolved, rfl⟩ := Option.map_eq_some_iff.mp hstep
      have hstore : store = { w.store with refresh := some (.loadPrevious sha force) } := by
        unfold Store.step at hresolved
        rw [hrefresh] at hresolved
        exact (Option.some.inj hresolved).symm
      subst hstore
      have hgoal : w.store.goal filesAt = w.store.outcome := by
        unfold Store.goal
        rw [hrefresh]
      refine h.take ⟨w.pushes.length - 1, sha, force⟩ ?_ nofun rfl rfl ?_
        (fun other hother => .inl hother) fun other hother => Nat.le_sub_one_of_lt (h.lt hother)
      · rw [hgoal]
        rfl
      · rw [← List.getLast?_eq_getElem?]
        exact hlast
    · cases hstep
  | discover =>
    unfold World.step at hstep
    dsimp only at hstep
    split at hstep
    · rename_i sha previous hrefresh
      obtain ⟨store, hdiscovered, rfl⟩ := Option.map_eq_some_iff.mp hstep
      unfold Store.step at hdiscovered
      rw [hrefresh] at hdiscovered
      dsimp only at hdiscovered
      split at hdiscovered
      · cases hdiscovered
        refine h.store ?_ nofun
        unfold Store.goal
        rw [hrefresh]
        rfl
      · cases hdiscovered
    · cases hstep

/-! ## The cache -/

/-- The cache is that of a commit. -/
def Outcome.Faithful (filesAt : Listing) (o : Outcome) : Prop :=
  ∀ cache, o.cache = some cache → ∃ sha, cache = cacheAt filesAt sha

theorem cache_loaded (o : Outcome) (previousSeen : List Text) :
    (o.loaded previousSeen).cache = o.cache := by
  unfold Outcome.loaded
  cases hcache : o.cache with
  | none => exact hcache
  | some cache =>
    dsimp only [Option.elim_some, Outcome.enabled]
    split
    · exact hcache
    · exact hcache

/-- A refresh leaves the cache of its commit. -/
theorem cache_refreshed {o : Outcome} (h : o.Faithful filesAt) (sha : Text) (force : Bool) :
    (o.refreshed filesAt sha force).cache = some (cacheAt filesAt sha) := by
  unfold Outcome.refreshed
  split
  · rename_i hheld
    obtain ⟨-, hholds⟩ := Bool.and_eq_true_iff.mp hheld
    obtain ⟨cache, hcache, hsame⟩ := (Option.any_eq_true ..).mp hholds
    obtain ⟨held, rfl⟩ := h cache hcache
    obtain ⟨hsha, -⟩ := Bool.and_eq_true_iff.mp hsame
    have heq : held = sha := Option.some.inj (of_decide_eq_true hsha)
    rw [← heq]
    exact hcache
  · exact cache_loaded _ _

theorem faithful_after {o : Outcome} (h : o.Faithful filesAt) (reads : List Read) :
    (o.after filesAt reads).Faithful filesAt := by
  induction reads generalizing o with
  | nil => exact h
  | cons read rest ih =>
    refine ih fun cache hcache => ⟨read.sha, ?_⟩
    rw [cache_refreshed h] at hcache
    exact (Option.some.inj hcache).symm

/-- The cache is that of the commit that was read last. -/
theorem cache_after {o : Outcome} (h : o.Faithful filesAt) (reads : List Read) (last : Read) :
    (o.after filesAt (reads ++ [last])).cache = some (cacheAt filesAt last.sha) := by
  rw [after_append]
  exact cache_refreshed (faithful_after h reads) last.sha last.force

/-- In push order, the commit that is read last is the head. -/
theorem World.Sound.last {w : World} (h : w.Sound filesAt start) (hpending : w.pending = [])
    (hpushed : 1 < w.pushes.length) :
    ∃ reads last, w.reads = reads ++ [last] ∧ w.pushes.getLast? = some last.sha := by
  obtain ⟨read, hread, hindex⟩ :=
    (h.covered (w.pushes.length - 1) (by omega) (by omega)).resolve_left
      (by rw [hpending]; exact List.not_mem_nil)
  rcases List.eq_nil_or_concat w.reads with hnil | ⟨reads, last, hreads⟩
  · rw [hnil] at hread
    cases hread
  · rw [List.concat_eq_append] at hreads
    refine ⟨reads, last, hreads, ?_⟩
    have hlast : last ∈ w.reads := by simp [hreads]
    have hle : read.index ≤ last.index := by
      have hordered := h.ordered
      rw [hreads, List.pairwise_append] at hordered
      rw [hreads, List.mem_append, List.mem_singleton] at hread
      rcases hread with hread | rfl
      · exact hordered.2.2 read hread last (List.mem_singleton_self _)
      · exact le_rfl
    have heq : w.pushes.length - 1 = last.index := by
      have := h.lt hlast
      omega
    rw [List.getLast?_eq_getElem?, heq]
    exact h.reads last hlast

/-- Where no refresh of a push begins after a later commit was read, the cache follows the head. -/
theorem cache_follows_head (filesAt : Listing) (project : Project) (head : Text) (acts : List Act)
    (hmeets : Meets (World.step filesAt) World.InOrder (World.new project head) acts) :
    ∀ w, run (World.step filesAt) (World.new project head) acts = some w →
      w.Follows filesAt project.new.outcome := by
  intro w hrun
  have hnew : (World.new project head).Sound filesAt project.new.outcome := by
    refine ⟨rfl, nofun, fun read hread => ?_, fun index hpos hlt => ?_, List.Pairwise.nil⟩
    · cases hread
    · have hone : index < 1 := hlt
      omega
  have hsound : w.Sound filesAt project.new.outcome :=
    keeps_run (fun _ _ _ h horder hstep => h.step horder hstep) hnew hmeets hrun
  have hfaithful : project.new.outcome.Faithful filesAt := fun cache hcache => by cases hcache
  intro hidle hpending hpushed
  have hgoal := hsound.goal
  unfold Store.goal at hgoal
  rw [hidle] at hgoal
  obtain ⟨reads, last, hreads, hhead⟩ := hsound.last hpending hpushed
  constructor
  · rw [hhead, Option.map_some, ← cache_after hfaithful reads last, ← hreads, ← hgoal]
    rfl
  · rw [inPushOrder_eq hsound.ordered, ← hgoal]

end Order

/-- Commit `c1` has one config file, every other one two. -/
def twoCommits : Listing := fun sha =>
  if sha = "c1" then ([⟨".oore.yaml", true⟩], false)
  else ([⟨".oore.yaml", true⟩, ⟨".oore.beta.yaml", true⟩], false)

/-- The refresh of a push, which adds these pipelines. -/
def refreshPush (index : ℕ) (ids : List ℕ) : List Act :=
  [.begin index, .proceed 0, .proceed 0, .discover, .proceed 0, .proceed 0, .proceed 0, .proceed 0,
    .proceed 0] ++ ids.map .proceed ++ [.proceed 0]

/-- A refresh that finds the cache up to date. -/
def refreshHead : List Act := [.beginHead false, .proceed 0, .answer, .proceed 0]

/-- All refreshes have run, after the pushes of `c1` and `c2`. -/
def World.ranBoth (w : World) : Bool :=
  w.store.refresh.isNone &&
    (w.pending.isEmpty && decide (w.pushes = (["c0", "c1", "c2"] : List Text)))

theorem World.of_ranBoth {w : World} (h : w.ranBoth = true) :
    w.store.refresh = none ∧ w.pending = [] ∧ w.pushes = (["c0", "c1", "c2"] : List Text) := by
  simpa [ranBoth] using h

/-- Two pushes, and a manual refresh at the end. -/
def pushedTwice : List Act :=
  [.push "c1", .push "c2"] ++ refreshPush 1 [1] ++ refreshPush 2 [2] ++ refreshHead

def World.looksInOrder (w : World) : Act → Bool
  | .begin index => w.reads.all fun read => read.index ≤ index
  | _ => true

theorem World.inOrder_of_looks (w : World) (act : Act) (h : w.looksInOrder act = true) :
    w.InOrder act := by
  cases act with
  | begin index =>
    intro read hread
    exact of_decide_eq_true (List.all_eq_true.mp h read hread)
  | push sha => trivial
  | beginHead force => trivial
  | proceed id => trivial
  | answer => trivial
  | discover => trivial

theorem cache_follows_head_twice : ∃ w,
    run (World.step twoCommits) (World.new emptyProject "c0") pushedTwice = some w ∧
      w.Follows twoCommits emptyProject.new.outcome ∧
      w.store.cache = some (cacheAt twoCommits "c2") := by
  have hdone : (run (World.step twoCommits) (World.new emptyProject "c0") pushedTwice).any
      World.ranBoth = true := by
    decide +kernel
  obtain ⟨w, hrun, hdone⟩ := (Option.any_eq_true ..).mp hdone
  obtain ⟨hidle, hpending, hpushes⟩ := World.of_ranBoth hdone
  have hmeets : Meets (World.step twoCommits) World.InOrder (World.new emptyProject "c0")
      pushedTwice :=
    meets_of_checks World.inOrder_of_looks (by decide +kernel)
  have hfollows := cache_follows_head twoCommits emptyProject "c0" pushedTwice hmeets w hrun
  refine ⟨w, hrun, hfollows, ?_⟩
  rw [(hfollows hidle hpending (by rw [hpushes]; decide)).1, hpushes]
  rfl

/-- The refresh of the second push obtains the lock first. -/
def overtaken : List Act := [.push "c1", .push "c2"] ++ refreshPush 2 [1, 2] ++ refreshPush 1 []

/-- All refreshes have run, and the cache holds the older commit. -/
theorem overtaken_not_follows : ¬ ∀ (filesAt : Listing) (project : Project) (head : Text)
    (acts : List Act) (w : World),
    run (World.step filesAt) (World.new project head) acts = some w →
      w.Follows filesAt project.new.outcome := by
  intro h
  have hdone : (run (World.step twoCommits) (World.new emptyProject "c0") overtaken).any
      (fun w => w.ranBoth && w.store.outcome.holds "c1") = true := by
    decide +kernel
  obtain ⟨w, hrun, hdone⟩ := (Option.any_eq_true ..).mp hdone
  obtain ⟨hboth, hheld⟩ := Bool.and_eq_true_iff.mp hdone
  obtain ⟨hidle, hpending, hpushes⟩ := World.of_ranBoth hboth
  have hhead := (h twoCommits emptyProject "c0" overtaken w hrun hidle hpending
    (by rw [hpushes]; decide)).1
  unfold Outcome.holds Store.outcome at hheld
  dsimp only at hheld
  rw [hhead, hpushes] at hheld
  exact absurd hheld (by decide)

end ConfigFiles

end OoreBuild
