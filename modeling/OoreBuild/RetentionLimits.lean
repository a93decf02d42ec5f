import Mathlib.Data.List.Sort
import OoreBuild.KeptReleases

/-!
# What a cleanup picks

A cleanup chooses its builds under three limits: an age, a number of builds, and the size of the
stored artifacts. Here the queries run one after the other over tables that do not change, and each
pick is kept with the limit that made it. `picks_within_limits` is what the limits promise.
`picks_of_collect` says that a cleanup of the system, where other calls run between the queries,
chooses the same builds when none does.
-/

namespace OoreBuild

open Text

/-! ## Collecting candidates -/

inductive RetentionLimit where
  | age
  | count
  | size
  deriving DecidableEq, Repr

structure Pick where
  limit : RetentionLimit
  buildId : ℕ
  deriving DecidableEq, Repr

def picked (picks : List Pick) (buildId : ℕ) : Bool := picks.any fun pick => pick.buildId = buildId

/-- `HashSet::extend` with the ids of one query. -/
def extend (limit : RetentionLimit) (picks : List Pick) (ids : List ℕ) : List Pick :=
  picks ++ (ids.filter fun id => !picked picks id).map (Pick.mk limit)

/-- What the database returns: the ids of each query in its order, before a limit cuts them. -/
structure RetentionRows where
  expired : Option (List ℕ)
  excess : Option (List ℕ)
  oldest : Option (List ℕ)
  sizesFail : Bool := false

/-- The ids, if they are those of the rows in the order asked for. -/
def fetchAll (le : Option ℤ → Option ℤ → Bool) (rows : List Build) (ids : Option (List ℕ)) :
    Option (List ℕ) :=
  ids.filter (orderedBy le rows)

section Queries

variable (s : RetentionStore) (projectId : Text) (policy : RetentionPolicy)

def loadExpiredBuildIds (ageCutoff : ℤ) (limit : ℕ) (ids : Option (List ℕ)) : Option (List ℕ) :=
  (fetchAll nullsFirst ((eligibleBuilds s projectId policy).filter fun row =>
    row.finishedAt.any (· < ageCutoff)) ids).map (List.take limit)

def loadExcessBuildIds (keepCount limit : ℕ) (ids : Option (List ℕ)) : Option (List ℕ) :=
  (fetchAll (fun a b => nullsFirst b a) (eligibleBuilds s projectId policy) ids).map fun ids =>
    (ids.drop keepCount).take limit

/-- The oldest eligible builds that still have stored artifacts, with their size. -/
def loadOldestBuildSizes (limit : ℕ) (ids : Option (List ℕ)) : Option (List (ℕ × ℤ)) :=
  (fetchAll nullsFirst ((eligibleBuilds s projectId policy).filter fun row =>
    0 < availableSizeOf s (· = row.id)) ids).map fun ids =>
      (ids.take limit).map fun id => (id, availableSizeOf s (· = id))

/-- The loop over the oldest builds. -/
def pickUntilFits (maxSize : ℤ) : ℤ → List Pick → List (ℕ × ℤ) → List Pick
  | _, picks, [] => picks
  | remaining, picks, (id, buildSize) :: rest =>
    if remaining ≤ maxSize then picks
    else if picked picks id then pickUntilFits maxSize remaining picks rest
    else pickUntilFits maxSize (remaining - buildSize) (picks ++ [⟨.size, id⟩]) rest

def addSizeLimitCandidates (maxSize : ℤ) (rows : RetentionRows) (picks : List Pick) :
    Option (List Pick) :=
  if rows.sizesFail then none
  else
    let totalSize := projectSize s projectId fun _ => true
    if totalSize ≤ maxSize then some picks
    else
      let eligibleSize := projectSize s projectId ((Eligible.new policy).allows s)
      if maxSize < totalSize - eligibleSize then some picks
      else
        let remaining := totalSize - availableSizeOf s (picked picks)
        if remaining ≤ maxSize then some picks
        else
          (loadOldestBuildSizes s projectId policy (retentionBatchSize - picks.length)
            rows.oldest).map (pickUntilFits maxSize remaining picks)

/-- Apply a limit that is set, while the batch has room. -/
def withRoom {α : Type} (limit : Option α) (picks : List Pick)
    (add : α → Option (List Pick)) : Option (List Pick) :=
  match limit with
  | some value => if picks.length < retentionBatchSize then add value else some picks
  | none => some picks

/-- The three limits, each with what is left of the batch. The time before which a build is too old
is an integer here; the source's is of 64 bits and may wrap. -/
def collectRetentionCandidates (now : ℤ) (rows : RetentionRows) : Option (List Pick) :=
  if (Eligible.new policy).isEmpty then some []
  else do
    let picks ← withRoom policy.maxAgeDays [] fun maxAgeDays =>
      (loadExpiredBuildIds s projectId policy (now - maxAgeDays * 86400) retentionBatchSize
        rows.expired).map (extend .age [])
    let picks ← withRoom policy.maxBuildsPerProject picks fun maxCount =>
      (loadExcessBuildIds s projectId policy maxCount (retentionBatchSize - picks.length)
        rows.excess).map (extend .count picks)
    withRoom policy.maxArtifactSizeBytes picks fun maxSize =>
      addSizeLimitCandidates s projectId policy maxSize rows picks

/-- The artifacts of builds that the policy or a release protects. -/
def protectedSize : ℤ := projectSize s projectId fun row => !(Eligible.new policy).allows s row

/-- The artifacts that are left once the builds picked so far are gone. -/
def leftSize (picks : List Pick) : ℤ := projectSize s projectId fun row => !picked picks row.id

end Queries

/-! ## The queries -/

/-- The ids are those of the builds that finished last. -/
structure MostRecent (rows : List Build) (count : ℕ) (ids : List ℕ) : Prop where
  distinct : ids.Nodup
  length : ids.length = min count rows.length
  exist : ∀ id ∈ ids, ∃ row ∈ rows, row.id = id
  latest : ∀ row ∈ rows, ∀ other ∈ rows, row.id ∈ ids → other.id ∉ ids →
    nullsFirst other.finishedAt row.finishedAt = true

variable {s : RetentionStore} {projectId : Text} {policy : RetentionPolicy}

theorem orderedBy_of_fetchAll {le : Option ℤ → Option ℤ → Bool} {rows : List Build}
    {ids : Option (List ℕ)} {fetched : List ℕ} (h : fetchAll le rows ids = some fetched) :
    orderedBy le rows fetched = true := by
  obtain ⟨-, hordered⟩ := Option.filter_eq_some_iff.mp h
  exact hordered

theorem nodup_of_orderedBy {le : Option ℤ → Option ℤ → Bool} {rows : List Build} {ids : List ℕ}
    (hrows : (rows.map Build.id).Nodup) (h : orderedBy le rows ids = true) : ids.Nodup := by
  unfold orderedBy at h
  rw [Bool.and_eq_true, List.isPerm_iff] at h
  exact h.1.nodup_iff.mpr hrows

theorem nodup_eligibleBuilds : ((eligibleBuilds s projectId policy).map Build.id).Nodup :=
  s.db.builds.nodup.sublist (List.filter_sublist.map Build.id)

/-- The first ids in the order of the query are those of the builds that finished last. -/
theorem mostRecent_take {rows : List Build} {ids : List ℕ} (hrows : (rows.map Build.id).Nodup)
    (h : orderedBy (fun a b => nullsFirst b a) rows ids = true) (count : ℕ) :
    MostRecent rows count (ids.take count) := by
  have hperm : ids.Perm (rows.map Build.id) := by
    unfold orderedBy at h
    rw [Bool.and_eq_true, List.isPerm_iff] at h
    exact h.1
  refine ⟨(nodup_of_orderedBy hrows h).sublist (List.take_sublist _ _), ?_, ?_, ?_⟩
  · rw [List.length_take, hperm.length_eq, List.length_map]
  · intro id hid
    exact mem_of_orderedBy h (List.mem_of_mem_take hid)
  · intro row hrow other hother hin hout
    have hsplit : other.id ∈ ids.take count ∨ other.id ∈ ids.drop count := by
      rw [← List.mem_append, List.take_append_drop]
      exact hperm.mem_iff.mpr (List.mem_map_of_mem hother)
    have hpairwise := h
    unfold orderedBy at hpairwise
    rw [Bool.and_eq_true, decide_eq_true_eq, ← List.take_append_drop count ids] at hpairwise
    have hle := (List.pairwise_append.mp hpairwise.2).2.2 _ hin _ (hsplit.resolve_left hout)
    have hle := List.all_eq_true.mp (List.all_eq_true.mp hle row hrow) other hother
    simpa using hle

theorem nullsFirst_total (a b : Option ℤ) : nullsFirst a b = true ∨ nullsFirst b a = true := by
  cases a <;> cases b <;> simp [nullsFirst, le_total]

theorem nullsFirst_trans {a b c : Option ℤ} (hab : nullsFirst a b = true)
    (hbc : nullsFirst b c = true) : nullsFirst a c = true := by
  cases a <;> cases b <;> cases c <;> simp_all [nullsFirst]
  omega

/-- There are builds that finished last, whether or not a query looks for them. -/
theorem exists_mostRecent (rows : List Build) (hrows : (rows.map Build.id).Nodup) (count : ℕ) :
    ∃ ids, MostRecent rows count ids := by
  let latest (a b : Build) : Bool := nullsFirst b.finishedAt a.finishedAt
  have htrans (a b c : Build) (hab : latest a b = true) (hbc : latest b c = true) :
      latest a c = true := nullsFirst_trans hbc hab
  have htotal (a b : Build) : (latest a b || latest b a) = true := by
    rw [Bool.or_eq_true]
    exact nullsFirst_total _ _
  let sorted := rows.mergeSort latest
  have hperm : sorted.Perm rows := List.mergeSort_perm ..
  have hsorted : sorted.Pairwise fun a b => latest a b = true :=
    List.pairwise_mergeSort htrans htotal rows
  suffices h : orderedBy (fun a b => nullsFirst b a) rows (sorted.map Build.id) = true from
    ⟨_, mostRecent_take hrows h count⟩
  unfold orderedBy
  rw [Bool.and_eq_true, List.isPerm_iff, decide_eq_true_eq, List.pairwise_map]
  refine ⟨hperm.map _, hsorted.imp_of_mem fun {a b} ha hb hle => ?_⟩
  refine List.all_eq_true.mpr fun x hx => List.all_eq_true.mpr fun y hy => ?_
  by_cases hids : x.id = a.id ∧ y.id = b.id
  · obtain rfl := List.inj_on_of_nodup_map hrows hx (hperm.mem_iff.mp ha) hids.1
    obtain rfl := List.inj_on_of_nodup_map hrows hy (hperm.mem_iff.mp hb) hids.2
    rw [Bool.or_eq_true]
    exact .inr hle
  · rw [Bool.or_eq_true, Bool.not_eq_true']
    exact .inl (by simpa using hids)

/-! ## Sizes -/

theorem sum_filter_sub {α : Type} (rows : List α) (size : α → ℤ) {p q : α → Bool}
    (h : ∀ row, q row = true → p row = true) :
    ((rows.filter p).map size).sum - ((rows.filter q).map size).sum =
      ((rows.filter fun row => p row && !q row).map size).sum := by
  induction rows with
  | nil => rfl
  | cons row rows ih =>
    simp only [List.filter_cons]
    cases hq : q row with
    | true =>
      simp only [h row hq, if_true, Bool.not_true, Bool.and_false, List.map_cons, List.sum_cons]
      simpa using ih
    | false =>
      cases p row
      · simpa using ih
      · simp only [Bool.not_false, Bool.and_true, if_true, List.map_cons, List.sum_cons]
        simp only [Bool.false_eq_true, if_false]
        omega

theorem availableSizeOf_sub {p q : ℕ → Bool} (h : ∀ id, q id = true → p id = true) :
    availableSizeOf s p - availableSizeOf s q = availableSizeOf s fun id => p id && !q id := by
  unfold availableSizeOf
  rw [sum_filter_sub]
  · congr 3
    funext artifact
    cases decide (artifact.state = .available) <;> simp
  · intro artifact hartifact
    rw [Bool.and_eq_true] at hartifact ⊢
    exact ⟨hartifact.1, h _ hartifact.2⟩

/-- The artifacts of the builds that are not eligible. -/
theorem protectedSize_eq : projectSize s projectId (fun _ => true) -
    projectSize s projectId ((Eligible.new policy).allows s) =
      protectedSize s projectId policy := by
  unfold protectedSize projectSize
  rw [availableSizeOf_sub]
  · congr 1
    funext id
    cases s.db.builds.find id <;> simp
    grind
  · intro id hid
    rw [Option.any_eq_true] at hid ⊢
    grind

/-! ## Picks -/

variable (s projectId policy) in
/-- The picks are eligible builds, each picked once. -/
structure Picked (picks : List Pick) : Prop where
  distinct : (picks.map Pick.buildId).Nodup
  eligible : ∀ pick ∈ picks, ∃ row ∈ eligibleBuilds s projectId policy, row.id = pick.buildId

variable {picks : List Pick} {limit : RetentionLimit} {ids : List ℕ} {id : ℕ}

theorem picked_iff : picked picks id = true ↔ id ∈ picks.map Pick.buildId := by
  unfold picked
  rw [List.any_eq_true, List.mem_map]
  simp only [decide_eq_true_eq]

theorem picked_append (before after : List Pick) :
    picked (before ++ after) id = (picked before id || picked after id) := List.any_append

@[simp] theorem picked_single : picked [⟨limit, id⟩] = (· = id) := by
  funext other
  rw [picked, List.any_cons, List.any_nil, Bool.or_false]
  exact decide_eq_decide.mpr eq_comm

theorem Picked.nil : Picked s projectId policy [] := ⟨List.nodup_nil, by simp⟩

theorem Picked.add (h : Picked s projectId policy picks) (hid : ¬picked picks id = true)
    (heligible : ∃ row ∈ eligibleBuilds s projectId policy, row.id = id) :
    Picked s projectId policy (picks ++ [⟨limit, id⟩]) := by
  rw [picked_iff] at hid
  constructor
  · rw [List.map_append]
    exact h.distinct.append (List.nodup_singleton _) (by simpa using hid)
  · intro pick hpick
    rcases List.mem_append.mp hpick with hpick | hpick
    · exact h.eligible pick hpick
    · obtain rfl := List.mem_singleton.mp hpick
      exact heligible

theorem Picked.extend (h : Picked s projectId policy picks) (hids : ids.Nodup)
    (heligible : ∀ id ∈ ids, ∃ row ∈ eligibleBuilds s projectId policy, row.id = id) :
    Picked s projectId policy (extend limit picks ids) := by
  have hmap : (OoreBuild.extend limit picks ids).map Pick.buildId =
      picks.map Pick.buildId ++ ids.filter fun id => !picked picks id := by
    simp [OoreBuild.extend, Function.comp_def]
  constructor
  · rw [hmap]
    refine h.distinct.append (hids.filter _) fun id hold hnew => ?_
    have hnot := (List.mem_filter.mp hnew).2
    rw [picked_iff.mpr hold] at hnot
    cases hnot
  · intro pick hpick
    rcases List.mem_append.mp hpick with hpick | hpick
    · exact h.eligible pick hpick
    · obtain ⟨id, hid, rfl⟩ := List.mem_map.mp hpick
      exact heligible id (List.mem_filter.mp hid).1

/-- An eligible build is a row of the project. -/
theorem eligible_find {row : Build} (h : row ∈ eligibleBuilds s projectId policy) :
    s.db.builds.find row.id = some row ∧ row.projectId = projectId ∧
      (Eligible.new policy).allows s row = true := by
  obtain ⟨hrow, hp⟩ := List.mem_filter.mp h
  rw [Bool.and_eq_true, decide_eq_true_eq] at hp
  exact ⟨Table.find_of_mem hrow, hp⟩

/-- The artifacts that are left, by their build. -/
theorem leftSize_eq (picks : List Pick) : leftSize s projectId picks =
    availableSizeOf s fun id =>
      ((s.db.builds.find id).any fun row => row.projectId = projectId) && !picked picks id := by
  unfold leftSize projectSize
  congr 1
  funext id
  cases hfind : s.db.builds.find id with
  | none => rfl
  | some row => simp [Table.key_of_find hfind]

theorem leftSize_start (h : Picked s projectId policy picks) :
    projectSize s projectId (fun _ => true) - availableSizeOf s (picked picks) =
      leftSize s projectId picks := by
  unfold projectSize
  rw [availableSizeOf_sub, leftSize_eq]
  · simp only [Bool.and_true]
  · intro id hid
    obtain ⟨pick, hpick, rfl⟩ := List.mem_map.mp (picked_iff.mp hid)
    obtain ⟨row, hrow, hid⟩ := h.eligible pick hpick
    obtain ⟨hfind, hproject, -⟩ := eligible_find hrow
    rw [← hid, hfind]
    simp [hproject]

theorem leftSize_add (hid : ¬picked picks id = true)
    (heligible : ∃ row ∈ eligibleBuilds s projectId policy, row.id = id) :
    leftSize s projectId picks - availableSizeOf s (· = id) =
      leftSize s projectId (picks ++ [⟨limit, id⟩]) := by
  rw [leftSize_eq, leftSize_eq, availableSizeOf_sub]
  · congr 1
    funext other
    rw [picked_append, picked_single, Bool.not_or, Bool.and_assoc]
  · rintro other hother
    obtain rfl := of_decide_eq_true hother
    obtain ⟨row, hrow, rfl⟩ := heligible
    obtain ⟨hfind, hproject, -⟩ := eligible_find hrow
    simp [hfind, hproject, hid]

/-- The loop picks a build only while too much is left. -/
theorem pickUntilFits_spec (maxSize : ℤ) {remaining : ℤ} {rows : List (ℕ × ℤ)}
    (h : Picked s projectId policy picks) (hremaining : remaining = leftSize s projectId picks)
    (hrows : ∀ row ∈ rows, row.2 = availableSizeOf s (· = row.1) ∧
      ∃ build ∈ eligibleBuilds s projectId policy, build.id = row.1) :
    ∃ added, pickUntilFits maxSize remaining picks rows = picks ++ added ∧
      added.length ≤ rows.length ∧ Picked s projectId policy (picks ++ added) ∧
      (∀ pick ∈ added, pick.limit = .size) ∧
      ∀ before pick after, added = before ++ pick :: after →
        maxSize < leftSize s projectId (picks ++ before) := by
  induction rows generalizing remaining picks with
  | nil => exact ⟨[], by simp [pickUntilFits, h]⟩
  | cons row rows ih =>
    obtain ⟨id, buildSize⟩ := row
    obtain ⟨hsize, heligible⟩ := hrows _ List.mem_cons_self
    have hrest := fun row hrow => hrows row (List.mem_cons_of_mem _ hrow)
    unfold pickUntilFits
    split_ifs with hfits hpicked
    · exact ⟨[], by simp [h]⟩
    · obtain ⟨added, heq, hlength, hadded⟩ := ih h hremaining hrest
      exact ⟨added, heq, hlength.trans (Nat.le_succ _), hadded⟩
    · have hleft : remaining - buildSize = leftSize s projectId (picks ++ [⟨.size, id⟩]) := by
        rw [← leftSize_add hpicked heligible, hremaining]
        exact congrArg _ hsize
      obtain ⟨added, heq, hlength, hpicks, hlimits, hbefore⟩ :=
        ih (h.add hpicked heligible) hleft hrest
      refine ⟨⟨.size, id⟩ :: added, ?_, Nat.succ_le_succ hlength, ?_, ?_, ?_⟩
      · rw [heq, List.append_assoc]
        rfl
      · rw [List.append_assoc] at hpicks
        exact hpicks
      · simpa using hlimits
      · intro before pick after hsplit
        cases before with
        | nil =>
          rw [List.append_nil]
          omega
        | cons first before =>
          obtain ⟨rfl, htail⟩ := List.cons.inj hsplit
          have hleft := hbefore before pick after htail
          rwa [List.append_assoc] at hleft

/-! ## The limits -/

theorem extend_length_le : (extend limit picks ids).length ≤ picks.length + ids.length := by
  unfold extend
  rw [List.length_append, List.length_map]
  exact Nat.add_le_add_left (List.length_filter_le ..) _

theorem mem_extend {pick : Pick} (h : pick ∈ extend limit picks ids) :
    pick ∈ picks ∨ pick.limit = limit ∧ pick.buildId ∈ ids := by
  refine (List.mem_append.mp h).imp_right fun hnew => ?_
  obtain ⟨id, hid, rfl⟩ := List.mem_map.mp hnew
  exact ⟨rfl, (List.mem_filter.mp hid).1⟩

variable (s projectId policy) in
/-- The limit never picks one of the builds that finished last. -/
def KeepsRecent (picks : List Pick) : Prop :=
  ∀ maxCount, policy.maxBuildsPerProject = some maxCount →
    ∃ kept, MostRecent (eligibleBuilds s projectId policy) maxCount kept ∧
      ∀ pick ∈ picks, pick.limit = .count → pick.buildId ∉ kept

variable (s projectId policy) in
/-- A pick for the size comes with too much left by the picks before it. -/
def PicksNeeded (picks : List Pick) : Prop :=
  ∀ before pick after, picks = before ++ pick :: after → pick.limit = .size →
    ∃ maxSize, policy.maxArtifactSizeBytes = some maxSize ∧
      maxSize < leftSize s projectId before

variable (s projectId policy) in
structure RespectsLimits (picks : List Pick) : Prop where
  batch : picks.length ≤ retentionBatchSize
  distinct : (picks.map Pick.buildId).Nodup
  builds : ∀ pick ∈ picks, ∃ row, s.db.builds.find pick.buildId = some row ∧
    row.projectId = projectId ∧ row.status.isTerminal = true ∧
    row.expiredFrom.getD row.status ∉ policy.keepStatuses ∧ s.releasing row.id = false
  recent : KeepsRecent s projectId policy picks
  size : ∀ maxSize, policy.maxArtifactSizeBytes = some maxSize →
    maxSize < protectedSize s projectId policy → ∀ pick ∈ picks, pick.limit ≠ .size
  needed : PicksNeeded s projectId policy picks

theorem isTerminal_of_mem_statuses {status : BuildStatus}
    (h : status ∈ (Eligible.new policy).statuses) : status.isTerminal = true := by
  have hmem : status ∈ terminalBuildStatuses ++ [BuildStatus.expired] := by
    unfold Eligible.new at h
    dsimp only at h
    split at h
    · exact List.mem_append.mpr ((List.mem_append.mp h).imp_left fun h => (List.mem_filter.mp h).1)
    · exact List.mem_append_left _ (List.mem_filter.mp h).1
  have hall : (terminalBuildStatuses ++ [BuildStatus.expired]).all BuildStatus.isTerminal =
      true := by
    decide
  exact List.all_eq_true.mp hall status hmem

theorem notMem_keepStatuses {status : BuildStatus}
    (h : status ∈ (Eligible.new policy).outcomes) : status ∉ policy.keepStatuses := by
  have hkept := (List.mem_filter.mp h).2
  simpa using hkept

/-- An eligible build is finished, its outcome is not kept, and no release of it is under way. -/
theorem eligible_build (h : ∃ row ∈ eligibleBuilds s projectId policy, row.id = id) :
    ∃ row, s.db.builds.find id = some row ∧ row.projectId = projectId ∧
      row.status.isTerminal = true ∧ row.expiredFrom.getD row.status ∉ policy.keepStatuses ∧
      s.releasing row.id = false := by
  obtain ⟨row, hrow, rfl⟩ := h
  obtain ⟨hfind, hproject, hallows⟩ := eligible_find hrow
  have hreleasing := not_releasing_of_allows hallows
  unfold Eligible.allows at hallows
  rw [Bool.and_eq_true, Bool.and_eq_true, List.contains_iff_mem, List.contains_iff_mem] at hallows
  exact ⟨row, hfind, hproject, isTerminal_of_mem_statuses hallows.1.1,
    notMem_keepStatuses hallows.1.2, hreleasing⟩

theorem withRoom_cases {α : Type} {limit : Option α} {add : α → Option (List Pick)}
    {added : List Pick} (h : withRoom limit picks add = some added) :
    added = picks ∨ ∃ value, limit = some value ∧ picks.length < retentionBatchSize ∧
      add value = some added := by
  unfold withRoom at h
  split at h
  · rename_i value
    split_ifs at h with hroom
    · exact .inr ⟨value, rfl, hroom, h⟩
    · exact .inl (Option.some.inj h).symm
  · exact .inl (Option.some.inj h).symm

/-- The age and the number of builds add what a query returned, up to the limit it was given. -/
theorem extend_spec {le : Option ℤ → Option ℤ → Bool} {rows : List Build} {ordered : List ℕ}
    {room : ℕ} (h : Picked s projectId policy picks)
    (hroom : picks.length + room ≤ retentionBatchSize)
    (hrows : rows.Sublist (eligibleBuilds s projectId policy))
    (hordered : orderedBy le rows ordered = true) (hids : ids.Sublist ordered) :
    Picked s projectId policy (extend limit picks (ids.take room)) ∧
      (extend limit picks (ids.take room)).length ≤ retentionBatchSize := by
  have hnodup := nodup_of_orderedBy (nodup_eligibleBuilds.sublist (hrows.map Build.id)) hordered
  have htake : (ids.take room).Sublist ordered := (List.take_sublist _ _).trans hids
  constructor
  · refine h.extend (hnodup.sublist htake) fun id hid => ?_
    obtain ⟨row, hrow, hid⟩ := mem_of_orderedBy hordered (htake.subset hid)
    exact ⟨row, hrows.subset hrow, hid⟩
  · have hlength : (extend limit picks (ids.take room)).length ≤ _ := extend_length_le
    rw [List.length_take] at hlength
    omega

theorem expired_spec {cutoff : ℤ} {rows : Option (List ℕ)}
    (h : (loadExpiredBuildIds s projectId policy cutoff retentionBatchSize rows).map
      (extend .age []) = some picks) :
    Picked s projectId policy picks ∧ picks.length ≤ retentionBatchSize ∧
      ∀ pick ∈ picks, pick.limit = .age := by
  obtain ⟨ids, hids, rfl⟩ := Option.map_eq_some_iff.mp h
  obtain ⟨ordered, hfetch, rfl⟩ := Option.map_eq_some_iff.mp hids
  obtain ⟨hpicked, hlength⟩ := extend_spec .nil (Nat.zero_add _).le List.filter_sublist
    (orderedBy_of_fetchAll hfetch) (List.Sublist.refl ordered)
  refine ⟨hpicked, hlength, fun pick hpick => ?_⟩
  rcases mem_extend hpick with hold | ⟨hlimit, -⟩
  · cases hold
  · exact hlimit

theorem excess_spec {maxCount : ℕ} {rows : Option (List ℕ)} {counted : List Pick}
    (hpicked : Picked s projectId policy picks) (hroom : picks.length < retentionBatchSize)
    (h : (loadExcessBuildIds s projectId policy maxCount (retentionBatchSize - picks.length)
      rows).map (extend .count picks) = some counted) :
    Picked s projectId policy counted ∧ counted.length ≤ retentionBatchSize ∧
      ∃ kept, MostRecent (eligibleBuilds s projectId policy) maxCount kept ∧
        ∀ pick ∈ counted, pick ∈ picks ∨ pick.limit = .count ∧ pick.buildId ∉ kept := by
  obtain ⟨ids, hids, rfl⟩ := Option.map_eq_some_iff.mp h
  obtain ⟨ordered, hfetch, rfl⟩ := Option.map_eq_some_iff.mp hids
  have hordered := orderedBy_of_fetchAll hfetch
  obtain ⟨hcounted, hlength⟩ := extend_spec hpicked (Nat.add_sub_of_le hroom.le).le
    (List.Sublist.refl _) hordered (List.drop_sublist maxCount ordered)
  refine ⟨hcounted, hlength, ordered.take maxCount,
    mostRecent_take nodup_eligibleBuilds hordered maxCount, fun pick hpick => ?_⟩
  refine (mem_extend hpick).imp_right fun ⟨hlimit, hid⟩ => ⟨hlimit, fun hkept => ?_⟩
  have hnodup := nodup_of_orderedBy nodup_eligibleBuilds hordered
  rw [← List.take_append_drop maxCount ordered] at hnodup
  exact (List.disjoint_of_nodup_append hnodup) hkept (List.mem_of_mem_take hid)

theorem size_spec {maxSize : ℤ} {rows : RetentionRows} {sized : List Pick}
    (hpicked : Picked s projectId policy picks) (hroom : picks.length < retentionBatchSize)
    (h : addSizeLimitCandidates s projectId policy maxSize rows picks = some sized) :
    ∃ added, sized = picks ++ added ∧ Picked s projectId policy sized ∧
      sized.length ≤ retentionBatchSize ∧ (∀ pick ∈ added, pick.limit = .size) ∧
      (maxSize < protectedSize s projectId policy → added = []) ∧
      ∀ before pick after, added = before ++ pick :: after →
        maxSize < leftSize s projectId (picks ++ before) := by
  have hnone : ∃ added, picks = picks ++ added ∧ Picked s projectId policy picks ∧
      picks.length ≤ retentionBatchSize ∧ (∀ pick ∈ added, pick.limit = .size) ∧
      (maxSize < protectedSize s projectId policy → added = []) ∧
      ∀ before pick after, added = before ++ pick :: after →
        maxSize < leftSize s projectId (picks ++ before) :=
    ⟨[], by simp, hpicked, hroom.le, by simp, fun _ => rfl, by simp⟩
  unfold addSizeLimitCandidates at h
  dsimp only at h
  split_ifs at h with hfail htotal hprotected hfits
  · exact Option.some.inj h ▸ hnone
  · exact Option.some.inj h ▸ hnone
  · exact Option.some.inj h ▸ hnone
  · obtain ⟨oldest, holdest, rfl⟩ := Option.map_eq_some_iff.mp h
    obtain ⟨ordered, hfetch, rfl⟩ := Option.map_eq_some_iff.mp holdest
    have hordered := orderedBy_of_fetchAll hfetch
    have hrows : ∀ row ∈ (ordered.take (retentionBatchSize - picks.length)).map fun id =>
        (id, availableSizeOf s (· = id)), row.2 = availableSizeOf s (· = row.1) ∧
          ∃ build ∈ eligibleBuilds s projectId policy, build.id = row.1 := by
      intro row hrow
      obtain ⟨id, hid, rfl⟩ := List.mem_map.mp hrow
      obtain ⟨build, hbuild, hid⟩ := mem_of_orderedBy hordered (List.mem_of_mem_take hid)
      exact ⟨rfl, build, (List.mem_filter.mp hbuild).1, hid⟩
    obtain ⟨added, heq, hlength, hsized, hlimits, hneeded⟩ :=
      pickUntilFits_spec maxSize hpicked (leftSize_start hpicked) hrows
    refine ⟨added, heq, heq ▸ hsized, ?_, hlimits, fun hover => ?_, hneeded⟩
    · rw [heq, List.length_append]
      rw [List.length_map, List.length_take] at hlength
      omega
    · rw [← protectedSize_eq] at hover
      exact absurd hover hprotected

/-- Picks for the size come after all others, so that only the last ones have to be needed. -/
theorem picksNeeded_append {added : List Pick} (hpicks : ∀ pick ∈ picks, pick.limit ≠ .size)
    (h : ∀ before pick after, added = before ++ pick :: after →
      ∃ maxSize, policy.maxArtifactSizeBytes = some maxSize ∧
        maxSize < leftSize s projectId (picks ++ before)) :
    PicksNeeded s projectId policy (picks ++ added) := by
  intro before pick after hsplit hlimit
  rcases List.append_eq_append_iff.mp hsplit with ⟨between, rfl, hadded⟩ | ⟨between, rfl, hafter⟩
  · exact h between pick after hadded
  · cases between with
    | nil =>
      have := h [] pick after hafter.symm
      simpa using this
    | cons first between =>
      obtain ⟨rfl, -⟩ := List.cons.inj hafter
      exact absurd hlimit (hpicks pick (by simp))

theorem keepsRecent_of_not_count (h : ∀ pick ∈ picks, pick.limit ≠ .count) :
    KeepsRecent s projectId policy picks := by
  intro maxCount _
  obtain ⟨kept, hkept⟩ :=
    exists_mostRecent (eligibleBuilds s projectId policy) nodup_eligibleBuilds maxCount
  exact ⟨kept, hkept, fun pick hpick hlimit => absurd hlimit (h pick hpick)⟩

/-- After the first two limits: nothing is picked for the size yet. -/
theorem counted_spec {now : ℤ} {rows : RetentionRows} {aged counted : List Pick}
    (haged : withRoom policy.maxAgeDays [] (fun maxAgeDays =>
      (loadExpiredBuildIds s projectId policy (now - maxAgeDays * 86400) retentionBatchSize
        rows.expired).map (extend .age [])) = some aged)
    (hcounted : withRoom policy.maxBuildsPerProject aged (fun maxCount =>
      (loadExcessBuildIds s projectId policy maxCount (retentionBatchSize - aged.length)
        rows.excess).map (extend .count aged)) = some counted) :
    Picked s projectId policy counted ∧ counted.length ≤ retentionBatchSize ∧
      KeepsRecent s projectId policy counted ∧ ∀ pick ∈ counted, pick.limit ≠ .size := by
  obtain ⟨hpicked, hlength, hage⟩ : Picked s projectId policy aged ∧
      aged.length ≤ retentionBatchSize ∧ ∀ pick ∈ aged, pick.limit = .age := by
    rcases withRoom_cases haged with rfl | ⟨maxAgeDays, -, -, hadd⟩
    · exact ⟨.nil, Nat.zero_le _, by simp⟩
    · exact expired_spec hadd
  rcases withRoom_cases hcounted with rfl | ⟨maxCount, hmax, hroom, hadd⟩
  · refine ⟨hpicked, hlength, keepsRecent_of_not_count fun pick hpick => ?_, fun pick hpick => ?_⟩
    all_goals simp [hage pick hpick]
  · obtain ⟨hpicked, hlength, kept, hkept, hnew⟩ := excess_spec hpicked hroom hadd
    refine ⟨hpicked, hlength, fun maxCount' hmax' => ⟨kept, ?_, fun pick hpick hlimit => ?_⟩,
      fun pick hpick => ?_⟩
    · obtain rfl := Option.some.inj (hmax.symm.trans hmax')
      exact hkept
    · rcases hnew pick hpick with hold | ⟨-, hout⟩
      · simp [hage pick hold] at hlimit
      · exact hout
    · rcases hnew pick hpick with hold | ⟨hlimit, -⟩
      · simp [hage pick hold]
      · simp [hlimit]

/-- Whatever the tables hold and in whatever order the database returns its rows. -/
theorem picks_within_limits {now : ℤ} {rows : RetentionRows}
    (h : collectRetentionCandidates s projectId policy now rows = some picks) :
    RespectsLimits s projectId policy picks := by
  unfold collectRetentionCandidates at h
  split_ifs at h with hempty
  · obtain rfl := Option.some.inj h
    exact ⟨Nat.zero_le _, List.nodup_nil, by simp, keepsRecent_of_not_count (by simp), by simp,
      by simp [PicksNeeded]⟩
  · obtain ⟨aged, haged, h⟩ := Option.bind_eq_some_iff.mp h
    obtain ⟨counted, hcounted, h⟩ := Option.bind_eq_some_iff.mp h
    obtain ⟨hpicked, hlength, hrecent, hsize⟩ := counted_spec haged hcounted
    rcases withRoom_cases h with rfl | ⟨maxSize, hmax, hroom, hadd⟩
    · refine ⟨hlength, hpicked.distinct, fun pick hpick => ?_, hrecent, fun _ _ _ => hsize,
        fun before pick after hsplit hlimit => absurd hlimit (hsize pick ?_)⟩
      · exact eligible_build (hpicked.eligible pick hpick)
      · simp [hsplit]
    · obtain ⟨added, rfl, hpicked, hlength, hlimits, hover, hneeded⟩ :=
        size_spec hpicked hroom hadd
      refine ⟨hlength, hpicked.distinct, fun pick hpick => ?_, fun maxCount hcount => ?_,
        fun maxSize' hmax' hprotected pick hpick => ?_, picksNeeded_append hsize ?_⟩
      · exact eligible_build (hpicked.eligible pick hpick)
      · obtain ⟨kept, hkept, hout⟩ := hrecent maxCount hcount
        refine ⟨kept, hkept, fun pick hpick hlimit => ?_⟩
        rcases List.mem_append.mp hpick with hold | hnew
        · exact hout pick hold hlimit
        · simp [hlimits pick hnew] at hlimit
      · obtain rfl := Option.some.inj (hmax.symm.trans hmax')
        rw [hover hprotected, List.append_nil] at hpick
        exact hsize pick hpick
      · exact fun before pick after hsplit => ⟨maxSize, hmax, hneeded before pick after hsplit⟩

/-- A finished build of the project. -/
def finishedBuild (id : ℕ) (finishedAt : ℤ) : Build :=
  { newBuild oneProject plainBinds with id, status := .succeeded, finishedAt := some finishedAt }

/-- Four builds, each with an artifact of fifty bytes. -/
def fourBuilds : RetentionStore where
  db := { oneProject with
    builds := ⟨[finishedBuild 1 0, finishedBuild 2 700000, finishedBuild 3 800000,
      finishedBuild 4 860000], by decide +kernel⟩ }
  artifacts := ⟨[1, 2, 3, 4].map fun id => ⟨id, id, "app.apk", some 50, .available, none⟩,
    by decide +kernel⟩
  releases := ⟨[], List.nodup_nil⟩
  files := []
  handedOut := []
  losses := []

/-- A cleanup that keeps two builds and sixty bytes. -/
def tightPolicy : RetentionPolicy where
  enabled := true
  maxAgeDays := some 9
  maxBuildsPerProject := some 2
  maxArtifactSizeBytes := some 60
  cleanupTarget := .artifactsOnly
  keepStatuses := [.failed]
  dryRun := false

/-- Each limit picks one build. -/
theorem picks_fourBuilds :
    collectRetentionCandidates fourBuilds "p" tightPolicy 864000
        ⟨some [1], some [4, 3, 2, 1], some [1, 2, 3, 4], false⟩ =
      some [⟨.age, 1⟩, ⟨.count, 2⟩, ⟨.size, 3⟩] ∧
    RespectsLimits fourBuilds "p" tightPolicy [⟨.age, 1⟩, ⟨.count, 2⟩, ⟨.size, 3⟩] := by
  have hpicks : collectRetentionCandidates fourBuilds "p" tightPolicy 864000
      ⟨some [1], some [4, 3, 2, 1], some [1, 2, 3, 4], false⟩ =
        some [⟨.age, 1⟩, ⟨.count, 2⟩, ⟨.size, 3⟩] := by
    decide +kernel
  exact ⟨hpicks, picks_within_limits hpicks⟩

/-! ## The queries of the system -/

/-- The queries of a cleanup, one after the other over the same tables. -/
def collectAll (s : RetentionStore) : List RetentionAnswer → RetentionCall → Option (List ℕ)
  | _, .loadArtifacts c => some c.candidates
  | [], _ => none
  | answer :: answers, call => (collect s answer call).join.bind (collectAll s answers)

/-- The state of a cleanup that made the picks. -/
def Collecting.Made (c : Collecting) (projectId : Text) (policy : RetentionPolicy) (now : ℤ)
    (picks : List Pick) : Prop :=
  c = ⟨projectId, policy, now, picks.map Pick.buildId⟩

variable {c : Collecting} {now : ℤ} {answers : List RetentionAnswer}

theorem picked_eq_contains : picked picks = (picks.map Pick.buildId).contains := by
  funext id
  rw [Bool.eq_iff_iff, picked_iff, List.contains_iff_mem]

theorem map_extend (limit : RetentionLimit) (picks : List Pick) (ids : List ℕ) :
    (extend limit picks ids).map Pick.buildId =
      picks.map Pick.buildId ++ ids.filter fun id => !(picks.map Pick.buildId).contains id := by
  unfold extend
  rw [picked_eq_contains, List.map_append, List.map_map]
  exact congrArg _ (List.map_id _)

theorem map_pickUntilFits (maxSize remaining : ℤ) (picks : List Pick) (ids : List ℕ) :
    (pickUntilFits maxSize remaining picks (ids.map fun id =>
      (id, availableSizeOf s (· = id)))).map Pick.buildId =
      takeUntilFits s maxSize remaining (picks.map Pick.buildId) ids := by
  induction ids generalizing remaining picks with
  | nil => rfl
  | cons id ids ih =>
    rw [List.map_cons, pickUntilFits, takeUntilFits, picked_eq_contains]
    split_ifs
    · rfl
    · exact ih remaining picks
    · rw [ih, List.map_append]
      rfl

theorem collectAll_loadArtifacts : collectAll s answers (.loadArtifacts c) = some c.candidates := by
  cases answers <;> rfl

/-- The first query of a call that goes on, and the rest. -/
theorem collectAll_query {call : RetentionCall} (h : collectAll s answers call = some ids)
    (hcall : ∀ c, call ≠ .loadArtifacts c) : ∃ answer rest next,
      collect s answer call = some (some next) ∧ collectAll s rest next = some ids := by
  cases answers with
  | nil => cases call <;> first | exact absurd rfl (hcall _) | cases h
  | cons answer answers =>
    have hstep : (collect s answer call).join.bind (collectAll s answers) = some ids := by
      cases call <;> first | exact h | exact absurd rfl (hcall _)
    obtain ⟨next, hnext, hrest⟩ := Option.bind_eq_some_iff.mp hstep
    exact ⟨answer, answers, next, Option.join_eq_some_iff.mp hnext, hrest⟩

theorem hasRoom_of_made (h : c.Made projectId policy now picks) :
    c.hasRoom = decide (picks.length < retentionBatchSize) := by
  obtain rfl := h
  simp [Collecting.hasRoom]

/-- The query for the oldest builds. -/
theorem oldest_collect {maxSize remaining : ℤ} (hmade : c.Made projectId policy now picks)
    (hmax : policy.maxArtifactSizeBytes = some maxSize)
    (h : collectAll s answers (.oldestSizes c remaining) = some ids) :
    ∃ oldest sizes, loadOldestBuildSizes s projectId policy (retentionBatchSize - picks.length)
        oldest = some sizes ∧
      (pickUntilFits maxSize remaining picks sizes).map Pick.buildId = ids := by
  obtain rfl := hmade
  obtain ⟨answer, rest, next, hquery, hrest⟩ := collectAll_query h nofun
  simp only [collect] at hquery
  split_ifs at hquery with hfails hordered
  · cases hquery
  obtain rfl := Option.some.inj (Option.some.inj hquery)
  rw [collectAll_loadArtifacts] at hrest
  have hload : loadOldestBuildSizes s projectId policy (retentionBatchSize - picks.length)
      (some answer.ordered) = some ((answer.ordered.take (retentionBatchSize - picks.length)).map
        fun id => (id, availableSizeOf s (· = id))) := by
    unfold loadOldestBuildSizes fetchAll
    rw [Option.filter_some, if_pos hordered, Option.map_some]
  refine ⟨some answer.ordered, _, hload, ?_⟩
  rw [map_pickUntilFits, ← Option.some.inj hrest, hmax, List.length_map]
  rfl

theorem sizes_collect {maxSize : ℤ} (hmade : c.Made projectId policy now picks)
    (hmax : policy.maxArtifactSizeBytes = some maxSize)
    (h : collectAll s answers (.totalSize c) = some ids) :
    ∃ oldest, ∀ expired excess, ∃ sized,
      addSizeLimitCandidates s projectId policy maxSize ⟨expired, excess, oldest, false⟩ picks =
        some sized ∧ sized.map Pick.buildId = ids := by
  have hdone {answers : List RetentionAnswer}
      (h : collectAll s answers (.loadArtifacts c) = some ids) : picks.map Pick.buildId = ids := by
    rw [collectAll_loadArtifacts, hmade] at h
    exact Option.some.inj h
  have hlimit : policy.maxArtifactSizeBytes.getD 0 = maxSize := by
    rw [hmax]
    rfl
  have hproject : c.projectId = projectId := by rw [hmade]
  have hpolicy : c.policy = policy := by rw [hmade]
  have hcandidates : c.candidates = picks.map Pick.buildId := by rw [hmade]
  obtain ⟨_, rest, next, htotal, h⟩ := collectAll_query h (by simp)
  simp only [collect, hpolicy, hlimit, hproject] at htotal
  split_ifs at htotal with _ hfits
  · cases htotal
  · obtain rfl := Option.some.inj (Option.some.inj htotal)
    refine ⟨none, fun _ _ => ⟨picks, ?_, hdone h⟩⟩
    rw [addSizeLimitCandidates, if_neg Bool.false_ne_true, if_pos hfits]
  obtain rfl := Option.some.inj (Option.some.inj htotal)
  obtain ⟨_, rest, next, heligible, h⟩ := collectAll_query h (by simp)
  simp only [collect, hpolicy, hlimit, hproject] at heligible
  split_ifs at heligible with _ hprotected
  · cases heligible
  · obtain rfl := Option.some.inj (Option.some.inj heligible)
    refine ⟨none, fun _ _ => ⟨picks, ?_, hdone h⟩⟩
    rw [addSizeLimitCandidates, if_neg Bool.false_ne_true, if_neg hfits, if_pos hprotected]
  obtain rfl := Option.some.inj (Option.some.inj heligible)
  obtain ⟨_, rest, next, hpicked, h⟩ := collectAll_query h (by simp)
  simp only [collect, hpolicy, hlimit, hcandidates, ← picked_eq_contains] at hpicked
  split_ifs at hpicked with _ hremaining
  · cases hpicked
  · obtain rfl := Option.some.inj (Option.some.inj hpicked)
    refine ⟨none, fun _ _ => ⟨picks, ?_, hdone h⟩⟩
    rw [addSizeLimitCandidates, if_neg Bool.false_ne_true, if_neg hfits, if_neg hprotected,
      if_pos hremaining]
  obtain rfl := Option.some.inj (Option.some.inj hpicked)
  obtain ⟨oldest, sizes, hload, hids⟩ := oldest_collect hmade hmax h
  refine ⟨oldest, fun _ _ => ⟨_, ?_, hids⟩⟩
  rw [addSizeLimitCandidates, if_neg Bool.false_ne_true, if_neg hfits, if_neg hprotected,
    if_neg hremaining, hload, Option.map_some]

/-- A limit of the system, before the queries that follow it. -/
theorem withRoom_none {α : Type} {limit : Option α} {add : α → Option (List Pick)}
    (h : ¬(limit.isSome && decide (picks.length < retentionBatchSize)) = true) :
    withRoom limit picks add = some picks := by
  unfold withRoom
  cases limit with
  | none => rfl
  | some value => exact if_neg (by simpa using h)

theorem afterExcess_collect (hmade : c.Made projectId policy now picks)
    (h : collectAll s answers c.afterExcess = some ids) :
    ∃ oldest, ∀ expired excess, ∃ sized,
      withRoom policy.maxArtifactSizeBytes picks (fun maxSize =>
        addSizeLimitCandidates s projectId policy maxSize ⟨expired, excess, oldest, false⟩ picks) =
          some sized ∧ sized.map Pick.buildId = ids := by
  have hpolicy : c.policy = policy := by rw [hmade]
  unfold Collecting.afterExcess at h
  rw [hasRoom_of_made hmade, hpolicy] at h
  split_ifs at h with hroom
  · rw [Bool.and_eq_true, decide_eq_true_eq, Option.isSome_iff_exists] at hroom
    obtain ⟨⟨maxSize, hmax⟩, hroom⟩ := hroom
    obtain ⟨oldest, hsizes⟩ := sizes_collect hmade hmax h
    refine ⟨oldest, fun expired excess => ?_⟩
    rw [hmax, withRoom, if_pos hroom]
    exact hsizes expired excess
  · rw [collectAll_loadArtifacts, hmade] at h
    exact ⟨none, fun _ _ => ⟨picks, withRoom_none hroom, Option.some.inj h⟩⟩

theorem afterExpired_collect (hmade : c.Made projectId policy now picks)
    (h : collectAll s answers c.afterExpired = some ids) :
    ∃ excess oldest, ∀ expired, ∃ counted sized,
      withRoom policy.maxBuildsPerProject picks (fun maxCount =>
        (loadExcessBuildIds s projectId policy maxCount (retentionBatchSize - picks.length)
          excess).map (extend .count picks)) = some counted ∧
      withRoom policy.maxArtifactSizeBytes counted (fun maxSize =>
        addSizeLimitCandidates s projectId policy maxSize ⟨expired, excess, oldest, false⟩
          counted) = some sized ∧ sized.map Pick.buildId = ids := by
  have hpolicy : c.policy = policy := by rw [hmade]
  unfold Collecting.afterExpired at h
  rw [hasRoom_of_made hmade, hpolicy] at h
  split_ifs at h with hroom
  · rw [Bool.and_eq_true, decide_eq_true_eq, Option.isSome_iff_exists] at hroom
    obtain ⟨⟨maxCount, hmax⟩, hroom⟩ := hroom
    obtain ⟨answer, rest, next, hquery, hrest⟩ := collectAll_query h nofun
    obtain rfl := hmade
    simp only [collect] at hquery
    split_ifs at hquery with _ hordered
    · cases hquery
    obtain rfl := Option.some.inj (Option.some.inj hquery)
    have hload : (loadExcessBuildIds s projectId policy maxCount
        (retentionBatchSize - picks.length) (some answer.ordered)).map (extend .count picks) =
          some (extend .count picks ((answer.ordered.drop maxCount).take
            (retentionBatchSize - picks.length))) := by
      rw [loadExcessBuildIds, fetchAll, Option.filter_some, if_pos hordered]
      rfl
    have hcounted : Collecting.Made (Collecting.add ⟨projectId, policy, now, picks.map Pick.buildId⟩
        ((answer.ordered.drop (policy.maxBuildsPerProject.getD 0)).take
          (retentionBatchSize - (picks.map Pick.buildId).length))) projectId policy now
        (extend .count picks ((answer.ordered.drop maxCount).take
          (retentionBatchSize - picks.length))) := by
      unfold Collecting.Made Collecting.add
      rw [map_extend, hmax, List.length_map]
      rfl
    obtain ⟨oldest, hsized⟩ := afterExcess_collect hcounted hrest
    refine ⟨some answer.ordered, oldest, fun expired => ?_⟩
    obtain ⟨sized, hsized⟩ := hsized expired (some answer.ordered)
    exact ⟨_, sized, by rw [hmax, withRoom, if_pos hroom, hload], hsized⟩
  · obtain ⟨oldest, hsized⟩ := afterExcess_collect hmade h
    refine ⟨none, oldest, fun expired => ?_⟩
    obtain ⟨sized, hsized⟩ := hsized expired none
    exact ⟨picks, sized, withRoom_none hroom, hsized⟩

/-- A cleanup of the system whose queries see the same tables chooses what the limits pick. -/
theorem picks_of_collect (hstart : (Eligible.new policy).isEmpty = false)
    (h : collectAll s answers (Collecting.start ⟨projectId, policy, now, []⟩) = some ids) :
    ∃ rows picks, collectRetentionCandidates s projectId policy now rows = some picks ∧
      picks.map Pick.buildId = ids := by
  have hcollect {rows : RetentionRows} {aged counted sized : List Pick}
      (haged : withRoom policy.maxAgeDays [] (fun maxAgeDays =>
        (loadExpiredBuildIds s projectId policy (now - maxAgeDays * 86400) retentionBatchSize
          rows.expired).map (extend .age [])) = some aged)
      (hcounted : withRoom policy.maxBuildsPerProject aged (fun maxCount =>
        (loadExcessBuildIds s projectId policy maxCount (retentionBatchSize - aged.length)
          rows.excess).map (extend .count aged)) = some counted)
      (hsized : withRoom policy.maxArtifactSizeBytes counted (fun maxSize =>
        addSizeLimitCandidates s projectId policy maxSize rows counted) = some sized) :
      collectRetentionCandidates s projectId policy now rows = some sized := by
    rw [collectRetentionCandidates, hstart, if_neg Bool.false_ne_true, haged]
    show (withRoom policy.maxBuildsPerProject aged _ >>= _) = _
    rw [hcounted]
    exact hsized
  unfold Collecting.start at h
  dsimp only at h
  cases hage : policy.maxAgeDays with
  | none =>
    rw [hage, Option.isSome_none, if_neg Bool.false_ne_true] at h
    have hmade : Collecting.Made ⟨projectId, policy, now, []⟩ projectId policy now [] := rfl
    obtain ⟨excess, oldest, hrest⟩ := afterExpired_collect hmade h
    obtain ⟨counted, sized, hcounted, hsized, hids⟩ := hrest none
    exact ⟨⟨none, excess, oldest, false⟩, sized, hcollect (by rw [hage, withRoom]) hcounted hsized,
      hids⟩
  | some maxAgeDays =>
    rw [hage, Option.isSome_some, if_pos rfl] at h
    obtain ⟨answer, rest, next, hquery, hrest⟩ := collectAll_query h nofun
    simp only [collect] at hquery
    split_ifs at hquery with _ hordered
    · cases hquery
    obtain rfl := Option.some.inj (Option.some.inj hquery)
    rw [hage, Option.getD_some] at hordered
    have hload : (loadExpiredBuildIds s projectId policy (now - maxAgeDays * 86400)
        retentionBatchSize (some answer.ordered)).map (extend .age []) =
          some (extend .age [] (answer.ordered.take retentionBatchSize)) := by
      rw [loadExpiredBuildIds, fetchAll, Option.filter_some, if_pos hordered]
      rfl
    have haged : Collecting.Made (Collecting.add ⟨projectId, policy, now, []⟩
        (answer.ordered.take retentionBatchSize)) projectId policy now
          (extend .age [] (answer.ordered.take retentionBatchSize)) := by
      unfold Collecting.Made Collecting.add
      rw [map_extend]
      rfl
    obtain ⟨excess, oldest, hafter⟩ := afterExpired_collect haged hrest
    obtain ⟨counted, sized, hcounted, hsized, hids⟩ := hafter (some answer.ordered)
    exact ⟨⟨some answer.ordered, excess, oldest, false⟩, sized,
      hcollect (by rw [hage, withRoom, if_pos (by decide), hload]) hcounted hsized, hids⟩

end OoreBuild
