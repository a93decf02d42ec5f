import OoreBuild.Lib.Sql
import OoreBuild.Build

/-!
# The queue as the runners see it

The query that picks the build a runner claims and the transaction that claims it, as the SQL
texts have them. A column is what its text or JSON column holds for the queries: `runs_on` and
`labels` are the rows of `json_each`, and the snapshot's repository is a text since it is compared
with a text column. While a runner service is replaced, a trigger aborts every claim.

Both texts keep a row exactly when it is `Claimable`.
-/

namespace OoreBuild.RunnerQueue

open Sql

/-! ## Tables -/

structure Project where
  id : Text
  repositoryId : Option Text
  deriving DecidableEq

structure IntegrationRepository where
  id : Text
  installationId : Text
  deriving DecidableEq

structure IntegrationInstallation where
  id : Text
  integrationId : Text
  deriving DecidableEq

structure OperatorIncident where
  id : Text
  status : Text
  reason : Text
  resourceKind : Text
  resourceId : Text
  deriving DecidableEq

structure Pipeline where
  id : Text
  /-- `concurrency.max_concurrent`. -/
  maxConcurrent : Value
  deriving DecidableEq

structure Runner where
  id : Text
  labels : List Value
  maxConcurrentBuilds : ℤ
  deriving DecidableEq

structure InstancePreferences where
  id : ℤ
  directMacosRunnerPaused : ℤ
  deriving DecidableEq

structure Build where
  id : Text
  projectId : Text
  pipelineId : Text
  status : BuildStatus
  approvalState : Option BuildApprovalState
  /-- `config_snapshot.repository_id`. -/
  repositoryId : Option Text
  /-- `config_snapshot.runs_on`. -/
  runsOn : List Value
  runnerId : Option Text
  ranOnRunnerId : Option Text
  signingTokenHash : Option Text
  queuedAt : ℤ
  updatedAt : ℤ
  deriving DecidableEq

structure Database where
  builds : Table Build.id
  projects : Table Project.id
  repositories : Table IntegrationRepository.id
  installations : Table IntegrationInstallation.id
  incidents : Table OperatorIncident.id
  pipelines : Table Pipeline.id
  runners : Table Runner.id
  preferences : Table InstancePreferences.id
  /-- When the lease of the runner service transition expires, if there is one. -/
  transitionLease : Option ℤ

/-! ## Conditions that both texts spell alike -/

variable (db : Database)

def pipelineHasFreeSlot (pipelineId : Text) : Truth :=
  (existsRow (fun pl => .all [
      eq (some pl.id) (some pipelineId),
      gt pl.maxConcurrent (integer 0),
      ge (integer (count (fun active => .all [
            eq (some active.pipelineId) (some pl.id),
            isIn (some active.status) [some .scheduled, some .assigned, some .running]])
          db.builds.rows))
        pl.maxConcurrent])
    db.pipelines.rows).not

/-- The runner has every label that the build requires. -/
def hasRequiredLabels (build : Build) (runner : Runner) : Truth :=
  (existsRow (fun required => notIn required runner.labels) build.runsOn).not

/-- The runner holds fewer builds than it may. -/
def hasFreeSlot (runner : Runner) : Truth :=
  some (decide ((count (fun held => .all [
      eq held.runnerId (some runner.id),
      isIn (some held.status) [some .assigned, some .running]]) db.builds.rows : ℤ) <
    max runner.maxConcurrentBuilds 1))

/-- No incident about the credentials of the installation's source is open. -/
def sourceUsable (inst : IntegrationInstallation) : Truth :=
  (existsRow (fun incident => .all [
      eq (some incident.status) (some "open".toList),
      eq (some incident.resourceKind) (some "source".toList),
      eq (some incident.resourceId) (some inst.integrationId),
      isIn (some incident.reason)
        [some "expired".toList, some "rejected".toList, some "refresh_failed".toList]])
    db.incidents.rows).not

def notPending (build : Build) : Truth :=
  (isNull build.approvalState).or (ne build.approvalState (some .pending))

/-- `COALESCE(pref.direct_macos_runner_paused, 0) = 0`. -/
def notPaused (pref : Option InstancePreferences) : Truth :=
  eq (some ((pref.map InstancePreferences.directMacosRunnerPaused).getD 0)) (some 0)

/-! ## The selection -/

/-- The rows of `NEXT_ELIGIBLE_BUILD_SQL` before they are ordered. -/
def eligibleRows (runnerId : Text) :
    List (((((Build × Project) × IntegrationRepository) × IntegrationInstallation) × Runner) ×
      Option InstancePreferences) :=
  let projects := join db.builds.rows db.projects.rows fun b p => eq (some p.id) (some b.projectId)
  let repositories := join projects db.repositories.rows fun (_, p) r =>
    eq (some r.id) p.repositoryId
  let installations := join repositories db.installations.rows fun (_, r) inst =>
    eq (some inst.id) (some r.installationId)
  let runners := join installations db.runners.rows fun _ runner =>
    eq (some runner.id) (some runnerId)
  let preferences := leftJoin runners db.preferences.rows fun _ pref => eq (some pref.id) (some 1)
  preferences |> select fun (((((b, p), _), inst), runner), pref) => .all [
    eq (some b.status) (some .queued),
    notPending b,
    pipelineHasFreeSlot db b.pipelineId,
    hasRequiredLabels b runner,
    eq b.repositoryId p.repositoryId,
    notPaused pref,
    hasFreeSlot db runner,
    sourceUsable db inst]

/-- The order of the queue. -/
def queueKey (b : Build) : ℤ ×ₗ Text := toLex (b.queuedAt, b.id)

def nextEligibleBuild (runnerId : Text) : Option Build :=
  (first (fun row => queueKey row.1.1.1.1.1) (eligibleRows db runnerId)).map fun row =>
    row.1.1.1.1.1

/-! ## The claim -/

/-- The condition of the update that schedules a build. -/
def scheduleWhere (buildId runnerId : Text) (build : Build) : Truth := .all [
  eq (some build.id) (some buildId),
  eq (some build.status) (some .queued),
  notPending build,
  pipelineHasFreeSlot db build.pipelineId,
  existsRow (fun runner => .all [
      eq (some runner.id) (some runnerId),
      hasRequiredLabels build runner,
      hasFreeSlot db runner])
    db.runners.rows,
  existsRow (fun (((p, _), inst), pref) => .all [
      eq (some p.id) (some build.projectId),
      eq build.repositoryId p.repositoryId,
      notPaused pref,
      sourceUsable db inst])
    (leftJoin
      (join (join db.projects.rows db.repositories.rows fun p r => eq (some r.id) p.repositoryId)
        db.installations.rows fun (_, r) inst => eq (some inst.id) (some r.installationId))
      db.preferences.rows fun _ pref => eq (some pref.id) (some 1))]

/-- The condition of the update that assigns it. -/
def assignWhere (buildId : Text) (build : Build) : Truth := .all [
  eq (some build.id) (some buildId),
  eq (some build.status) (some .scheduled),
  isNull build.runnerId]

def scheduleRow (now : ℤ) (build : Build) : Build :=
  { build with status := .scheduled, updatedAt := now }

@[simp]
theorem scheduleRow_id (now : ℤ) (build : Build) : (scheduleRow now build).id = build.id := rfl

def assignRow (runnerId signingTokenHash : Text) (now : ℤ) (build : Build) : Build :=
  { build with
    status := .assigned
    runnerId := some runnerId
    ranOnRunnerId := some runnerId
    signingTokenHash := some signingTokenHash
    updatedAt := now }

@[simp]
theorem assignRow_id (runnerId signingTokenHash : Text) (now : ℤ) (build : Build) :
    (assignRow runnerId signingTokenHash now build).id = build.id := rfl

/-- The trigger `builds_withdraw_pending_approval`. -/
def withdrawPendingApproval (build : Build) : Build :=
  if build.approvalState = some .pending ∧ build.status ≠ .queued then
    { build with approvalState := none }
  else build

@[simp]
theorem withdrawPendingApproval_id (build : Build) :
    (withdrawPendingApproval build).id = build.id := by
  unfold withdrawPendingApproval
  split <;> rfl

@[simp]
theorem withdrawPendingApproval_status (build : Build) :
    (withdrawPendingApproval build).status = build.status := by
  unfold withdrawPendingApproval
  split <;> rfl

@[simp]
theorem withdrawPendingApproval_runnerId (build : Build) :
    (withdrawPendingApproval build).runnerId = build.runnerId := by
  unfold withdrawPendingApproval
  split <;> rfl

/-- The lease of the runner service transition has not expired. -/
def inTransition (clock : ℤ) : Bool := db.transitionLease.any fun expiresAt => clock ≤ expiresAt

/-- An error that a trigger raises. -/
inductive Abort where
  | runnerServiceTransition
  deriving DecidableEq

/-- `UPDATE builds SET … WHERE …` of the status, with its triggers, and the number of rows. -/
def updateBuilds (clock : ℤ) (cond : Build → Truth) (set : Build → Build)
    (hset : ∀ build, (set build).id = build.id) : Except Abort (Database × ℕ) :=
  let matched := select cond db.builds.rows
  if inTransition db clock ∧
      matched.any fun build => build.status = .queued ∧ (set build).status = .scheduled then
    .error .runnerServiceTransition
  else
    let builds := db.builds.mapRows
      (fun build => if (cond build).holds then withdrawPendingApproval (set build) else build) (by
        intro build
        split
        · rw [withdrawPendingApproval_id, hset build]
        · rfl)
    .ok ({ db with builds }, matched.length)

/-- The second half of the claim, after the build was scheduled. -/
def assignScheduledBuild (clock now : ℤ) (buildId runnerId signingTokenHash : Text) :
    Except Abort (Option Database) :=
  match updateBuilds db clock (assignWhere buildId) (assignRow runnerId signingTokenHash now)
      (assignRow_id runnerId signingTokenHash now) with
  | .error e => .error e
  | .ok (assigned, 1) => .ok (some assigned)
  | .ok _ => .ok none

/-- `none` where the transaction is rolled back. -/
def claimEligibleDirectRunnerBuild (clock now : ℤ) (buildId runnerId signingTokenHash : Text) :
    Except Abort (Option Database) :=
  match updateBuilds db clock (scheduleWhere db buildId runnerId) (scheduleRow now)
      (scheduleRow_id now) with
  | .error e => .error e
  | .ok (_, 0) => .ok none
  | .ok (scheduled, _) =>
    assignScheduledBuild scheduled clock now buildId runnerId signingTokenHash

/-! ## What both conditions say -/

/-- The conditions under which a runner may take a build, whatever its own runner column. -/
structure Claimable (runnerId : Text) (build : Build) : Prop where
  queued : build.status = .queued
  approved : (notPending build).holds = true
  slot : (pipelineHasFreeSlot db build.pipelineId).holds = true
  runner : ∃ runner ∈ db.runners.rows, runner.id = runnerId ∧
    (hasRequiredLabels build runner).holds = true ∧ (hasFreeSlot db runner).holds = true
  source : ∃ p ∈ db.projects.rows, ∃ r ∈ db.repositories.rows, ∃ inst ∈ db.installations.rows,
    p.id = build.projectId ∧ some r.id = p.repositoryId ∧ inst.id = r.installationId ∧
      build.repositoryId = p.repositoryId ∧ (sourceUsable db inst).holds = true
  running : ∃ pref ∈ orNull (select (fun pref => eq (some pref.id) (some 1)) db.preferences.rows),
    (notPaused pref).holds = true

variable {db : Database} {runnerId : Text} {build : Build}

/-- The selection picks the claimable builds. -/
theorem exists_mem_eligibleRows :
    (∃ row ∈ eligibleRows db runnerId, row.1.1.1.1.1 = build) ↔
      build ∈ db.builds.rows ∧ Claimable db runnerId build := by
  constructor
  · rintro ⟨⟨⟨⟨⟨⟨b, p⟩, r⟩, inst⟩, runner⟩, pref⟩, hrow, rfl⟩
    simp only [eligibleRows, mem_select, mem_leftJoin, mem_join, Truth.holds_all, List.all_cons,
      List.all_nil, Bool.and_eq_true, holds_eq, Option.some.injEq, Option.isSome_some,
      and_true] at hrow
    obtain ⟨⟨⟨⟨⟨⟨hb, hp, hproject⟩, hr, hrepository⟩, hinst, hinstallation⟩, hrunner, hid⟩, hpref⟩,
      hqueued, happroved, hslot, hlabels, ⟨hsource, -⟩, hpaused, hfree, husable⟩ := hrow
    exact ⟨hb, hqueued, happroved, hslot, ⟨runner, hrunner, hid, hlabels, hfree⟩,
      ⟨p, hp, r, hr, inst, hinst, hproject, hrepository, hinstallation, hsource, husable⟩,
      ⟨pref, hpref, hpaused⟩⟩
  · rintro ⟨hb, hqueued, happroved, hslot, ⟨runner, hrunner, hid, hlabels, hfree⟩,
      ⟨p, hp, r, hr, inst, hinst, hproject, hrepository, hinstallation, hsource, husable⟩,
      ⟨pref, hpref, hpaused⟩⟩
    have hsome : build.repositoryId.isSome = true := by rw [hsource, ← hrepository]; rfl
    refine ⟨(((((build, p), r), inst), runner), pref), ?_, rfl⟩
    simp only [eligibleRows, mem_select, mem_leftJoin, mem_join, Truth.holds_all, List.all_cons,
      List.all_nil, Bool.and_eq_true, holds_eq, Option.some.injEq, Option.isSome_some, and_true]
    exact ⟨⟨⟨⟨⟨⟨hb, hp, hproject⟩, hr, hrepository⟩, hinst, hinstallation⟩, hrunner, hid⟩, hpref⟩,
      hqueued, happroved, hslot, hlabels, ⟨hsource, hsome⟩, hpaused, hfree, husable⟩

/-- The update schedules the build when it is claimable. -/
theorem holds_scheduleWhere {buildId : Text} :
    (scheduleWhere db buildId runnerId build).holds = true ↔
      build.id = buildId ∧ Claimable db runnerId build := by
  simp only [scheduleWhere, Truth.holds_all, List.all_cons, List.all_nil, Bool.and_eq_true,
    holds_eq, Option.some.injEq, Option.isSome_some, holds_existsRow, and_true]
  constructor
  · rintro ⟨hid, hqueued, happroved, hslot, ⟨runner, hrunner, hrunnerId, hlabels, hfree⟩,
      ⟨⟨⟨p, r⟩, inst⟩, pref⟩, hrow, hproject, ⟨hsource, -⟩, hpaused, husable⟩
    simp only [mem_leftJoin, mem_join, holds_eq, Option.some.injEq, Option.isSome_some,
      and_true] at hrow
    obtain ⟨⟨⟨hp, hr, hrepository⟩, hinst, hinstallation⟩, hpref⟩ := hrow
    exact ⟨hid, hqueued, happroved, hslot, ⟨runner, hrunner, hrunnerId, hlabels, hfree⟩,
      ⟨p, hp, r, hr, inst, hinst, hproject, hrepository, hinstallation, hsource, husable⟩,
      ⟨pref, hpref, hpaused⟩⟩
  · rintro ⟨hid, hqueued, happroved, hslot, ⟨runner, hrunner, hrunnerId, hlabels, hfree⟩,
      ⟨p, hp, r, hr, inst, hinst, hproject, hrepository, hinstallation, hsource, husable⟩,
      ⟨pref, hpref, hpaused⟩⟩
    have hsome : build.repositoryId.isSome = true := by rw [hsource, ← hrepository]; rfl
    refine ⟨hid, hqueued, happroved, hslot, ⟨runner, hrunner, hrunnerId, hlabels, hfree⟩,
      (((p, r), inst), pref), ?_, hproject, ⟨hsource, hsome⟩, hpaused, husable⟩
    simp only [mem_leftJoin, mem_join, holds_eq, Option.some.injEq, Option.isSome_some, and_true]
    exact ⟨⟨⟨hp, hr, hrepository⟩, hinst, hinstallation⟩, hpref⟩

/-! ## The build that is picked -/

/-- Two builds at the same place of the queue are one. -/
theorem eq_of_queueKey_eq {other : Build} (hbuild : build ∈ db.builds.rows)
    (hother : other ∈ db.builds.rows) (h : queueKey build = queueKey other) : build = other := by
  have hid : build.id = other.id := congrArg Prod.snd (toLex.injective h)
  have hfind := Table.find_of_mem hbuild
  rw [hid, Table.find_of_mem hother] at hfind
  exact (Option.some.inj hfind).symm

theorem nextEligibleBuild_eq_none_iff :
    nextEligibleBuild db runnerId = none ↔
      ∀ build ∈ db.builds.rows, ¬ Claimable db runnerId build := by
  unfold nextEligibleBuild
  rw [Option.map_eq_none_iff, first_eq_none_iff, List.eq_nil_iff_forall_not_mem]
  constructor
  · intro h build hbuild hclaimable
    obtain ⟨row, hrow, -⟩ := exists_mem_eligibleRows.mpr ⟨hbuild, hclaimable⟩
    exact h row hrow
  · intro h row hrow
    obtain ⟨hbuild, hclaimable⟩ := exists_mem_eligibleRows.mp ⟨row, hrow, rfl⟩
    exact h _ hbuild hclaimable

/-- The build that is picked is claimable, and no claimable one comes before it. -/
theorem nextEligibleBuild_spec (h : nextEligibleBuild db runnerId = some build) :
    build ∈ db.builds.rows ∧ Claimable db runnerId build ∧
      ∀ other ∈ db.builds.rows, Claimable db runnerId other → queueKey build ≤ queueKey other := by
  unfold nextEligibleBuild at h
  obtain ⟨row, hfirst, rfl⟩ := Option.map_eq_some_iff.mp h
  obtain ⟨hrow, hleast⟩ := first_spec hfirst
  obtain ⟨hbuild, hclaimable⟩ := exists_mem_eligibleRows.mp ⟨row, hrow, rfl⟩
  refine ⟨hbuild, hclaimable, fun other hother hclaimable' => ?_⟩
  obtain ⟨row', hrow', rfl⟩ := exists_mem_eligibleRows.mpr ⟨hother, hclaimable'⟩
  exact hleast row' hrow'

theorem nextEligibleBuild_eq_some_iff :
    nextEligibleBuild db runnerId = some build ↔
      build ∈ db.builds.rows ∧ Claimable db runnerId build ∧
        ∀ other ∈ db.builds.rows, Claimable db runnerId other →
          queueKey build ≤ queueKey other := by
  constructor
  · exact nextEligibleBuild_spec
  · rintro ⟨hbuild, hclaimable, hleast⟩
    cases hnext : nextEligibleBuild db runnerId with
    | none => exact absurd hclaimable (nextEligibleBuild_eq_none_iff.mp hnext build hbuild)
    | some picked =>
      obtain ⟨hpicked, hclaimable', hleast'⟩ := nextEligibleBuild_spec hnext
      have hkey := le_antisymm (hleast' build hbuild hclaimable) (hleast picked hpicked hclaimable')
      rw [eq_of_queueKey_eq hpicked hbuild hkey]

/-! ## The claims that are accepted -/

section Update

variable (clock : ℤ) {cond : Build → Truth} (set : Build → Build)
  (hset : ∀ build, (set build).id = build.id) {buildId : Text}

/-- An update that finds no row changes nothing and says so. -/
theorem updateBuilds_of_none (hcond : ∀ build, (cond build).holds = true → build.id = buildId)
    (h : (db.builds.find buildId).filter (fun build => (cond build).holds) = none) :
    ∃ db', updateBuilds db clock cond set hset = .ok (db', 0) := by
  have hmatched := select_eq_toList db.builds hcond
  rw [h] at hmatched
  unfold updateBuilds
  simp [hmatched]

/-- An update that finds the row of a build writes it, unless the trigger stops it. -/
theorem updateBuilds_of_some (hcond : ∀ build, (cond build).holds = true → build.id = buildId)
    (h : (db.builds.find buildId).filter (fun build => (cond build).holds) = some build) :
    (inTransition db clock = true ∧ build.status = .queued ∧ (set build).status = .scheduled →
      updateBuilds db clock cond set hset = .error .runnerServiceTransition) ∧
    (¬ (inTransition db clock = true ∧ build.status = .queued ∧
        (set build).status = .scheduled) →
      ∃ db', updateBuilds db clock cond set hset = .ok (db', 1) ∧
        db'.builds.find buildId = some (withdrawPendingApproval (set build))) := by
  have hmatched := select_eq_toList db.builds hcond
  rw [h, Option.toList_some] at hmatched
  obtain ⟨hfind, hholds⟩ := Option.filter_eq_some_iff.mp h
  unfold updateBuilds
  simp only [hmatched, List.any_cons, List.any_nil, Bool.or_false, decide_eq_true_eq,
    List.length_singleton]
  constructor
  · intro htransition
    rw [if_pos htransition]
  · intro hgo
    rw [if_neg hgo]
    refine ⟨_, rfl, ?_⟩
    rw [Table.find_mapRows, hfind, Option.map_some, if_pos hholds]

end Update

/-- The second update assigns the build that the first one scheduled, unless a runner holds it. -/
theorem holds_assignWhere {buildId : Text} :
    (assignWhere buildId build).holds = true ↔
      build.id = buildId ∧ build.status = .scheduled ∧ build.runnerId = none := by
  simp only [assignWhere, Truth.holds_all, List.all_cons, List.all_nil, Bool.and_eq_true, holds_eq,
    Option.some.injEq, Option.isSome_some, and_true, holds_isNull, Option.isNone_iff_eq_none]

section Claim

variable {clock now : ℤ} {buildId signingTokenHash : Text}

/-- A scheduled build is assigned unless a runner holds it. -/
theorem assignScheduledBuild_eq_ok_some_iff (hfind : db.builds.find buildId = some build)
    (hid : build.id = buildId) (hstatus : build.status = .scheduled) :
    (∃ db', assignScheduledBuild db clock now buildId runnerId signingTokenHash = .ok (some db')) ↔
      build.runnerId = none := by
  have hassign : ∀ build, (assignWhere buildId build).holds = true → build.id = buildId :=
    fun build h => (holds_assignWhere.mp h).1
  unfold assignScheduledBuild
  cases hholds : (assignWhere buildId build).holds with
  | true =>
    have hfound : (db.builds.find buildId).filter (fun build => (assignWhere buildId build).holds) =
        some build := by
      rw [hfind, Option.filter_some, if_pos hholds]
    obtain ⟨-, hupdate⟩ := updateBuilds_of_some clock (assignRow runnerId signingTokenHash now)
      (assignRow_id runnerId signingTokenHash now) hassign hfound
    obtain ⟨assigned, hassigned, -⟩ := hupdate fun h => by
      rw [hstatus] at h
      cases h.2.1
    rw [hassigned]
    exact ⟨fun _ => (holds_assignWhere.mp hholds).2.2, fun _ => ⟨assigned, rfl⟩⟩
  | false =>
    have hfound : (db.builds.find buildId).filter (fun build => (assignWhere buildId build).holds) =
        none := by
      rw [hfind, Option.filter_some, hholds, if_neg Bool.false_ne_true]
    obtain ⟨db', hupdate⟩ := updateBuilds_of_none clock (assignRow runnerId signingTokenHash now)
      (assignRow_id runnerId signingTokenHash now) hassign hfound
    rw [hupdate]
    constructor
    · rintro ⟨_, h⟩
      cases h
    · intro hnone
      rw [holds_assignWhere.mpr ⟨hid, hstatus, hnone⟩] at hholds
      cases hholds

/-- A claim is accepted outside of a transition, for a claimable build that no runner holds. -/
theorem claim_eq_ok_some_iff :
    (∃ db', claimEligibleDirectRunnerBuild db clock now buildId runnerId signingTokenHash =
        .ok (some db')) ↔
      inTransition db clock = false ∧ ∃ build ∈ db.builds.rows, build.id = buildId ∧
        Claimable db runnerId build ∧ build.runnerId = none := by
  have hschedule : ∀ build, (scheduleWhere db buildId runnerId build).holds = true →
      build.id = buildId := fun build h => (holds_scheduleWhere.mp h).1
  unfold claimEligibleDirectRunnerBuild
  cases hfound : (db.builds.find buildId).filter
      (fun build => (scheduleWhere db buildId runnerId build).holds) with
  | none =>
    obtain ⟨db', hupdate⟩ := updateBuilds_of_none clock (scheduleRow now) (scheduleRow_id now)
      hschedule hfound
    rw [hupdate]
    constructor
    · rintro ⟨_, h⟩
      cases h
    · rintro ⟨-, build, hbuild, rfl, hclaimable, -⟩
      rw [Table.find_of_mem hbuild, Option.filter_some,
        if_pos (holds_scheduleWhere.mpr ⟨rfl, hclaimable⟩)] at hfound
      cases hfound
  | some build =>
    obtain ⟨hfind, hholds⟩ := Option.filter_eq_some_iff.mp hfound
    obtain ⟨hid, hclaimable⟩ := holds_scheduleWhere.mp hholds
    obtain ⟨habort, hupdate⟩ := updateBuilds_of_some clock (scheduleRow now) (scheduleRow_id now)
      hschedule hfound
    cases htransition : inTransition db clock with
    | true =>
      rw [habort ⟨htransition, hclaimable.queued, rfl⟩]
      constructor
      · rintro ⟨_, h⟩
        cases h
      · rintro ⟨h, -⟩
        cases h
    | false =>
      obtain ⟨scheduled, hscheduled, hrow⟩ := hupdate fun h => by
        rw [htransition] at h
        cases h.1
      rw [hscheduled]
      refine (assignScheduledBuild_eq_ok_some_iff hrow (by simpa using hid)
        (by simp [scheduleRow])).trans ?_
      rw [withdrawPendingApproval_runnerId]
      constructor
      · intro hheld
        exact ⟨rfl, build, Table.mem_of_find hfind, hid, hclaimable, hheld⟩
      · rintro ⟨-, other, hother, hid', -, hheld⟩
        have hfind' := Table.find_of_mem hother
        rw [hid', hfind] at hfind'
        rw [Option.some.inj hfind']
        exact hheld

end Claim

/-! ## The queue serves what can be claimed -/

variable (db)

/-- The claim of a stored build goes through. -/
def Accepted (clock now : ℤ) (runnerId signingTokenHash : Text) (build : Build) : Prop :=
  build ∈ db.builds.rows ∧ ∃ db',
    claimEligibleDirectRunnerBuild db clock now build.id runnerId signingTokenHash = .ok (some db')

/-- The selection returns the first build in the queue whose claim goes through. -/
def PicksAccepted (clock now : ℤ) (runnerId signingTokenHash : Text) : Prop :=
  ((∃ build, nextEligibleBuild db runnerId = some build) ↔
    ∃ build, Accepted db clock now runnerId signingTokenHash build) ∧
  ∀ build, nextEligibleBuild db runnerId = some build ↔
    Accepted db clock now runnerId signingTokenHash build ∧
      ∀ other, Accepted db clock now runnerId signingTokenHash other →
        queueKey build ≤ queueKey other

variable {db}

theorem accepted_iff {clock now : ℤ} {signingTokenHash : Text} :
    Accepted db clock now runnerId signingTokenHash build ↔
      inTransition db clock = false ∧ build ∈ db.builds.rows ∧ Claimable db runnerId build ∧
        build.runnerId = none := by
  unfold Accepted
  rw [claim_eq_ok_some_iff]
  constructor
  · rintro ⟨hbuild, htransition, other, hother, hid, hclaimable, hheld⟩
    have hfind := Table.find_of_mem hother
    rw [hid, Table.find_of_mem hbuild] at hfind
    cases hfind
    exact ⟨htransition, hbuild, hclaimable, hheld⟩
  · rintro ⟨htransition, hbuild, hclaimable, hheld⟩
    exact ⟨hbuild, htransition, build, hbuild, rfl, hclaimable, hheld⟩

/-- While no runner service is being replaced and no runner holds a queued build, a runner is
offered a build exactly when it can claim one, and then the first one that it can claim. -/
theorem nextEligibleBuild_picksAccepted (db : Database) (clock now : ℤ)
    (runnerId signingTokenHash : Text) (htransition : inTransition db clock = false)
    (hheld : ∀ build ∈ db.builds.rows, build.status = .queued → build.runnerId = none) :
    PicksAccepted db clock now runnerId signingTokenHash := by
  have haccepted : ∀ build, Accepted db clock now runnerId signingTokenHash build ↔
      build ∈ db.builds.rows ∧ Claimable db runnerId build := by
    intro build
    rw [accepted_iff]
    constructor
    · rintro ⟨-, hbuild, hclaimable, -⟩
      exact ⟨hbuild, hclaimable⟩
    · rintro ⟨hbuild, hclaimable⟩
      exact ⟨htransition, hbuild, hclaimable, hheld build hbuild hclaimable.queued⟩
  unfold PicksAccepted
  simp only [haccepted]
  constructor
  · constructor
    · rintro ⟨build, hnext⟩
      obtain ⟨hbuild, hclaimable, -⟩ := nextEligibleBuild_spec hnext
      exact ⟨build, hbuild, hclaimable⟩
    · rintro ⟨build, hbuild, hclaimable⟩
      refine Option.ne_none_iff_exists'.mp fun hnone => ?_
      exact nextEligibleBuild_eq_none_iff.mp hnone build hbuild hclaimable
  · intro build
    rw [nextEligibleBuild_eq_some_iff, and_assoc]
    refine and_congr_right fun _ => and_congr_right fun _ => ?_
    constructor
    · rintro h other ⟨hother, hclaimable⟩
      exact h other hother hclaimable
    · intro h other hother hclaimable
      exact h other ⟨hother, hclaimable⟩

/-- A build of the pipeline for the one runner. -/
def queuedBuild (id : Text) (approvalState : Option BuildApprovalState) (queuedAt : ℤ)
    (holder : Option Text) : Build where
  id := id
  projectId := ['p']
  pipelineId := ['l']
  status := .queued
  approvalState := approvalState
  repositoryId := some ['r']
  runsOn := [some (.text ['m'])]
  runnerId := holder
  ranOnRunnerId := none
  signingTokenHash := none
  queuedAt := queuedAt
  updatedAt := queuedAt

/-- A queued build for one runner, with the lease of a transition and the build's runner. -/
def oneQueuedBuild (transitionLease : Option ℤ) (holder : Option Text) : Database where
  builds := ⟨[queuedBuild ['b'] none 1 holder], List.nodup_singleton _⟩
  projects := ⟨[⟨['p'], some ['r']⟩], by decide⟩
  repositories := ⟨[⟨['r'], ['i']⟩], by decide⟩
  installations := ⟨[⟨['i'], ['g']⟩], by decide⟩
  incidents := ⟨[], by decide⟩
  pipelines := ⟨[⟨['l'], none⟩], by decide⟩
  runners := ⟨[⟨['n'], [some (.text ['m'])], 1⟩], by decide⟩
  preferences := ⟨[], by decide⟩
  transitionLease := transitionLease

/-- A build that waits for its approval, and behind it two that the runner can claim. -/
def waitingBuilds : Database :=
  { oneQueuedBuild (some 9) none with
    builds := ⟨[queuedBuild ['c'] none 3 none, queuedBuild ['a'] (some .pending) 1 none,
      queuedBuild ['b'] none 2 none], by decide⟩ }

theorem nextEligibleBuild_waitingBuilds :
    nextEligibleBuild waitingBuilds ['n'] = some (queuedBuild ['b'] none 2 none) := by
  rw [nextEligibleBuild_eq_some_iff]
  refine ⟨by decide, ?_, ?_⟩
  · exact {
      queued := rfl
      approved := by rfl
      slot := by rfl
      runner := ⟨_, List.mem_cons_self, rfl, by rfl, by rfl⟩
      source := ⟨_, List.mem_cons_self, _, List.mem_cons_self, _, List.mem_cons_self, rfl, rfl, rfl,
        rfl, by rfl⟩
      running := ⟨none, List.mem_cons_self, by decide⟩ }
  · intro other hother hclaimable
    have hother : other ∈ [queuedBuild ['c'] none 3 none, queuedBuild ['a'] (some .pending) 1 none,
        queuedBuild ['b'] none 2 none] := hother
    simp only [List.mem_cons, List.not_mem_nil, or_false] at hother
    obtain rfl | rfl | rfl := hother
    · decide
    · exact absurd hclaimable.approved (by decide)
    · exact le_refl _

theorem nextEligibleBuild_picksAccepted_waitingBuilds :
    inTransition waitingBuilds 10 = false ∧ PicksAccepted waitingBuilds 10 10 ['n'] ['h'] ∧
      nextEligibleBuild waitingBuilds ['n'] = some (queuedBuild ['b'] none 2 none) :=
  ⟨by decide, nextEligibleBuild_picksAccepted _ _ _ _ _ (by decide) (by decide),
    nextEligibleBuild_waitingBuilds⟩

/-- A build is offered while a runner service is being replaced, and while a runner still holds
it, and its claim is refused. -/
theorem not_picksAccepted :
    ¬ PicksAccepted (oneQueuedBuild (some 10) none) 10 10 ['n'] ['h'] ∧
      ¬ PicksAccepted (oneQueuedBuild none (some ['n'])) 10 10 ['n'] ['h'] := by
  have hpicked : ∀ lease, ∀ holder ∈ [none, some ['n']],
      (nextEligibleBuild (oneQueuedBuild lease holder) ['n']).isSome := by
    intro lease holder hholder
    have hfree : (hasFreeSlot (oneQueuedBuild lease holder)
        ⟨['n'], [some (.text ['m'])], 1⟩).holds = true := by
      rcases List.mem_pair.mp hholder with rfl | rfl <;> rfl
    refine Option.isSome_iff_ne_none.mpr fun hnone => ?_
    refine nextEligibleBuild_eq_none_iff.mp hnone _ List.mem_cons_self ?_
    exact {
      queued := rfl
      approved := by rfl
      slot := by rfl
      runner := ⟨_, List.mem_cons_self, rfl, by rfl, hfree⟩
      source := ⟨_, List.mem_cons_self, _, List.mem_cons_self, _, List.mem_cons_self, rfl, rfl, rfl,
        rfl, by rfl⟩
      running := ⟨none, List.mem_cons_self, by decide⟩ }
  constructor
  · rintro ⟨h, -⟩
    obtain ⟨build, hbuild⟩ := h.mp (Option.isSome_iff_exists.mp (hpicked _ _ (by decide)))
    obtain ⟨htransition, -⟩ := accepted_iff.mp hbuild
    cases htransition
  · rintro ⟨h, -⟩
    obtain ⟨build, hbuild⟩ := h.mp (Option.isSome_iff_exists.mp (hpicked _ _ (by decide)))
    obtain ⟨-, hmem, -, hheld⟩ := accepted_iff.mp hbuild
    rw [List.mem_singleton.mp hmem] at hheld
    cases hheld

end OoreBuild.RunnerQueue
