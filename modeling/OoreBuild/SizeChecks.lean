import OoreBuild.ArtifactSizes
import OoreBuild.CommitChecks
import OoreBuild.Reports

/-!
# Size budgets on commit checks

Each platform of a build has its own check, and a size budget fails a check, never the build. The
check of a platform enforces the pipeline's budget and those that the build's file sets for the
platform, on the artifacts of the platform and on those of no known platform. The titles, links and
summaries of the checks are left out.
-/

namespace OoreBuild

namespace Sizes

open Text
open Checks (phase)
open Reports (JsonValue)

structure BuildSizeReport where
  artifacts : List ArtifactSizeComparison

structure BuildContext where
  pipelineName : Text
  status : BuildStatus
  platforms : List Text
  sizeBudget : SizeBudget
  /-- The size budgets the build's file sets, per target. -/
  fileSizeBudgets : List TargetSizeBudget

structure BuildRow where
  pipelineName : Text
  status : BuildStatus
  /-- The snapshot's `selected_platforms`. -/
  selectedPlatforms : Option JsonValue
  /-- The snapshot's `/ui_execution_config/platforms`. -/
  uiPlatforms : Option JsonValue
  /-- The pipeline's budget, where it parses. -/
  sizeBudget : Option SizeBudget
  /-- The snapshot's `file_size_budgets`, where they parse. -/
  fileSizeBudgets : Option (List TargetSizeBudget)

def asArray : JsonValue → Option (List JsonValue)
  | .arr values => some values
  | _ => none

/-- Platforms the build was asked to produce, from its config snapshot. -/
def snapshotPlatforms (selected ui : Option JsonValue) : List Text :=
  let listed := (((selected.or ui).bind asArray).map fun values =>
    values.filterMap (·.asStr)).getD []
  if listed = [] then ["android"] else listed

def loadContext (row : BuildRow) : BuildContext where
  pipelineName := row.pipelineName
  status := row.status
  platforms := snapshotPlatforms row.selectedPlatforms row.uiPlatforms
  sizeBudget := row.sizeBudget.getD ⟨.warn, []⟩
  fileSizeBudgets := row.fileSizeBudgets.getD []

def artifactPlatform (artifactType name : Text) : Option Text :=
  if artifactType = "apk" ∨ artifactType = "aab" then some "android"
  else if artifactType = "ipa" then some "ios"
  else
    let name := toAsciiLowercase name
    if endsWith name ".aab" || endsWith name ".apk" then some "android"
    else if endsWith name ".ipa" then some "ios"
    else none

def budgetBelongsTo (artifactType name platform : Text) : Bool :=
  (artifactPlatform artifactType name).all (· = platform)

/-- A size budget a platform's check enforces, with the field it came from. -/
structure AppliedBudget where
  budget : SizeBudget
  source : Option Text

/-- The size budgets a platform's check enforces. The pipeline's budget is a floor. -/
def platformBudgets (ctx : BuildContext) (platform : Text) : List AppliedBudget :=
  ⟨ctx.sizeBudget, none⟩ ::
    (ctx.fileSizeBudgets.filter fun target => platformKey target.platform = platform).map
      fun target => ⟨target.budget, some target.source⟩

/-- A limit an artifact went over, with the budget that set it. -/
structure PlatformViolation where
  violation : BudgetViolation
  budget : AppliedBudget

/-- The strictest mode among the budgets that the violations came from. -/
def strictestMode (violations : List PlatformViolation) : SizeBudgetMode :=
  if violations.any (·.budget.budget.mode = .fail) then .fail else .warn

def platformViolations (ctx : BuildContext) (sizes : Option BuildSizeReport) (platform : Text) :
    List PlatformViolation :=
  (sizes.map fun sizes => (platformBudgets ctx platform).flatMap fun applied =>
    ((checkBudget sizes.artifacts applied.budget).filter fun violation =>
      budgetBelongsTo violation.artifactType violation.name platform).map
        fun violation => ⟨violation, applied⟩).getD []

def platformLabel (platform : Text) : Text :=
  if platform = "android" then "Android"
  else if platform = "ios" then "iOS"
  else if platform = "macos" then "macOS"
  else platform

/-- One check: a platform of the build and what it says. -/
structure PlatformReport where
  platform : Text
  name : Text
  /-- An artifact is over a size budget that fails the check. -/
  overBudget : Bool

def platformReport (ctx : BuildContext) (sizes : Option BuildSizeReport) (platform : Text) :
    PlatformReport :=
  let violations := platformViolations ctx sizes platform
  { platform
    name := ctx.pipelineName ++ " (" ++ platformLabel platform ++ ")"
    overBudget := strictestMode violations = .fail && !violations.isEmpty }

def platformReports (ctx : BuildContext) (sizes : Option BuildSizeReport) : List PlatformReport :=
  ctx.platforms.map (platformReport ctx sizes)

/-! ## The posted result -/

structure GithubCheckRun where
  name : Text
  status : Text
  conclusion : Option Text
  deriving DecidableEq

def githubCheckRun (ctx : BuildContext) (report : PlatformReport) : GithubCheckRun :=
  match phase ctx.status with
  | .queued => ⟨report.name, "queued", none⟩
  | .running => ⟨report.name, "in_progress", none⟩
  | .done status => ⟨report.name, "completed", some (match status with
    | .succeeded => if report.overBudget then "failure" else "success"
    | .timedOut => "timed_out"
    | .failed => "failure"
    | _ => "cancelled")⟩

def gitlabState (status : BuildStatus) (overBudget : Bool) : Text :=
  match phase status with
  | .queued => "pending"
  | .running => "running"
  | .done .succeeded => if overBudget then "failed" else "success"
  | .done .failed | .done .timedOut => "failed"
  | .done _ => "canceled"

/-! ## What fails a check -/

/-- An artifact goes over a limit of the budget. -/
def Breaks (budget : SizeBudget) (artifact : ArtifactSizeComparison) : Prop :=
  checkArtifact budget artifact ≠ []

instance (budget : SizeBudget) (artifact : ArtifactSizeComparison) :
    Decidable (Breaks budget artifact) := inferInstanceAs (Decidable (_ ≠ _))

/-- The artifact belongs to the platform or to none. -/
def CountsFor (platform : Text) (artifact : ArtifactSizeComparison) : Prop :=
  artifactPlatform artifact.artifactType artifact.name = none ∨
    artifactPlatform artifact.artifactType artifact.name = some platform

/-- The pipeline's budget applies to every platform, a file's to the platform of its target. -/
def Applies (ctx : BuildContext) (platform : Text) (budget : SizeBudget) : Prop :=
  budget = ctx.sizeBudget ∨
    ∃ target ∈ ctx.fileSizeBudgets, platformKey target.platform = platform ∧
      target.budget = budget

theorem snapshotPlatforms_ne_nil (selected ui : Option JsonValue) :
    snapshotPlatforms selected ui ≠ [] := by
  unfold snapshotPlatforms
  dsimp only
  split
  · exact List.cons_ne_nil _ _
  · assumption

theorem budgetBelongsTo_iff {artifact : ArtifactSizeComparison} {platform : Text} :
    budgetBelongsTo artifact.artifactType artifact.name platform = true ↔
      CountsFor platform artifact := by
  unfold budgetBelongsTo CountsFor
  cases artifactPlatform artifact.artifactType artifact.name with
  | none => simp
  | some owner => simp

theorem exists_platformBudgets_iff {ctx : BuildContext} {platform : Text} {budget : SizeBudget} :
    (∃ applied ∈ platformBudgets ctx platform, applied.budget = budget) ↔
      Applies ctx platform budget := by
  unfold platformBudgets Applies
  constructor
  · rintro ⟨applied, hmem, rfl⟩
    rcases List.mem_cons.mp hmem with rfl | hmem
    · exact Or.inl rfl
    · obtain ⟨target, htarget, rfl⟩ := List.mem_map.mp hmem
      obtain ⟨htarget, hkey⟩ := List.mem_filter.mp htarget
      exact Or.inr ⟨target, htarget, of_decide_eq_true hkey, rfl⟩
  · rintro (rfl | ⟨target, htarget, hkey, rfl⟩)
    · exact ⟨_, List.mem_cons_self, rfl⟩
    · refine ⟨⟨target.budget, some target.source⟩, List.mem_cons_of_mem _ ?_, rfl⟩
      exact List.mem_map.mpr
        ⟨target, List.mem_filter.mpr ⟨htarget, decide_eq_true hkey⟩, rfl⟩

/-- A violation shows the artifact that it is about. -/
theorem mem_checkArtifact {budget : SizeBudget} {artifact : ArtifactSizeComparison}
    {violation : BudgetViolation} (h : violation ∈ checkArtifact budget artifact) :
    violation.artifactType = artifact.artifactType ∧ violation.name = artifact.name := by
  unfold checkArtifact at h
  split at h
  · cases h
  · obtain ⟨limit, -, rfl⟩ := List.mem_map.mp h
    exact ⟨rfl, rfl⟩

/-- A check is over budget where an artifact that counts for its platform breaks a budget with mode
fail that applies to it. -/
theorem overBudget_iff {ctx : BuildContext} {sizes : BuildSizeReport} {platform : Text} :
    (platformReport ctx (some sizes) platform).overBudget = true ↔
      ∃ artifact ∈ sizes.artifacts, CountsFor platform artifact ∧
        ∃ budget, Applies ctx platform budget ∧ budget.mode = .fail ∧ Breaks budget artifact := by
  have hany : (platformReport ctx (some sizes) platform).overBudget = true ↔
      ∃ v ∈ platformViolations ctx (some sizes) platform, v.budget.budget.mode = .fail := by
    show (strictestMode _ = .fail && !List.isEmpty _) = true ↔ _
    generalize platformViolations ctx (some sizes) platform = violations
    unfold strictestMode
    cases hfail : violations.any (·.budget.budget.mode = .fail) with
    | false =>
      refine iff_of_false (by simp) fun ⟨v, hv, hmode⟩ => ?_
      have := List.any_eq_false.mp hfail v hv
      exact this (decide_eq_true hmode)
    | true =>
      obtain ⟨v, hv, hmode⟩ := List.any_eq_true.mp hfail
      refine iff_of_true ?_ ⟨v, hv, of_decide_eq_true hmode⟩
      cases violations with
      | nil => cases hv
      | cons first rest => rfl
  rw [hany]
  constructor
  · rintro ⟨v, hv, hmode⟩
    obtain ⟨applied, happlied, hv⟩ := List.mem_flatMap.mp hv
    obtain ⟨violation, hviolation, rfl⟩ := List.mem_map.mp hv
    obtain ⟨hviolation, hbelongs⟩ := List.mem_filter.mp hviolation
    obtain ⟨artifact, hartifact, hviolation⟩ := List.mem_flatMap.mp hviolation
    obtain ⟨htype, hname⟩ := mem_checkArtifact hviolation
    rw [htype, hname, budgetBelongsTo_iff] at hbelongs
    exact ⟨artifact, hartifact, hbelongs, applied.budget,
      exists_platformBudgets_iff.mp ⟨applied, happlied, rfl⟩, hmode,
      List.ne_nil_of_mem hviolation⟩
  · rintro ⟨artifact, hartifact, hcounts, budget, happlies, hmode, hbreaks⟩
    obtain ⟨applied, happlied, rfl⟩ := exists_platformBudgets_iff.mpr happlies
    obtain ⟨violation, hviolation⟩ := List.exists_mem_of_ne_nil _ hbreaks
    obtain ⟨htype, hname⟩ := mem_checkArtifact hviolation
    refine ⟨⟨violation, applied⟩, List.mem_flatMap.mpr ⟨applied, happlied,
      List.mem_map_of_mem (List.mem_filter.mpr ⟨List.mem_flatMap.mpr
        ⟨artifact, hartifact, hviolation⟩, ?_⟩)⟩, hmode⟩
    rw [htype, hname]
    exact budgetBelongsTo_iff.mpr hcounts

/-- More budgets in the file fail no fewer checks. -/
theorem overBudget_mono {ctx : BuildContext} {sizes : BuildSizeReport} {platform : Text}
    {more : List TargetSizeBudget} (hmore : ∀ target ∈ ctx.fileSizeBudgets, target ∈ more)
    (h : (platformReport ctx (some sizes) platform).overBudget = true) :
    (platformReport { ctx with fileSizeBudgets := more } (some sizes) platform).overBudget =
      true := by
  rw [overBudget_iff] at h ⊢
  obtain ⟨artifact, hartifact, hcounts, budget, happlies, hfail⟩ := h
  refine ⟨artifact, hartifact, hcounts, budget, ?_, hfail⟩
  rcases happlies with hpipeline | ⟨target, htarget, hkey⟩
  · exact Or.inl hpipeline
  · exact Or.inr ⟨target, hmore target htarget, hkey⟩

/-! ## No size budget is escaped -/

/-- Every artifact that breaks the pipeline's budget with mode fail leaves a check over budget. -/
def Caught (ctx : BuildContext) (sizes : BuildSizeReport) : Prop :=
  ∀ artifact ∈ sizes.artifacts, ctx.sizeBudget.mode = .fail → Breaks ctx.sizeBudget artifact →
    ∃ report ∈ platformReports ctx (some sizes), report.overBudget = true

/-- What the checks of a build make of the compared sizes of its artifacts. -/
structure ChecksHold (ctx : BuildContext) (sizes : BuildSizeReport) : Prop where
  /-- An artifact of no platform or of one with a check cannot escape the pipeline's budget. -/
  caught : ∀ artifact ∈ sizes.artifacts, ctx.sizeBudget.mode = .fail →
    Breaks ctx.sizeBudget artifact →
    (artifactPlatform artifact.artifactType artifact.name).all (· ∈ ctx.platforms) = true →
    ∃ report ∈ platformReports ctx (some sizes),
      CountsFor report.platform artifact ∧ report.overBudget = true
  /-- Budgets that the file adds turn no check back. -/
  floor : ∀ more, (∀ target ∈ ctx.fileSizeBudgets, target ∈ more) →
    List.Forall₂ (fun before after => before.platform = after.platform ∧
        (before.overBudget = true → after.overBudget = true))
      (platformReports ctx (some sizes))
      (platformReports { ctx with fileSizeBudgets := more } (some sizes))
  /-- A check fails for an artifact that counts for it and a budget that applies to it. -/
  only : ∀ report ∈ platformReports ctx (some sizes), report.overBudget = true →
    ∃ artifact ∈ sizes.artifacts, CountsFor report.platform artifact ∧
      ∃ budget, Applies ctx report.platform budget ∧ budget.mode = .fail ∧ Breaks budget artifact
  /-- A succeeded build posts a failure for exactly the checks that are over budget. -/
  posted : ctx.status = .succeeded → ∀ report ∈ platformReports ctx (some sizes),
    (githubCheckRun ctx report).conclusion =
        some (if report.overBudget then ("failure" : Text) else "success") ∧
      gitlabState ctx.status report.overBudget =
        if report.overBudget then ("failed" : Text) else "success"

/-- The checks of every build hold its artifacts to the size budgets. -/
theorem size_checks_hold (row : BuildRow) (sizes : BuildSizeReport) :
    ChecksHold (loadContext row) sizes := by
  refine ⟨?_, ?_, ?_, ?_⟩
  · intro artifact hartifact hmode hbreaks hlisted
    -- the check of the artifact's platform, or the first one
    obtain ⟨platform, hplatform, hcounts⟩ : ∃ platform ∈ (loadContext row).platforms,
        CountsFor platform artifact := by
      cases howner : artifactPlatform artifact.artifactType artifact.name with
      | none =>
        obtain ⟨platform, hplatform⟩ := List.exists_mem_of_ne_nil _
          (snapshotPlatforms_ne_nil row.selectedPlatforms row.uiPlatforms)
        exact ⟨platform, hplatform, Or.inl howner⟩
      | some owner =>
        rw [howner, Option.all_some] at hlisted
        exact ⟨owner, of_decide_eq_true hlisted, Or.inr howner⟩
    refine ⟨_, List.mem_map_of_mem hplatform, hcounts, overBudget_iff.mpr ?_⟩
    exact ⟨artifact, hartifact, hcounts, _, Or.inl rfl, hmode, hbreaks⟩
  · intro more hmore
    refine List.forall₂_map_left_iff.mpr (List.forall₂_map_right_iff.mpr ?_)
    exact List.forall₂_same.mpr fun platform _ => ⟨rfl, overBudget_mono hmore⟩
  · intro report hreport hover
    obtain ⟨platform, -, rfl⟩ := List.mem_map.mp hreport
    exact overBudget_iff.mp hover
  · intro hstatus report _
    unfold githubCheckRun gitlabState
    rw [hstatus]
    cases report.overBudget <;> exact ⟨rfl, rfl⟩

/-- A succeeded build for Android only, whose pipeline allows an iOS app of a megabyte. -/
def androidOnly : BuildRow where
  pipelineName := "Release"
  status := .succeeded
  selectedPlatforms := some (.arr [.str "android"])
  uiPlatforms := none
  sizeBudget := some ⟨.fail, [⟨"ipa", some (2 ^ 20), none, none⟩]⟩
  fileSizeBudgets := none

/-- The build left an iOS app of two megabytes. -/
def iosApp : BuildSizeReport :=
  ⟨[⟨"a1", "Runner.ipa", "ipa", 2 ^ 21, none, none, none⟩]⟩

theorem not_caught_iosApp : ¬ Caught (loadContext androidOnly) iosApp := by
  intro h
  obtain ⟨report, hreport, hover⟩ := h _ List.mem_cons_self rfl (by decide)
  have hpass : ((platformReports (loadContext androidOnly) (some iosApp)).all
      fun report => !report.overBudget) = true := by decide
  have := List.all_eq_true.mp hpass report hreport
  rw [hover] at this
  cases this

end Sizes

end OoreBuild
