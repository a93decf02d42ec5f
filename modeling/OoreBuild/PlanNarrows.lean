import OoreBuild.PlanSelection

/-!
# Plans for some of the platforms

The steps of a plan of an accepted file are those before the builds, one build for each of its
platforms and flavors, and those after, under distinct names. Selecting platforms takes away what
the others build, upload, limit and collect, and nothing else (`plan_narrows`).
-/

namespace OoreBuild

open Text

/-! ## What a plan for some platforms is -/

/-- The workflow that a plan is for. -/
def ConfigV2.plannedWorkflow (config : ConfigV2) (workflow : Option Text) : Selected :=
  (config.selectWorkflow workflow).toOption.getD none

/-- The targets of the workflow that are built. -/
def ConfigV2.builtPlatforms (config : ConfigV2) (workflow : Option Text)
    (platforms : Option (List BuildPlatform)) : List BuildPlatform :=
  (((config.plannedWorkflow workflow).bind fun entry => entry.2.targets).getD
    config.targets).keys.filter fun platform => platforms.all (·.contains platform)

/-- The flavors of the workflow: one build without a flavor where there are none. -/
def ConfigV2.builtFlavors (config : ConfigV2) (workflow : Option Text) : List (Option Text) :=
  let flavors := workflowFlavors config (config.plannedWorkflow workflow)
  if flavors.isEmpty then [none] else flavors.map some

/-- The artifact patterns of the selected targets of a workflow, each once. -/
def ConfigV2.patternsFor (config : ConfigV2) (workflow : Option Text)
    (platforms : Option (List BuildPlatform)) : List Text :=
  let selected := config.plannedWorkflow workflow
  distinctPatterns (varsFor config selected) (flavorScopes (workflowFlavors config selected))
    (keptTargets config selected platforms)

/-- Steps before the builds, one build per platform and flavor in this order, and steps after
them, under distinct names. -/
structure PipelinePlan.PlacesBuilds (plan : PipelinePlan) (platforms : List BuildPlatform)
    (flavors : List (Option Text)) : Prop where
  placed : ∃ before builds after, plan.steps = before ++ builds ++ after ∧
    (∀ step ∈ before, step.phase = .preBuild) ∧ (∀ step ∈ builds, step.phase = .build) ∧
    (∀ step ∈ after, step.phase = .postBuild) ∧
    builds.map (fun step => (step.platform, step.flavor)) =
      platforms.flatMap fun platform => flavors.map fun flavor => (some platform, flavor)
  names : (plan.steps.map PlanStep.name).Nodup

/-- The uploads of these platforms. -/
def PlanPublish.restrict (publish : PlanPublish) (chosen : List BuildPlatform) : PlanPublish where
  play := if .android ∈ chosen then publish.play else Option.none
  testflight := if .ios ∈ chosen then publish.testflight else Option.none
  appStore := if .ios ∈ chosen then publish.appStore else Option.none

/-- The second plan is the first one for these platforms. -/
structure PipelinePlan.Narrowed (whole plan : PipelinePlan) (chosen : List BuildPlatform) :
    Prop where
  platforms : plan.platforms = whole.platforms.filter chosen.contains
  steps : plan.steps = whole.steps.filter fun step => step.platform.all chosen.contains
  sizeBudgets : plan.sizeBudgets =
    whole.sizeBudgets.filter fun budget => chosen.contains budget.platform
  publish : SamePublish plan.publish (whole.publish.restrict chosen)
  patterns : plan.artifactPatterns ⊆ whole.artifactPatterns
  rest : plan = { whole with
    platforms := plan.platforms, steps := plan.steps, sizeBudgets := plan.sizeBudgets
    publish := plan.publish, artifactPatterns := plan.artifactPatterns }

/-! ## Steps -/

section Steps

variable {vars : List (Text × Text)}

theorem phase_of_mem_entrySteps {shared : List StepEntry} {entriesPath : Text} {phase : StepPhase}
    {entries : List (StepEntry × ℕ)} {step : PlanStep}
    (h : step ∈ entrySteps vars shared entriesPath phase entries) :
    step.phase = phase ∧ step.platform = none := by
  obtain ⟨entry, -, hstep⟩ := List.mem_filterMap.mp h
  obtain ⟨found, -, rfl⟩ := Option.map_eq_some_iff.mp hstep
  exact ⟨rfl, rfl⟩

theorem builtSteps_flavors (flavors : List Text) (targets : List EffectiveTarget) :
    (builtSteps vars (flavorScopes flavors) targets).map
        (fun step => (step.platform, step.flavor)) =
      (targets.map EffectiveTarget.platform).flatMap fun platform =>
        (if flavors.isEmpty then [none] else flavors.map some).map fun flavor =>
          (some platform, flavor) := by
  rw [← fst_flavorScopes, builtSteps, List.map_flatMap, List.flatMap_map]
  simp only [List.map_map]
  rfl

theorem filter_entrySteps {shared : List StepEntry} {entriesPath : Text} {phase : StepPhase}
    (entries : List (StepEntry × ℕ)) (chosen : List BuildPlatform) :
    (entrySteps vars shared entriesPath phase entries).filter
        (fun step => step.platform.all chosen.contains) =
      entrySteps vars shared entriesPath phase entries := by
  refine List.filter_eq_self.mpr fun step hstep => ?_
  rw [(phase_of_mem_entrySteps hstep).2]
  rfl

theorem filter_platform_cons (chosen : List BuildPlatform) (target : EffectiveTarget)
    (rest : List EffectiveTarget) :
    (target :: rest).filter (fun target => chosen.contains target.platform) =
      if chosen.contains target.platform then
        target :: rest.filter fun target => chosen.contains target.platform
      else rest.filter fun target => chosen.contains target.platform :=
  List.filter_cons

theorem filter_builtSteps (scopes : List (Option Text × FlavorScope))
    (targets : List EffectiveTarget) (chosen : List BuildPlatform) :
    (builtSteps vars scopes targets).filter (fun step => step.platform.all chosen.contains) =
      builtSteps vars scopes (targets.filter fun target => chosen.contains target.platform) := by
  induction targets with
  | nil => rfl
  | cons target rest ih =>
    have hbuild : ∀ flavor, (buildStep vars target flavor).platform.all chosen.contains =
        chosen.contains target.platform := fun flavor => rfl
    unfold builtSteps at ih ⊢
    rw [List.flatMap_cons, List.filter_append, ih, filter_platform_cons]
    cases hkeep : chosen.contains target.platform with
    | true =>
      rw [if_pos rfl, List.flatMap_cons, List.filter_eq_self.mpr]
      intro step hstep
      obtain ⟨flavor, -, rfl⟩ := List.mem_map.mp hstep
      rw [hbuild, hkeep]
    | false =>
      rw [if_neg Bool.false_ne_true, List.filter_eq_nil_iff.mpr, List.nil_append]
      intro step hstep
      obtain ⟨flavor, -, rfl⟩ := List.mem_map.mp hstep
      rw [hbuild, hkeep]
      exact Bool.false_ne_true

theorem filter_workflowSteps (config : ConfigV2) (selected : Selected) (builds : List PlanStep)
    (chosen : List BuildPlatform) :
    (workflowSteps vars config selected builds).filter
        (fun step => step.platform.all chosen.contains) =
      workflowSteps vars config selected
        (builds.filter fun step => step.platform.all chosen.contains) := by
  unfold workflowSteps placedSteps
  rw [List.filter_append, List.filter_append, filter_entrySteps, filter_entrySteps]

end Steps

/-! ## Uploads and patterns -/

theorem lastUpload_filter {β : Type} {f : EffectiveTarget → Option β} {platform : BuildPlatform}
    {targets : List EffectiveTarget} (chosen : List BuildPlatform)
    (hf : ∀ target ∈ targets, (f target).isSome → target.platform = platform) :
    lastUpload f (targets.filter fun target => chosen.contains target.platform) =
      if platform ∈ chosen then lastUpload f targets else none := by
  induction targets with
  | nil => simp
  | cons target rest ih =>
    have ih := ih fun target htarget => hf target (List.mem_cons_of_mem _ htarget)
    rw [filter_platform_cons, lastUpload_cons]
    cases hsome : f target with
    | none =>
      rw [Option.or_none, ← ih]
      split
      · rw [lastUpload_cons, hsome, Option.or_none]
      · rfl
    | some upload =>
      have hplatform := hf target List.mem_cons_self (by rw [hsome]; rfl)
      rw [hplatform]
      by_cases hchosen : platform ∈ chosen
      · rw [if_pos hchosen] at ih ⊢
        rw [if_pos (List.contains_iff_mem.mpr hchosen), lastUpload_cons, ih, hsome]
      · rw [if_neg hchosen] at ih ⊢
        rw [if_neg fun h => hchosen (List.contains_iff_mem.mp h), ih]

/-- The uploads of the selected targets are those of all, for their platforms. -/
theorem publishOf_filter {vars : List (Text × Text)} {targets : List EffectiveTarget}
    (h : SoundTargets targets) (flavors : List Text) (flavorsPath : Text)
    (chosen : List BuildPlatform) :
    publishOf vars flavors flavorsPath
        (targets.filter fun target => chosen.contains target.platform) =
      (publishOf vars flavors flavorsPath targets).restrict chosen := by
  have hplay : ∀ target ∈ targets,
      (target.upload PublishSpec.play flavors flavorsPath (playUpload vars)).isSome →
        target.platform = .android := fun target htarget =>
    (h.checked target htarget).upload_platform fun _ _ _ => android_of_checkPublish
  have htestflight : ∀ target ∈ targets,
      (target.upload PublishSpec.testflight flavors flavorsPath (testflightUpload vars)).isSome →
        target.platform = .ios := fun target htarget =>
    (h.checked target htarget).upload_platform fun _ _ _ hcheck htestflight =>
      ios_of_checkPublish hcheck (by simp [htestflight])
  have happStore : ∀ target ∈ targets,
      (target.upload PublishSpec.appStore flavors flavorsPath (appStoreUpload vars)).isSome →
        target.platform = .ios := fun target htarget =>
    (h.checked target htarget).upload_platform fun _ _ _ hcheck happStore =>
      ios_of_checkPublish hcheck (by simp [happStore])
  unfold publishOf PlanPublish.restrict
  rw [lastUpload_filter chosen hplay, lastUpload_filter chosen htestflight,
    lastUpload_filter chosen happStore]

theorem mem_foldl_addOnce {pattern : Text} (patterns found : List Text) :
    pattern ∈ patterns.foldl addOnce found ↔ pattern ∈ found ∨ pattern ∈ patterns := by
  induction patterns generalizing found with
  | nil => simp
  | cons first rest ih =>
    rw [List.foldl_cons, ih, addOnce]
    split
    · rename_i hmem
      constructor
      · exact Or.imp_right (List.mem_cons_of_mem _)
      · rintro (hfound | hcons)
        · exact .inl hfound
        · rcases List.mem_cons.mp hcons with rfl | hrest
          · exact .inl hmem
          · exact .inr hrest
    · rw [List.mem_append, List.mem_singleton, List.mem_cons, or_assoc]

/-! ## Limits -/

theorem flatMap_filter_of_nil {α β : Type} {f : α → List β} {keep : α → Bool} {l : List α}
    (h : ∀ a ∈ l, keep a = false → f a = []) : (l.filter keep).flatMap f = l.flatMap f := by
  induction l with
  | nil => rfl
  | cons a rest ih =>
    have ih := ih fun a ha => h a (List.mem_cons_of_mem _ ha)
    cases hkeep : keep a with
    | true => rw [List.filter_cons_of_pos hkeep, List.flatMap_cons, List.flatMap_cons, ih]
    | false =>
      rw [List.filter_cons_of_neg (by simp [hkeep]), List.flatMap_cons,
        h a List.mem_cons_self hkeep, ih, List.nil_append]

theorem ios_of_usesAppStore {target : EffectiveTarget} (h : target.Checked)
    (huses : target.usesAppStore = true) : target.platform = .ios := by
  unfold EffectiveTarget.usesAppStore at huses
  cases hpublish : target.publish with
  | none => simp [hpublish] at huses
  | some entry =>
    obtain ⟨publish, source⟩ := entry
    obtain ⟨path, hcheck⟩ := h publish source hpublish
    have happStore : publish.appStore.isSome = true := by simpa [hpublish] using huses
    exact ios_of_checkPublish hcheck (by simp [happStore])

/-- A track over a limit for some of the targets is over it for all: what comes before it beside
the App Store upload uploads nothing. -/
theorem trackOverLimit_of_filter {vars : List (Text × Text)} {targets : List EffectiveTarget}
    (hsound : SoundTargets targets) {keep : EffectiveTarget → Bool}
    (h : TrackOverLimit vars (targets.filter keep)) : TrackOverLimit vars targets := by
  obtain ⟨kept, target, after, spec, path, play, error, heq, hany, hpublish, hplay, herror,
    hover⟩ := h
  obtain ⟨before, rest, rfl, rfl, hrest⟩ := List.filter_eq_append_iff.mp heq
  obtain ⟨between, after', rfl, hbetween, htarget, rfl⟩ := List.filter_eq_cons_iff.mp hrest
  obtain ⟨store, hstore, huses⟩ := List.any_eq_true.mp hany
  obtain ⟨hbefore, hkept⟩ := List.mem_filter.mp hstore
  have hios : store.platform = .ios :=
    ios_of_usesAppStore (hsound.checked store (by simp [hbefore])) huses
  have handroid : target.platform = .android := by
    obtain ⟨path', hcheck⟩ := hsound.checked target (by simp) spec path hpublish
    exact android_of_checkPublish hcheck (by rw [hplay]; rfl)
  have hdropped : ∀ other ∈ before ++ between, keep other = false → other.uploads = [] := by
    intro other hother hdrop
    have hmem : other ∈ before ++ (between ++ target :: after') := by
      rw [← List.append_assoc]
      exact List.mem_append_left _ hother
    have hapart : ∀ kept ∈ before ++ (between ++ target :: after'), keep kept = true →
        other.platform ≠ kept.platform := by
      intro kept hmem' hkeep hsame
      rw [List.inj_on_of_nodup_map hsound.nodup hmem hmem' hsame, hkeep] at hdrop
      cases hdrop
    refine uploads_eq_nil (hsound.checked other hmem) ?_ ?_
    · rw [← handroid]
      exact hapart target (by simp) htarget
    · rw [← hios]
      exact hapart store (by simp [hbefore]) hkept
  have hdrop : between.filter keep = [] := List.filter_eq_nil_iff.mpr hbetween
  refine ⟨before ++ between, target, after', spec, path, play, error, ?_, ?_, hpublish, hplay, ?_,
    hover⟩
  · rw [List.append_assoc]
  · exact List.any_eq_true.mpr ⟨store, List.mem_append_left _ hbefore, huses⟩
  · rw [← flatMap_filter_of_nil hdropped, List.filter_append, hdrop, List.append_nil]
    exact herror

/-! ## Plans -/

section Plans

variable {config : ConfigV2} {selected : Selected}

theorem plannedWorkflow_eq {workflow : Option Text}
    (hselect : config.selectWorkflow workflow = .ok selected) :
    config.plannedWorkflow workflow = selected := by
  rw [ConfigV2.plannedWorkflow, hselect]
  rfl

theorem phase_of_mem_builtSteps {vars : List (Text × Text)}
    {scopes : List (Option Text × FlavorScope)} {targets : List EffectiveTarget} {step : PlanStep}
    (h : step ∈ builtSteps vars scopes targets) : step.phase = .build := by
  obtain ⟨target, -, hstep⟩ := List.mem_flatMap.mp h
  obtain ⟨flavor, -, rfl⟩ := List.mem_map.mp hstep
  rfl

/-- A plan has the builds of its targets between the steps around them. -/
theorem plan_placed {workflow : Option Text} {platforms : Option (List BuildPlatform)}
    {plan : PipelinePlan} (hchecked : config.TargetsChecked)
    (hflavors : ∀ selected, config.selectWorkflow workflow = .ok selected →
      (workflowFlavors config selected).Nodup)
    (h : config.plan workflow platforms = .ok plan) :
    plan.platforms = config.builtPlatforms workflow platforms ∧
      plan.PlacesBuilds plan.platforms (config.builtFlavors workflow) ∧
      plan.artifactPatterns = config.patternsFor workflow platforms := by
  obtain ⟨selected, hselect⟩ := selected_of_plan h
  obtain ⟨hmissing, publish, -, rfl, hnames⟩ := plan_eq hchecked (hflavors _ hselect) hselect h
  have hplanned := plannedWorkflow_eq hselect
  refine ⟨?_, ⟨?_, hnames⟩, ?_⟩
  · obtain ⟨hall, -⟩ := effectiveTargets_platforms hchecked hmissing (mem_of_selectWorkflow hselect)
    rw [ConfigV2.builtPlatforms, hplanned, ← hall, List.filter_map]
    rfl
  · refine ⟨_, buildsFor config selected (keptTargets config selected platforms), _, rfl, ?_, ?_, ?_,
      ?_⟩
    · exact fun step hstep => (phase_of_mem_entrySteps hstep).1
    · exact fun step hstep => phase_of_mem_builtSteps hstep
    · exact fun step hstep => (phase_of_mem_entrySteps hstep).1
    · rw [ConfigV2.builtFlavors, hplanned]
      exact builtSteps_flavors _ _
  · rw [ConfigV2.patternsFor, hplanned]
    rfl

/-- Where the plan for all targets is made, so is the one for some of them. -/
theorem plan_of_whole {workflow : Option Text} {whole : PipelinePlan} {chosen : List BuildPlatform}
    (hchecked : config.TargetsChecked) (hwhole : config.plan workflow none = .ok whole)
    (hne : chosen ≠ []) (hnodup : chosen.Nodup) (hsub : chosen ⊆ whole.platforms) :
    ∃ plan, config.plan workflow (some chosen) = .ok plan := by
  obtain ⟨selected, hselect⟩ := selected_of_plan hwhole
  obtain ⟨s', hlower⟩ := lower_of_plan hwhole
  obtain ⟨hmissing, targets, lowered, s₁, hselection, hlowered, rfl⟩ :=
    lower_planned hselect hlower
  have hall : targets = (effectiveTargets config selected).1 := (Prod.mk.inj hselection).1.symm
  subst hall
  have hsound := soundTargets hchecked hselect hmissing
  have horder := pairwise_of_fits hsound.nodup fun target htarget =>
    (hsound.checked target htarget).fits
  obtain ⟨keep, hkept⟩ := selectPlatforms_of_subset (effectiveTargets config selected).1
    (some chosen) (by
      rintro _ ⟨⟩
      exact ⟨hne, hnodup, hsub⟩)
  have hlimit : ¬ TrackOverLimit (varsFor config selected)
      ((effectiveTargets config selected).1.filter keep) := by
    intro hover
    obtain ⟨publish, t, hpublish, -⟩ := Run.bind_eq_ok_iff.mp hlowered
    exact planPublish_not_ok (trackOverLimit_of_filter hsound hover) hpublish
  have hfresh : Trails (varsFor config selected) (LowerState.start .fresh).work ⟨.fresh, []⟩ :=
    trails_fresh (Std.Refl.refl _)
  obtain ⟨lowered', t', hlowered'⟩ := lowerTargets_both (s := LowerState.start .fresh) rfl hfresh
    horder hlimit hlowered
  have hlower' := (lower_some hselect hmissing hkept).trans (Run.bind_of_ok hlowered')
  exact plan_eq_ok.mpr ⟨_, t', hlower'⟩

theorem keptTargets_none : keptTargets config selected none = (effectiveTargets config selected).1 :=
  List.filter_eq_self.mpr fun _ _ => rfl

theorem keptTargets_some (chosen : List BuildPlatform) :
    keptTargets config selected (some chosen) =
      (keptTargets config selected none).filter fun target => chosen.contains target.platform := by
  rw [keptTargets_none]
  rfl

theorem SamePublish.restrict {publish other : PlanPublish} (h : SamePublish publish other)
    (chosen : List BuildPlatform) : SamePublish (publish.restrict chosen) (other.restrict chosen) := by
  unfold PlanPublish.restrict
  rw [h.play, h.testflight]
  refine ⟨rfl, rfl, ?_⟩
  dsimp only
  split
  · exact h.appStore
  · exact .none

theorem distinctPatterns_filter (vars : List (Text × Text))
    (scopes : List (Option Text × FlavorScope)) (targets : List EffectiveTarget)
    (keep : EffectiveTarget → Bool) :
    distinctPatterns vars scopes (targets.filter keep) ⊆ distinctPatterns vars scopes targets := by
  intro pattern h
  simp only [distinctPatterns, mem_foldl_addOnce, List.not_mem_nil, false_or,
    List.mem_flatMap] at h ⊢
  obtain ⟨target, htarget, hpattern⟩ := h
  exact ⟨target, List.mem_of_mem_filter htarget, hpattern⟩

theorem budgets_filter (targets : List EffectiveTarget) (chosen : List BuildPlatform) :
    (targets.filter fun target => chosen.contains target.platform).filterMap (fun target =>
        target.budgets.map fun (budget, source) =>
          ({ platform := target.platform, source, budget } : TargetSizeBudget)) =
      (targets.filterMap fun target => target.budgets.map fun (budget, source) =>
          ({ platform := target.platform, source, budget } : TargetSizeBudget)).filter
        fun budget => chosen.contains budget.platform := by
  rw [List.filterMap_filter, List.filter_filterMap]
  congr 1
  funext target
  cases target.budgets with
  | none => simp
  | some entry => simp [Option.filter]

/-- The plan for some of the targets is the plan for all of them, narrowed. -/
theorem plan_narrowed {workflow : Option Text} {whole plan : PipelinePlan}
    {chosen : List BuildPlatform} (hchecked : config.TargetsChecked)
    (hflavors : ∀ selected, config.selectWorkflow workflow = .ok selected →
      (workflowFlavors config selected).Nodup)
    (hwhole : config.plan workflow none = .ok whole)
    (hplan : config.plan workflow (some chosen) = .ok plan) : whole.Narrowed plan chosen := by
  obtain ⟨selected, hselect⟩ := selected_of_plan hwhole
  obtain ⟨hmissing, publish, hpublish, rfl, -⟩ :=
    plan_eq hchecked (hflavors _ hselect) hselect hwhole
  obtain ⟨-, publish', hpublish', rfl, -⟩ := plan_eq hchecked (hflavors _ hselect) hselect hplan
  have hsound : SoundTargets (keptTargets config selected none) := by
    rw [keptTargets_none]
    exact soundTargets hchecked hselect hmissing
  rw [keptTargets_some] at hpublish' ⊢
  constructor
  · exact (List.filter_map (f := EffectiveTarget.platform) (p := chosen.contains)).symm
  · exact (congrArg _ (filter_builtSteps _ _ _).symm).trans (filter_workflowSteps _ _ _ _).symm
  · exact budgets_filter _ _
  · rw [publishOf_filter hsound] at hpublish'
    exact hpublish'.trans (hpublish.restrict chosen).symm
  · exact distinctPatterns_filter _ _ _ _
  · rfl

/-- Planning some of the targets of an accepted file takes the builds, uploads, budgets and
patterns of the others away from the plan for all. -/
theorem plan_narrows (file : ConfigV2) {config : ConfigV2} (hparse : file.parse = .ok config)
    (workflow : Option Text) :
    (∀ platforms plan, config.plan workflow platforms = .ok plan →
      plan.platforms = config.builtPlatforms workflow platforms ∧
      plan.PlacesBuilds plan.platforms (config.builtFlavors workflow) ∧
      plan.artifactPatterns = config.patternsFor workflow platforms) ∧
    ∀ whole chosen, config.plan workflow none = .ok whole → chosen ≠ [] → chosen.Nodup →
      chosen ⊆ whole.platforms →
      ∃ plan, config.plan workflow (some chosen) = .ok plan ∧ whole.Narrowed plan chosen := by
  obtain ⟨hshape, -, runsOn, rfl⟩ := parse_eq_ok hparse
  have hchecked : ConfigV2.TargetsChecked { file with runsOn } :=
    ⟨(targetsChecked hshape).topLevel, (targetsChecked hshape).workflow⟩
  have hflavors : ∀ selected, ConfigV2.selectWorkflow { file with runsOn } workflow = .ok selected →
      (workflowFlavors { file with runsOn } selected).Nodup := by
    intro selected hselect
    have hfile : file.selectWorkflow workflow = .ok selected := hselect
    have hnodup : (workflowFlavors file selected).Nodup :=
      workflowFlavors_nodup hshape (mem_of_selectWorkflow hfile)
    exact hnodup
  refine ⟨fun platforms plan hplan => plan_placed hchecked hflavors hplan, ?_⟩
  intro whole chosen hwhole hne hnodup hsub
  obtain ⟨plan, hplan⟩ := plan_of_whole hchecked hwhole hne hnodup hsub
  exact ⟨plan, hplan, plan_narrowed hchecked hflavors hwhole hplan⟩

end Plans

theorem tracksFile_plans : ∃ whole plan, tracksFile.plan none none = .ok whole ∧
    tracksFile.plan none (some [.ios]) = .ok plan ∧ whole.platforms = [.ios, .android] ∧
    whole.artifactPatterns ≠ plan.artifactPatterns := by
  have hplans : (match tracksFile.plan none none, tracksFile.plan none (some [.ios]) with
      | .ok whole, .ok plan => decide (whole.platforms = [.ios, .android]) &&
        decide (whole.artifactPatterns ≠ plan.artifactPatterns)
      | _, _ => false) = true := by
    decide +kernel
  split at hplans
  · rename_i whole plan hwhole hplan
    obtain ⟨hplatforms, hpatterns⟩ := Bool.and_eq_true_iff.mp hplans
    exact ⟨whole, plan, hwhole, hplan, of_decide_eq_true hplatforms, of_decide_eq_true hpatterns⟩
  · cases hplans

theorem plan_narrows_tracksFile : ∃ whole plan, tracksFile.plan none none = .ok whole ∧
    tracksFile.plan none (some [.ios]) = .ok plan ∧ whole.Narrowed plan [.ios] ∧
    plan.PlacesBuilds [.ios] [none] := by
  obtain ⟨whole, -, hwhole, -, hplatforms, -⟩ := tracksFile_plans
  obtain ⟨hplaced, hnarrows⟩ := plan_narrows tracksFile tracksFile_parse none
  obtain ⟨plan, hplan, hnarrowed⟩ := hnarrows whole [.ios] hwhole (by decide) (by decide)
    (by rw [hplatforms]; decide)
  obtain ⟨hbuilt, hbuilds, -⟩ := hplaced _ plan hplan
  have hios : plan.platforms = [.ios] := hbuilt.trans (by decide +kernel)
  rw [hios] at hbuilds
  exact ⟨whole, plan, hwhole, hplan, hnarrowed, hbuilds⟩

/-- The patterns of the other targets go, too. -/
theorem plan_narrows_patterns : ¬ ∀ (file config : ConfigV2) workflow whole plan chosen,
    file.parse = .ok config → config.plan workflow none = .ok whole →
    chosen ≠ [] → chosen.Nodup → chosen ⊆ whole.platforms →
    config.plan workflow (some chosen) = .ok plan →
    plan = { whole with
      platforms := plan.platforms
      steps := whole.steps.filter fun step => step.platform.all chosen.contains
      publish := plan.publish
      sizeBudgets := whole.sizeBudgets.filter fun budget => chosen.contains budget.platform } := by
  intro h
  obtain ⟨whole, plan, hwhole, hplan, hplatforms, hpatterns⟩ := tracksFile_plans
  have hplan' := h tracksFile tracksFile none whole plan [.ios] tracksFile_parse hwhole (by decide)
    (by decide) (by rw [hplatforms]; decide) hplan
  exact hpatterns (congrArg PipelinePlan.artifactPatterns hplan').symm

end OoreBuild
