import OoreBuild.PlanUploads

/-!
# The steps of a plan, and plans for some platforms

The steps of a plan are those before the builds, one build per platform and flavor, and those
after them, under distinct names. A plan for some of the platforms is the plan for all of them
without what the others build, upload and limit (`plan_narrows`): its steps around the builds, its
environment and its settings are the same.
-/

namespace OoreBuild

open Text

/-! ## Names of builds -/

/-- The first letters of the titles differ. -/
theorem platformTitle_append_inj {p q : BuildPlatform} {rest rest' : Text}
    (h : platformTitle p ++ rest = platformTitle q ++ rest') : p = q ∧ rest = rest' := by
  have hhead : (platformTitle p).head? = (platformTitle q).head? := by
    have := congrArg List.head? h
    cases p <;> cases q <;> exact this
  have heq : p = q := by
    cases p <;> cases q <;> first | rfl | exact absurd hhead (by decide)
  subst heq
  exact ⟨rfl, List.append_cancel_left h⟩

/-- How a build's name ends. -/
def flavorSuffix : Option Text → Text
  | none => []
  | some flavor => " (" ++ flavor ++ ")"

theorem buildName_eq (target : EffectiveTarget) (flavor : Option Text) :
    buildName target flavor =
      "Build " ++ (platformTitle target.platform ++ flavorSuffix flavor) := by
  unfold buildName flavorSuffix
  cases flavor with
  | none => simp only [List.append_nil]
  | some flavor => simp only [List.append_assoc]

theorem buildName_inj {target other : EffectiveTarget} {flavor flavor' : Option Text}
    (hsome : flavor.isSome = flavor'.isSome)
    (h : buildName target flavor = buildName other flavor') :
    target.platform = other.platform ∧ flavor = flavor' := by
  rw [buildName_eq, buildName_eq] at h
  obtain ⟨hplatform, hrest⟩ := platformTitle_append_inj (List.append_cancel_left h)
  refine ⟨hplatform, ?_⟩
  cases flavor with
  | none =>
    cases flavor' with
    | none => rfl
    | some flavor' => cases hsome
  | some flavor =>
    cases flavor' with
    | none => cases hsome
    | some flavor' =>
      simp only [flavorSuffix, List.append_assoc] at hrest
      exact congrArg some (List.append_cancel_right (List.append_cancel_left hrest))

theorem fst_flavorScopes (flavors : List Text) :
    (flavorScopes flavors).map Prod.fst =
      if flavors.isEmpty then [none] else flavors.map some := by
  unfold flavorScopes
  split
  · rfl
  · rw [List.map_map]
    have hfst : (Prod.fst ∘ fun entry : Text × ℕ => (some entry.1,
        FlavorScope.value (entry.2 + 1) entry.1)) = some ∘ Prod.fst := rfl
    rw [hfst, ← List.map_map, List.zipIdx_map_fst]

/-- Distinct platforms and flavors have distinct builds. -/
theorem builtSteps_nodup {vars : List (Text × Text)} {flavors : List Text}
    {targets : List EffectiveTarget} (hflavors : flavors.Nodup)
    (htargets : (targets.map EffectiveTarget.platform).Nodup) :
    ((builtSteps vars (flavorScopes flavors) targets).map PlanStep.name).Nodup := by
  have hscopes : ((flavorScopes flavors).map Prod.fst).Nodup := by
    rw [fst_flavorScopes]
    split
    · exact List.nodup_singleton none
    · exact hflavors.map (Option.some_injective _)
  have hsome : ∀ f ∈ flavorScopes flavors, ∀ f' ∈ flavorScopes flavors,
      f.1.isSome = f'.1.isSome := by
    have hall : ∀ f ∈ flavorScopes flavors, f.1.isSome = !flavors.isEmpty := by
      intro f hf
      have hmem := List.mem_map_of_mem (f := Prod.fst) hf
      rw [fst_flavorScopes] at hmem
      split at hmem
      · rename_i hempty
        rw [List.mem_singleton.mp hmem, hempty]
        rfl
      · rename_i hempty
        obtain ⟨flavor, -, heq⟩ := List.mem_map.mp hmem
        rw [← heq]
        simpa using hempty
    intro f hf f' hf'
    rw [hall f hf, hall f' hf']
  unfold builtSteps
  rw [List.map_flatMap, List.nodup_flatMap]
  constructor
  · intro target _
    rw [List.map_map]
    refine List.Nodup.map_on (fun f hf f' hf' heq => ?_) hscopes.of_map
    have hfst := (buildName_inj (hsome f hf f' hf') heq).2
    exact List.inj_on_of_nodup_map hscopes hf hf' hfst
  · rw [List.Nodup, List.pairwise_map] at htargets
    refine htargets.imp fun {target other} hne => ?_
    intro name hname hname'
    dsimp only at hname hname'
    rw [List.map_map] at hname hname'
    obtain ⟨f, hf, rfl⟩ := List.mem_map.mp hname
    obtain ⟨f', hf', heq⟩ := List.mem_map.mp hname'
    exact hne (buildName_inj (hsome f' hf' f hf) heq).1.symm

/-! ## Flavors and targets of an accepted file -/

theorem nodup_of_checkFlavorsFrom {path : Text} {allowed : Option (List Text)} {index : ℕ}
    {seen flavors : List Text} (h : checkFlavorsFrom path allowed index seen flavors = []) :
    flavors.Nodup ∧ ∀ flavor ∈ flavors, flavor ∉ seen := by
  induction flavors generalizing index seen with
  | nil => exact ⟨List.nodup_nil, nofun⟩
  | cons flavor rest ih =>
    unfold checkFlavorsFrom at h
    split at h
    · cases h
    · split at h
      · cases h
      · rename_i hseen
        obtain ⟨hnodup, hapart⟩ := ih (List.append_eq_nil_iff.mp h).2
        refine ⟨List.nodup_cons.mpr ⟨fun hmem => hapart flavor hmem List.mem_cons_self, hnodup⟩, ?_⟩
        intro other hother
        rcases List.mem_cons.mp hother with rfl | hother
        · exact hseen
        · exact fun hmem => hapart other hother (List.mem_cons_of_mem _ hmem)

variable {config : ConfigV2} {selected : Selected}

theorem mem_of_selectWorkflow {workflow : Option Text}
    (h : config.selectWorkflow workflow = .ok selected) :
    ∀ entry, selected = some entry → entry ∈ config.workflows.entries := by
  rintro entry rfl
  unfold ConfigV2.selectWorkflow at h
  split at h
  · split at h
    · rename_i hfind
      cases h
      exact List.mem_of_find?_eq_some hfind
    · split at h <;> cases h
  · split at h
    · cases h
    · rename_i hentries
      cases h
      rw [hentries]
      exact List.mem_singleton_self _
    · cases h

theorem workflowFlavors_nodup (hshape : config.shapeErrors = [])
    (hmem : ∀ entry, selected = some entry → entry ∈ config.workflows.entries) :
    (workflowFlavors config selected).Nodup := by
  simp only [ConfigV2.shapeErrors, List.append_eq_nil_iff] at hshape
  obtain ⟨⟨⟨⟨⟨⟨⟨⟨⟨⟨-, hflavors⟩, -⟩, -⟩, -⟩, -⟩, -⟩, -⟩, hworkflows⟩, -⟩, -⟩ := hshape
  unfold workflowFlavors
  cases hown : selected.bind fun entry => entry.2.flavors with
  | none => exact (nodup_of_checkFlavorsFrom (List.append_eq_nil_iff.mp hflavors).1).1
  | some flavors =>
    obtain ⟨⟨name, workflow⟩, rfl, hflavors'⟩ := Option.bind_eq_some_iff.mp hown
    have hcheck := List.flatMap_eq_nil_iff.mp hworkflows _ (hmem (name, workflow) rfl)
    simp only [ConfigV2.checkWorkflow, List.append_eq_nil_iff] at hcheck
    obtain ⟨⟨⟨⟨⟨⟨-, -⟩, -⟩, hlist⟩, -⟩, -⟩, -⟩ := hcheck
    rw [hflavors'] at hlist
    exact (nodup_of_checkFlavorsFrom (List.append_eq_nil_iff.mp hlist).1).1

/-- Google Play takes Android builds. -/
theorem android_of_checkPublish {path : Text} {platform : BuildPlatform} {publish : PublishSpec}
    (h : checkPublish path platform publish = []) (hplay : publish.play.isSome) :
    platform = .android := by
  simp only [checkPublish, List.append_eq_nil_iff] at h
  obtain ⟨⟨⟨⟨hplayCheck, -⟩, -⟩, -⟩, -⟩ := h
  obtain ⟨play, hsome⟩ := Option.isSome_iff_exists.mp hplay
  rw [hsome] at hplayCheck
  simp only [Option.elim_some, checkPlay, List.append_eq_nil_iff] at hplayCheck
  simpa [errorIf_eq_nil] using hplayCheck.1.1

/-- The platform whose builds a store takes. -/
theorem EffectiveTarget.Checked.upload_platform {target : EffectiveTarget} (h : target.Checked)
    {α β : Type} {store : PublishSpec → Option α} {platform : BuildPlatform}
    (hstore : ∀ path platform' publish, checkPublish path platform' publish = [] →
      (store publish).isSome → platform' = platform) {flavors : List Text} {flavorsPath : Text}
    {make : Text → Option Text → α → β}
    (huses : (target.upload store flavors flavorsPath make).isSome) :
    target.platform = platform := by
  obtain ⟨upload, hupload⟩ := Option.isSome_iff_exists.mp huses
  obtain ⟨⟨publish, source⟩, hpublish, hmake⟩ := Option.bind_eq_some_iff.mp hupload
  obtain ⟨spec, hspec, -⟩ := Option.map_eq_some_iff.mp hmake
  obtain ⟨path, hcheck⟩ := h publish source hpublish
  exact hstore path _ publish hcheck (by rw [hspec]; rfl)

theorem uploads_eq_nil {target : EffectiveTarget} (h : target.Checked)
    (handroid : target.platform ≠ .android) (hios : target.platform ≠ .ios) :
    target.uploads = [] := by
  unfold EffectiveTarget.uploads
  cases hpublish : target.publish with
  | none => rfl
  | some entry =>
    obtain ⟨publish, source⟩ := entry
    obtain ⟨path, hcheck⟩ := h publish source hpublish
    have hplay : publish.play = none := by
      by_contra hne
      exact handroid (android_of_checkPublish hcheck (Option.isSome_iff_ne_none.mpr hne))
    have htestflight : publish.testflight = none := by
      by_contra hne
      exact hios (ios_of_checkPublish hcheck (by simp [Option.isSome_iff_ne_none.mpr hne]))
    have happStore : publish.appStore = none := by
      by_contra hne
      exact hios (ios_of_checkPublish hcheck (by simp [Option.isSome_iff_ne_none.mpr hne]))
    simp [hplay, htestflight, happStore]

/-! ## What a plan is -/

theorem allSettled_fresh (vars : List (Text × Text)) : AllSettled vars ⟨.fresh, []⟩ := by
  intro scope _ name resolved hlookup
  cases hlookup

/-- The field that sets the flavors of the workflow. -/
def flavorsPath (selected : Selected) : Text :=
  if (selected.bind fun entry => entry.2.flavors).isSome then workflowPrefix selected ++ "flavors"
  else "app.flavors"

/-- The vars of the workflow. -/
def varsFor (config : ConfigV2) (selected : Selected) : List (Text × Text) :=
  varsOf (varSettings config selected)

/-- The builds of these targets. -/
def buildsFor (config : ConfigV2) (selected : Selected) (targets : List EffectiveTarget) :
    List PlanStep :=
  builtSteps (varsFor config selected) (flavorScopes (workflowFlavors config selected)) targets

/-- What is lowered for these targets, with these uploads. -/
def loweredFor (config : ConfigV2) (selected : Selected) (publish : PlanPublish)
    (targets : List EffectiveTarget) : Lowered where
  publish := publish
  steps := workflowSteps (varsFor config selected) config selected
    (buildsFor config selected targets)
  env := (envSettings config selected).map (envValue (varsFor config selected))
  artifacts := distinctPatterns (varsFor config selected)
    (flavorScopes (workflowFlavors config selected)) targets

theorem lowerTargets_eq {targets : List EffectiveTarget} {lowered : Lowered} {s' : LowerState}
    (hflavors : (workflowFlavors config selected).Nodup)
    (htargets : (targets.map EffectiveTarget.platform).Nodup)
    (h : lowerTargets config selected (varsFor config selected) targets (LowerState.start .fresh) =
      (.ok lowered, s')) :
    ∃ publish, SamePublish publish (publishOf (varsFor config selected)
        (workflowFlavors config selected) (flavorsPath selected) targets) ∧
      lowered = loweredFor config selected publish targets ∧
      (lowered.steps.map PlanStep.name).Nodup := by
  have hclean := lowerTargets_clean h
  have hparts : lowerTargets config selected (varsFor config selected) targets =
      planPublish (varsFor config selected) (workflowFlavors config selected)
        (flavorsPath selected) targets >>= fun publish =>
        lowerRest config selected (varsFor config selected) publish targets := rfl
  rw [hparts] at h
  obtain ⟨publish, s₁, hpublish, hrest⟩ := Run.bind_eq_ok_iff.mp h
  have hnone : SamePublish .none .none := ⟨rfl, rfl, .none⟩
  obtain ⟨hsame, hsettled⟩ := planPublish_same targets (allSettled_fresh (varsFor config selected))
    hnone hpublish
  obtain ⟨⟨rfl, hnames⟩, -⟩ := lowerRest_gives config selected publish targets
    (builtSteps_nodup hflavors htargets) s₁ lowered s' hsettled hclean hrest
  refine ⟨publish, ?_, rfl, hnames⟩
  simpa [PlanPublish.over, PlanPublish.none] using hsame

theorem selectPlatforms_eq {targets chosen : List EffectiveTarget}
    {platforms : Option (List BuildPlatform)} (h : selectPlatforms targets platforms = (chosen, [])) :
    chosen = targets.filter fun target => platforms.all (·.contains target.platform) := by
  unfold selectPlatforms at h
  split at h
  · cases h
    simp
  · split at h
    · cases h
    · split at h
      · cases h
      · cases h
        rfl

/-- What lowering for a plan without errors comes to. -/
theorem lower_planned {workflow : Option Text} {platforms : Option (List BuildPlatform)}
    {plan : PipelinePlan} {s' : LowerState} (hselect : config.selectWorkflow workflow = .ok selected)
    (h : config.lower workflow platforms false (LowerState.start .fresh) = (.ok plan, s')) :
    (effectiveTargets config selected).2 = [] ∧ ∃ targets lowered s₁,
      selectPlatforms (effectiveTargets config selected).1 platforms = (targets, []) ∧
      lowerTargets config selected (varsFor config selected) targets (LowerState.start .fresh) =
        (.ok lowered, s₁) ∧
      plan = planOf config selected targets lowered := by
  obtain ⟨s₁, lowered, hvalidate, -, hmissing, hselection, hlowered, rfl⟩ :=
    (lower_eq_ok hselect).mp h
  cases hvalidate
  exact ⟨hmissing, _, lowered, s', Prod.ext rfl hselection, hlowered, rfl⟩

theorem lower_of_plan {workflow : Option Text} {platforms : Option (List BuildPlatform)}
    {plan : PipelinePlan} (h : config.plan workflow platforms = .ok plan) :
    ∃ s', config.lower workflow platforms false (LowerState.start .fresh) = (.ok plan, s') := by
  unfold ConfigV2.plan at h
  rcases hlower : config.lower workflow platforms false (LowerState.start .fresh) with ⟨result, s'⟩
  rw [hlower] at h
  cases result with
  | error errors => cases h
  | ok plan' =>
    cases h
    exact ⟨s', rfl⟩

theorem selected_of_plan {workflow : Option Text} {platforms : Option (List BuildPlatform)}
    {plan : PipelinePlan} (h : config.plan workflow platforms = .ok plan) :
    ∃ selected, config.selectWorkflow workflow = .ok selected := by
  obtain ⟨s', hlower⟩ := lower_of_plan h
  cases hselect : config.selectWorkflow workflow with
  | ok selected => exact ⟨selected, rfl⟩
  | error error =>
    unfold ConfigV2.lower at hlower
    rw [hselect] at hlower
    cases hlower

/-- The targets of a plan. -/
def keptTargets (config : ConfigV2) (selected : Selected)
    (platforms : Option (List BuildPlatform)) : List EffectiveTarget :=
  (effectiveTargets config selected).1.filter fun target =>
    platforms.all (·.contains target.platform)

/-- The targets of a workflow were checked, and are one for each platform. -/
structure SoundTargets (targets : List EffectiveTarget) : Prop where
  nodup : (targets.map EffectiveTarget.platform).Nodup
  checked : ∀ target ∈ targets, target.Checked

theorem soundTargets {workflow : Option Text} (hchecked : config.TargetsChecked)
    (hselect : config.selectWorkflow workflow = .ok selected)
    (hmissing : (effectiveTargets config selected).2 = []) :
    SoundTargets (effectiveTargets config selected).1 := by
  obtain ⟨hall, huploads⟩ := effectiveTargets_platforms hchecked hmissing
    (mem_of_selectWorkflow hselect)
  exact ⟨hall ▸ OrderedMap.nodup _, huploads⟩

theorem SoundTargets.filter {targets : List EffectiveTarget} (h : SoundTargets targets)
    (keep : EffectiveTarget → Bool) : SoundTargets (targets.filter keep) :=
  ⟨h.nodup.sublist (List.filter_sublist.map _), fun target htarget =>
    h.checked target (List.mem_of_mem_filter htarget)⟩

/-- A plan of an accepted file is what its targets, steps and settings expand to. -/
theorem plan_eq {workflow : Option Text} {platforms : Option (List BuildPlatform)}
    {plan : PipelinePlan} (hchecked : config.TargetsChecked)
    (hflavors : (workflowFlavors config selected).Nodup)
    (hselect : config.selectWorkflow workflow = .ok selected)
    (h : config.plan workflow platforms = .ok plan) :
    (effectiveTargets config selected).2 = [] ∧
      ∃ publish, SamePublish publish (publishOf (varsFor config selected)
          (workflowFlavors config selected) (flavorsPath selected)
          (keptTargets config selected platforms)) ∧
        plan = planOf config selected (keptTargets config selected platforms)
          (loweredFor config selected publish (keptTargets config selected platforms)) ∧
        (plan.steps.map PlanStep.name).Nodup := by
  obtain ⟨s', hlower⟩ := lower_of_plan h
  obtain ⟨hmissing, targets, lowered, s₁, hselection, hlowered, rfl⟩ :=
    lower_planned hselect hlower
  have htargets : targets = keptTargets config selected platforms := selectPlatforms_eq hselection
  subst htargets
  have hsound := (soundTargets hchecked hselect hmissing).filter
    fun target => platforms.all (·.contains target.platform)
  obtain ⟨publish, hsame, rfl, hnames⟩ := lowerTargets_eq hflavors hsound.nodup hlowered
  exact ⟨hmissing, publish, hsame, rfl, hnames⟩

end OoreBuild
