import OoreBuild.PlanSelection
import OoreBuild.PublishEffect

/-!
# A file without its uploads

Lowering a file without its uploads resolves what lowering the file does, but for the texts of the
uploads. So a problem of an upload decides whether the file lowers only where it reads as a limit,
or where expanding the uploads leaves too little of the budget for the rest (`publishSafe_iff`).
-/

namespace OoreBuild

open Text

/-! ## Removing the uploads -/

def TargetSpec.withoutPublish (spec : TargetSpec) : TargetSpec := { spec with publish := none }

def WorkflowSpec.withoutPublish (spec : WorkflowSpec) : WorkflowSpec :=
  { spec with targets := spec.targets.map (·.mapValues TargetSpec.withoutPublish) }

/-- The file with every `publish` removed. -/
def ConfigV2.withoutPublish (config : ConfigV2) : ConfigV2 :=
  { config with
    targets := config.targets.mapValues TargetSpec.withoutPublish
    workflows := config.workflows.mapValues WorkflowSpec.withoutPublish }

def EffectiveTarget.withoutPublish (target : EffectiveTarget) : EffectiveTarget :=
  { target with publish := none }

def strip (selected : Selected) : Selected :=
  selected.map fun entry => (entry.1, entry.2.withoutPublish)

section Removing

variable (config : ConfigV2) (selected : Selected)

theorem workflowNames_withoutPublish :
    config.withoutPublish.workflowNames = config.workflowNames := by
  change (List.map _ (List.map _ _)) = List.map _ _
  rw [List.map_map]
  rfl

theorem selectWorkflow_withoutPublish (workflow : Option Text) :
    config.withoutPublish.selectWorkflow workflow = (config.selectWorkflow workflow).map strip := by
  unfold ConfigV2.selectWorkflow
  rw [workflowNames_withoutPublish]
  cases workflow with
  | some name =>
    dsimp only
    have hfind : (config.withoutPublish.workflows.entries.find? fun entry => entry.1 = name) = _ :=
      OrderedMap.find?_mapValues WorkflowSpec.withoutPublish config.workflows name
    have hempty : config.withoutPublish.workflows.isEmpty = config.workflows.isEmpty :=
      List.isEmpty_map
    rw [hfind, hempty]
    cases config.workflows.entries.find? fun entry => entry.1 = name with
    | some entry => rfl
    | none =>
      dsimp only [Option.map_none]
      split <;> rfl
  | none =>
    have hentries : config.withoutPublish.workflows.entries =
        config.workflows.entries.map fun entry => (entry.1, entry.2.withoutPublish) := rfl
    dsimp only
    rw [hentries]
    match config.workflows.entries with
    | [] => rfl
    | [entry] => rfl
    | first :: second :: rest => rfl

theorem workflowPrefix_strip : workflowPrefix (strip selected) = workflowPrefix selected := by
  cases selected <;> rfl

theorem varSettings_strip : varSettings config.withoutPublish (strip selected) =
    varSettings config selected := by
  cases selected <;> rfl

theorem envSettings_strip : envSettings config.withoutPublish (strip selected) =
    envSettings config selected := by
  cases selected <;> rfl

theorem workflowFlavors_strip : workflowFlavors config.withoutPublish (strip selected) =
    workflowFlavors config selected := by
  cases selected <;> rfl

theorem topLevelTarget_withoutPublish (entry : BuildPlatform × TargetSpec) :
    topLevelTarget (entry.1, entry.2.withoutPublish) =
      (topLevelTarget entry).map EffectiveTarget.withoutPublish := by
  obtain ⟨platform, spec⟩ := entry
  unfold topLevelTarget
  cases h : spec.build <;> simp [TargetSpec.withoutPublish, h, EffectiveTarget.withoutPublish]

theorem overlaidTarget_withoutPublish (pre : Text) (entry : BuildPlatform × TargetSpec) :
    overlaidTarget config.withoutPublish pre (entry.1, entry.2.withoutPublish) =
      (overlaidTarget config pre entry).map EffectiveTarget.withoutPublish := by
  obtain ⟨platform, spec⟩ := entry
  have hbase : config.withoutPublish.targets.get platform =
      (config.targets.get platform).map TargetSpec.withoutPublish :=
    OrderedMap.get_mapValues _ _ _
  unfold overlaidTarget
  dsimp only
  rw [hbase]
  cases config.targets.get platform with
  | none =>
    dsimp only [Option.map_none, Option.bind_none, TargetSpec.withoutPublish]
    split
    · rfl
    · simp [Except.map, EffectiveTarget.withoutPublish]
  | some base =>
    dsimp only [Option.map_some, Option.bind_some, TargetSpec.withoutPublish]
    split
    · rfl
    · simp [Except.map, EffectiveTarget.withoutPublish]

theorem effectiveTargets_strip :
    effectiveTargets config.withoutPublish (strip selected) =
      ((effectiveTargets config selected).1.map EffectiveTarget.withoutPublish,
        (effectiveTargets config selected).2) := by
  have htargets : ((strip selected).bind fun entry => entry.2.targets) =
      (selected.bind fun entry => entry.2.targets).map
        (·.mapValues TargetSpec.withoutPublish) := by
    cases selected <;> rfl
  unfold effectiveTargets
  rw [htargets, workflowPrefix_strip]
  cases selected.bind fun entry => entry.2.targets with
  | none =>
    have hentries : config.withoutPublish.targets.entries =
        config.targets.entries.map fun entry => (entry.1, entry.2.withoutPublish) := rfl
    dsimp only [Option.map_none]
    rw [hentries, List.filterMap_map, List.map_filterMap]
    simp only [Function.comp_def, topLevelTarget_withoutPublish]
  | some overrides =>
    have hentries : (overrides.mapValues TargetSpec.withoutPublish).entries =
        overrides.entries.map fun entry => (entry.1, entry.2.withoutPublish) := rfl
    dsimp only [Option.map_some]
    rw [hentries, List.map_map]
    simp only [Function.comp_def, overlaidTarget_withoutPublish, List.filterMap_map,
      List.map_filterMap]
    refine Prod.ext ?_ ?_
    · dsimp only
      congr 1
      funext entry
      cases overlaidTarget config (workflowPrefix selected) entry <;> rfl
    · dsimp only
      congr 1
      funext entry
      cases overlaidTarget config (workflowPrefix selected) entry <;> rfl

theorem selectPlatforms_map (targets : List EffectiveTarget)
    (platforms : Option (List BuildPlatform)) :
    selectPlatforms (targets.map EffectiveTarget.withoutPublish) platforms =
      ((selectPlatforms targets platforms).1.map EffectiveTarget.withoutPublish,
        (selectPlatforms targets platforms).2) := by
  have hany : ∀ platform, ((targets.map EffectiveTarget.withoutPublish).any
      fun target => target.platform = platform) =
      targets.any fun target => target.platform = platform := fun _ => List.any_map
  unfold selectPlatforms
  cases platforms with
  | none => rfl
  | some chosen =>
    simp only [hany]
    split
    · rfl
    · split
      · rfl
      · rw [List.filter_map]
        rfl

end Removing

/-! ## Lowering what is left -/

section Lowering

variable {config : ConfigV2} {selected : Selected} {vars : List (Text × Text)}

theorem forEach_map {σ ε α β γ : Type} (f : β → Run σ ε γ) (g : α → β) (l : List α) :
    Run.forEach f (l.map g) = Run.forEach (fun a => f (g a)) l := by
  induction l with
  | nil => rfl
  | cons a rest ih =>
    rw [List.map_cons, Run.forEach, ih]
    rfl

theorem foldEach_map {σ ε α β γ : Type} (f : γ → β → Run σ ε γ) (g : α → β) (l : List α) (b : γ) :
    Run.foldEach f b (l.map g) = Run.foldEach (fun b a => f b (g a)) b l := by
  induction l generalizing b with
  | nil => rfl
  | cons a rest ih =>
    rw [List.map_cons, Run.foldEach]
    simp only [ih]
    rfl

theorem lowerSteps_strip (config : ConfigV2) (selected : Selected) (builds : List PlanStep) :
    lowerSteps vars config.withoutPublish (strip selected) builds =
      lowerSteps vars config selected builds := by
  cases selected <;> rfl

theorem lowerRest_strip (config : ConfigV2) (selected : Selected) (publish : PlanPublish)
    (targets : List EffectiveTarget) :
    lowerRest config.withoutPublish (strip selected) vars publish
        (targets.map EffectiveTarget.withoutPublish) =
      lowerRest config selected vars publish targets := by
  unfold lowerRest lowerBuilds lowerArtifacts
  dsimp only
  simp only [workflowFlavors_strip, envSettings_strip, lowerSteps_strip, forEach_map, foldEach_map]
  rfl

theorem planPublish_strip (flavors : List Text) (flavorsPath : Text)
    (targets : List EffectiveTarget) (publish : PlanPublish) :
    Run.foldEach (publishTarget vars flavors flavorsPath) publish
      (targets.map EffectiveTarget.withoutPublish) = pure publish := by
  induction targets with
  | nil => rfl
  | cons target rest ih => exact ih

theorem lowerTargets_strip (config : ConfigV2) (selected : Selected)
    (targets : List EffectiveTarget) (s : LowerState) :
    lowerTargets config.withoutPublish (strip selected) vars
        (targets.map EffectiveTarget.withoutPublish) s =
      lowerRest config selected vars .none targets s := by
  rw [← lowerRest_strip]
  exact Run.bind_of_ok (congrFun (planPublish_strip _ _ targets .none) s)

theorem planOf_strip (config : ConfigV2) (selected : Selected) (targets : List EffectiveTarget)
    (lowered : Lowered) :
    planOf config.withoutPublish (strip selected) (targets.map EffectiveTarget.withoutPublish)
      lowered = planOf config selected targets lowered := by
  unfold planOf
  rw [List.map_map, List.filterMap_map]
  cases selected <;> rfl

/-- The rest lowers with any uploads. -/
theorem lowerRest_publish {publish : PlanPublish} {targets : List EffectiveTarget}
    {s s' : LowerState} {lowered : Lowered}
    (h : lowerRest config selected vars publish targets s = (.ok lowered, s'))
    (publish' : PlanPublish) :
    lowerRest config selected vars publish' targets s =
      (.ok { lowered with publish := publish' }, s') := by
  obtain ⟨builds, s₁, h₁, hrest⟩ := Run.bind_eq_ok_iff.mp h
  obtain ⟨steps, s₂, h₂, hrest⟩ := Run.bind_eq_ok_iff.mp hrest
  obtain ⟨env, s₃, h₃, hrest⟩ := Run.bind_eq_ok_iff.mp hrest
  obtain ⟨artifacts, s₄, h₄, hrest⟩ := Run.bind_eq_ok_iff.mp hrest
  obtain ⟨_, s₅, h₅, hpure⟩ := Run.bind_eq_ok_iff.mp hrest
  cases hpure
  exact (Run.bind_of_ok h₁).trans ((Run.bind_of_ok h₂).trans ((Run.bind_of_ok h₃).trans
    ((Run.bind_of_ok h₄).trans ((Run.bind_of_ok h₅).trans rfl))))

end Lowering

/-! ## Whether a file lowers -/

/-- Lowering the workflow from this budget gives the plan. -/
def ConfigV2.Lowers (config : ConfigV2) (workflow : Option Text)
    (platforms : Option (List BuildPlatform)) (validate : Bool) (budget : Budget)
    (plan : PipelinePlan) : Prop :=
  (config.lower workflow platforms validate (LowerState.start budget)).1 = .ok plan

/-- The targets that are lowered. -/
def chosenTargets (config : ConfigV2) (selected : Selected)
    (platforms : Option (List BuildPlatform)) : List EffectiveTarget :=
  (selectPlatforms (effectiveTargets config selected).1 platforms).1

/-- The check of the vars. -/
def checkVars (config : ConfigV2) (selected : Selected) (validate : Bool) : LowerM Unit :=
  validateVars (varsFor config selected) (if validate then varSettings config selected else [])

/-- Where the lowering is after the check of the vars. -/
def checked (config : ConfigV2) (selected : Selected) (validate : Bool) (budget : Budget) :
    LowerState :=
  (checkVars config selected validate (LowerState.start budget)).2

/-- The texts of the uploads of the targets. -/
def uploadFields (targets : List EffectiveTarget) : List Field :=
  targets.flatMap EffectiveTarget.uploadFields

/-- What is wrong with the uploads of the targets. -/
def uploadProblems (config : ConfigV2) (selected : Selected) (vars : List (Text × Text))
    (targets : List EffectiveTarget) : List Text :=
  targets.flatMap (·.problems vars (workflowFlavors config selected) (flavorsPath selected))

/-- Expanding a text of an upload exceeds a limit. -/
def UploadsOver (config : ConfigV2) (workflow : Option Text)
    (platforms : Option (List BuildPlatform)) (validate : Bool) (budget : Budget) : Prop :=
  ∃ selected, config.selectWorkflow workflow = .ok selected ∧
    AnyOver (varsFor config selected) (uploadFields (chosenTargets config selected platforms))
      (checked config selected validate budget).work

/-- No problem of an upload reads as a limit, and the uploads leave enough of the budget for what is
resolved after them. -/
def UploadsPass (config : ConfigV2) (workflow : Option Text)
    (platforms : Option (List BuildPlatform)) (validate : Bool) (budget : Budget) : Prop :=
  ∀ selected, config.selectWorkflow workflow = .ok selected →
    let targets := chosenTargets config selected platforms
    let vars := varsFor config selected
    (uploadProblems config selected vars targets).any isLimitError = false ∧
      ¬ AnyOver vars (restFields config selected targets)
        (resolveFields vars (uploadFields targets) (checked config selected validate budget).work)

/-- Unless an upload exceeds a limit, the file lowers as it does without its uploads, and the plans
differ in these only. -/
def PublishSafe (config : ConfigV2) (workflow : Option Text)
    (platforms : Option (List BuildPlatform)) (validate : Bool) (budget : Budget) : Prop :=
  ¬ UploadsOver config workflow platforms validate budget →
    ((∃ plan, config.Lowers workflow platforms validate budget plan) ↔
      ∃ plan, config.withoutPublish.Lowers workflow platforms validate budget plan) ∧
    ∀ plan plan', config.Lowers workflow platforms validate budget plan →
      config.withoutPublish.Lowers workflow platforms validate budget plan' →
      plan = { plan' with publish := plan.publish }

section Safe

variable {config : ConfigV2} {selected : Selected} {vars : List (Text × Text)}
  {workflow : Option Text} {platforms : Option (List BuildPlatform)} {validate : Bool}
  {budget : Budget}

theorem follows_refl {work : Work} (h : AllSettled vars work) : Follows vars work work := by
  by_cases hexhausted : work.Exhausted
  · exact .inr ⟨h, h, hexhausted⟩
  · unfold Work.Exhausted at hexhausted
    have hmissing : missing work work = ∅ := by simp [missing]
    refine .inl ⟨h, h, Finset.Subset.refl _, ?_, ?_, by omega, by omega⟩
    · simp [hmissing]
    · simp [hmissing]

theorem follows_resolveFields {fields : List Field} {work work' : Work} (hlive : Live fields)
    (h : Follows vars work work') : Follows vars (resolveFields vars fields work) work' := by
  induction fields generalizing work with
  | nil => exact h
  | cons field rest ih =>
    exact ih (fun field hfield => hlive field (List.mem_cons_of_mem _ hfield))
      (h.first (hlive field List.mem_cons_self) _ _)

theorem uploadFields_live (targets : List EffectiveTarget) : Live (uploadFields targets) := by
  refine live_flatMap fun target _ field hfield => ?_
  obtain ⟨upload, -, rfl⟩ := List.mem_map.mp hfield
  exact outside_live

/-- What lowers after the uploads lowers without them, to the same. -/
theorem lowerRest_before {targets : List EffectiveTarget} {s s' : LowerState} {lowered : Lowered}
    {fields : List Field} (hlive : Live fields) (hclean : Clean s)
    (hsettled : AllSettled vars s.work)
    (h : lowerRest config selected vars .none targets
      { s with work := resolveFields vars fields s.work } = (.ok lowered, s')) :
    (∃ t', lowerRest config selected vars .none targets s = (.ok lowered, t')) ∧
      ¬ AnyOver vars (restFields config selected targets) (resolveFields vars fields s.work) := by
  have hclean' := lowerRest_clean h
  have htogether : Together vars { s with work := resolveFields vars fields s.work } s :=
    ⟨hclean, hclean, follows_resolveFields hlive (follows_refl hsettled)⟩
  obtain ⟨lowered', t', hfirst, -⟩ := lowerRest_simulates config selected vars .none .none targets
    (fun _ => true) _ s lowered s' hclean' htogether h
  rw [List.filter_eq_self.mpr fun _ _ => rfl] at hfirst
  have hneeds := lowerRest_needs config selected .none targets s lowered' t' hsettled hclean
    (lowerRest_clean hfirst) hfirst { s with work := resolveFields vars fields s.work }
    (hsettled.resolveFields hlive) hclean
  have hover := hneeds.2 lowered s' hclean' h
  have hsame := hneeds.1 hover
  rw [h] at hsame
  obtain ⟨hok, -⟩ := Prod.mk.inj hsame
  cases hok
  exact ⟨⟨t', hfirst⟩, hover⟩

/-- With uploads that exceed no limit, the targets lower where the rest does, no problem reads as a
limit and the budget is enough. -/
theorem lowerTargets_ok_iff {targets : List EffectiveTarget} {s : LowerState} (hclean : Clean s)
    (hsettled : AllSettled vars s.work) (hover : ¬ AnyOver vars (uploadFields targets) s.work)
    {lowered : Lowered} :
    (∃ publish s', lowerTargets config selected vars targets s =
        (.ok { lowered with publish }, s')) ↔
      (∃ s', lowerRest config selected vars .none targets s =
        (.ok { lowered with publish := .none }, s')) ∧
      (uploadProblems config selected vars targets).any isLimitError = false ∧
      ¬ AnyOver vars (restFields config selected targets)
        (resolveFields vars (uploadFields targets) s.work) := by
  have hparts : lowerTargets config selected vars targets =
      planPublish vars (workflowFlavors config selected) (flavorsPath selected) targets >>=
        fun publish => lowerRest config selected vars publish targets := rfl
  obtain ⟨hpasses, hfails⟩ := planPublish_publishes (workflowFlavors config selected)
    (flavorsPath selected) targets s hover
  rw [hparts]
  constructor
  · rintro ⟨publish, s', hrun⟩
    obtain ⟨publish', s₁, hpublish, hrest⟩ := Run.bind_eq_ok_iff.mp hrun
    have hproblems : (uploadProblems config selected vars targets).any isLimitError = false := by
      by_contra hne
      exact hfails (Bool.eq_true_of_not_eq_false hne) publish' s₁ hpublish
    obtain ⟨publish'', hpublish''⟩ := hpasses hproblems
    rw [hpublish] at hpublish''
    obtain ⟨-, rfl⟩ := Prod.mk.inj hpublish''
    obtain ⟨hfirst, hfits⟩ := lowerRest_before (uploadFields_live targets) hclean hsettled
      (lowerRest_publish hrest .none)
    exact ⟨hfirst, hproblems, hfits⟩
  · rintro ⟨⟨s', hrest⟩, hproblems, hfits⟩
    obtain ⟨publish, hpublish⟩ := hpasses hproblems
    have hneeds := lowerRest_needs config selected .none targets s _ s' hsettled hclean
      (lowerRest_clean hrest) hrest
      { s with work := resolveFields vars (uploadFields targets) s.work }
      (hsettled.resolveFields (uploadFields_live targets)) hclean
    exact ⟨publish, _, (Run.bind_of_ok hpublish).trans (lowerRest_publish (hneeds.1 hfits) publish)⟩

/-- The vars check, and the targets are there. -/
def Ready (config : ConfigV2) (selected : Selected) (platforms : Option (List BuildPlatform))
    (validate : Bool) (budget : Budget) : Prop :=
  (checkVars config selected validate (LowerState.start budget)).1 = .ok () ∧
    Clean (checked config selected validate budget) ∧ (effectiveTargets config selected).2 = [] ∧
    (selectPlatforms (effectiveTargets config selected).1 platforms).2 = []

theorem lowers_iff {plan : PipelinePlan} (hselect : config.selectWorkflow workflow = .ok selected) :
    config.Lowers workflow platforms validate budget plan ↔
      Ready config selected platforms validate budget ∧ ∃ lowered s',
        lowerTargets config selected (varsFor config selected)
          (chosenTargets config selected platforms) (checked config selected validate budget) =
          (.ok lowered, s') ∧
        plan = planOf config selected (chosenTargets config selected platforms) lowered := by
  constructor
  · intro h
    obtain ⟨s₁, lowered, hvalidate, hclean, hmissing, hselection, hlowered, hplan⟩ :=
      (lower_eq_ok hselect).mp (Prod.ext h rfl)
    have hcheck : checkVars config selected validate (LowerState.start budget) = (.ok (), s₁) :=
      hvalidate
    have hs₁ : checked config selected validate budget = s₁ := congrArg Prod.snd hcheck
    rw [← hs₁] at hclean hlowered
    exact ⟨⟨congrArg Prod.fst hcheck, hclean, hmissing, hselection⟩, lowered, _, hlowered, hplan⟩
  · rintro ⟨⟨hcheck, hclean, hmissing, hselection⟩, lowered, s', hlowered, hplan⟩
    exact congrArg Prod.fst ((lower_eq_ok hselect).mpr ⟨_, lowered, Prod.ext hcheck rfl, hclean,
      hmissing, hselection, hlowered, hplan⟩)

theorem ready_strip : Ready config.withoutPublish (strip selected) platforms validate budget ↔
    Ready config selected platforms validate budget := by
  unfold Ready checked checkVars varsFor
  rw [varSettings_strip, effectiveTargets_strip, selectPlatforms_map]

/-- Without its uploads the file lowers where the rest does. -/
theorem lowers_strip_iff {plan : PipelinePlan}
    (hselect : config.selectWorkflow workflow = .ok selected) :
    config.withoutPublish.Lowers workflow platforms validate budget plan ↔
      Ready config selected platforms validate budget ∧ ∃ lowered s',
        lowerRest config selected (varsFor config selected) .none
          (chosenTargets config selected platforms) (checked config selected validate budget) =
          (.ok lowered, s') ∧
        plan = planOf config selected (chosenTargets config selected platforms) lowered := by
  have hselect' : config.withoutPublish.selectWorkflow workflow = .ok (strip selected) := by
    rw [selectWorkflow_withoutPublish, hselect]
    rfl
  have htargets : chosenTargets config.withoutPublish (strip selected) platforms =
      (chosenTargets config selected platforms).map EffectiveTarget.withoutPublish := by
    unfold chosenTargets
    rw [effectiveTargets_strip, selectPlatforms_map]
  have hvars : varsFor config.withoutPublish (strip selected) = varsFor config selected :=
    congrArg varsOf (varSettings_strip config selected)
  have hchecked : checked config.withoutPublish (strip selected) validate budget =
      checked config selected validate budget := by
    unfold checked checkVars
    rw [hvars, varSettings_strip]
  rw [lowers_iff hselect', ready_strip, htargets, hvars, hchecked]
  simp only [lowerTargets_strip, planOf_strip]

theorem checked_settled (config : ConfigV2) (selected : Selected) (validate : Bool)
    (budget : Budget) : AllSettled (varsFor config selected)
      (checked config selected validate budget).work :=
  (trails_fresh (validateVars_validating _ _ (LowerState.start budget))).settled

theorem publish_of_lowerRest {publish : PlanPublish} {targets : List EffectiveTarget}
    {s s' : LowerState} {lowered : Lowered}
    (h : lowerRest config selected vars publish targets s = (.ok lowered, s')) :
    lowered.publish = publish := by
  have hsame := lowerRest_publish h publish
  rw [h] at hsame
  exact congrArg Lowered.publish (Except.ok.inj (Prod.mk.inj hsame).1)

/-- Where no upload exceeds a limit, the file lowers where it does without its uploads, no problem
reads as a limit and the budget is enough; the plans differ in the uploads only. -/
theorem lowers_iff_without (hselect : config.selectWorkflow workflow = .ok selected)
    (hover : ¬ AnyOver (varsFor config selected)
      (uploadFields (chosenTargets config selected platforms))
      (checked config selected validate budget).work) {plan : PipelinePlan} :
    (∃ publish, config.Lowers workflow platforms validate budget { plan with publish }) ↔
      config.withoutPublish.Lowers workflow platforms validate budget
          { plan with publish := .none } ∧
        UploadsPass config workflow platforms validate budget := by
  have hsettled := checked_settled config selected validate budget
  constructor
  · rintro ⟨publish, h⟩
    obtain ⟨hready, lowered, s', hrun, hplan⟩ := (lowers_iff hselect).mp h
    have hsome : ∃ publish s', lowerTargets config selected (varsFor config selected)
        (chosenTargets config selected platforms) (checked config selected validate budget) =
        (.ok { lowered with publish }, s') := ⟨lowered.publish, s', hrun⟩
    obtain ⟨⟨t', hrest⟩, hproblems, hfits⟩ :=
      (lowerTargets_ok_iff hready.2.1 hsettled hover).mp hsome
    constructor
    · refine (lowers_strip_iff hselect).mpr ⟨hready, _, t', hrest, ?_⟩
      exact congrArg (fun plan : PipelinePlan => { plan with publish := .none }) hplan
    · intro selected' hselect'
      cases hselect.symm.trans hselect'
      exact ⟨hproblems, hfits⟩
  · rintro ⟨h, hpass⟩
    obtain ⟨hready, lowered, t', hrest, hplan⟩ := (lowers_strip_iff hselect).mp h
    have hnone : lowered = { lowered with publish := .none } := by
      rw [← publish_of_lowerRest hrest]
    rw [hnone] at hrest
    obtain ⟨publish, s', hrun⟩ := (lowerTargets_ok_iff hready.2.1 hsettled hover).mpr
      ⟨⟨t', hrest⟩, hpass selected hselect⟩
    refine ⟨publish, (lowers_iff hselect).mpr ⟨hready, _, s', hrun, ?_⟩⟩
    exact congrArg (fun plan : PipelinePlan => { plan with publish }) hplan

theorem publish_of_lowers_strip {plan : PipelinePlan}
    (hselect : config.selectWorkflow workflow = .ok selected)
    (h : config.withoutPublish.Lowers workflow platforms validate budget plan) :
    { plan with publish := .none } = plan := by
  obtain ⟨-, lowered, t', hrest, rfl⟩ := (lowers_strip_iff hselect).mp h
  unfold planOf
  rw [publish_of_lowerRest hrest]

theorem not_lowers_of_error {error : Text} (h : config.selectWorkflow workflow = .error error)
    (plan : PipelinePlan) : ¬ config.Lowers workflow platforms validate budget plan := by
  unfold ConfigV2.Lowers ConfigV2.lower
  rw [h]
  exact fun h => by cases h

/-- The uploads of a file decide whether it lowers only where they exceed a limit, where a problem
of one reads as a limit, or where they leave too little of the budget. -/
theorem publishSafe_iff (config : ConfigV2) (workflow : Option Text)
    (platforms : Option (List BuildPlatform)) (validate : Bool) (budget : Budget) :
    PublishSafe config workflow platforms validate budget ↔
      (¬ UploadsOver config workflow platforms validate budget →
        (∃ plan, config.withoutPublish.Lowers workflow platforms validate budget plan) →
        UploadsPass config workflow platforms validate budget) := by
  unfold PublishSafe
  refine imp_congr_right fun hover => ?_
  cases hselect : config.selectWorkflow workflow with
  | error error =>
    have hselect' : config.withoutPublish.selectWorkflow workflow = .error error := by
      rw [selectWorkflow_withoutPublish, hselect]
      rfl
    simp only [not_lowers_of_error hselect, not_lowers_of_error hselect']
    simp
  | ok selected =>
    have hover' : ¬ AnyOver (varsFor config selected)
        (uploadFields (chosenTargets config selected platforms))
        (checked config selected validate budget).work := fun h => hover ⟨selected, hselect, h⟩
    constructor
    · rintro ⟨hiff, -⟩ hplan'
      obtain ⟨plan, hplan⟩ := hiff.mpr hplan'
      exact ((lowers_iff_without hselect hover').mp ⟨plan.publish, hplan⟩).2
    · intro hpass
      refine ⟨⟨?_, ?_⟩, ?_⟩
      · rintro ⟨plan, hplan⟩
        exact ⟨_, ((lowers_iff_without hselect hover').mp ⟨plan.publish, hplan⟩).1⟩
      · rintro ⟨plan, hplan⟩
        have hpasses := hpass ⟨plan, hplan⟩
        rw [← publish_of_lowers_strip hselect hplan] at hplan
        obtain ⟨publish, hpublish⟩ := (lowers_iff_without hselect hover').mpr ⟨hplan, hpasses⟩
        exact ⟨_, hpublish⟩
      · intro plan plan' hplan hplan'
        have hnone := ((lowers_iff_without hselect hover').mp ⟨plan.publish, hplan⟩).1
        have heq : plan' = { plan with publish := .none } := Except.ok.inj (hplan'.symm.trans hnone)
        rw [heq]

end Safe

/-- A file with a track that names no track of Google Play. -/
def throughFile : ConfigV2 where
  name := none
  app := ⟨none, []⟩
  targets := ⟨[(.android, ⟨some "make android", none, some (.on
    ⟨some ⟨"$\x7b\x7b vars.track \x7d\x7d", none, none, none⟩, none, none⟩), none⟩)], by decide⟩
  steps := none
  env := .empty
  vars := ⟨[("track", "qa, through vars")], by decide⟩
  on := none
  workflows := .empty
  signing := .none
  runsOn := []
  isolation := .host
  buildNumberOffset := 0

/-- The track is quoted in the error, which then reads as a limit. -/
theorem throughFile_not_publishSafe : throughFile.shapeErrors = [] ∧
    ¬ PublishSafe throughFile none none true .fresh := by
  refine ⟨by decide +kernel, fun h => ?_⟩
  have hselect : throughFile.selectWorkflow none = .ok none := rfl
  have hunder : ¬ AnyOver (varsFor throughFile none)
      (uploadFields (chosenTargets throughFile none none))
      (checked throughFile none true .fresh).work := by
    decide +kernel
  have hfails : (throughFile.lower none none true (LowerState.start .fresh)).1.isOk = false := by
    decide +kernel
  have hlowers :
      (throughFile.withoutPublish.lower none none true (LowerState.start .fresh)).1.isOk = true := by
    decide +kernel
  obtain ⟨hiff, -⟩ := h fun ⟨selected, hselect', hover⟩ => by
    cases hselect.symm.trans hselect'
    exact hunder hover
  have hwithout : ∃ plan, throughFile.withoutPublish.Lowers none none true .fresh plan := by
    unfold ConfigV2.Lowers
    revert hlowers
    cases (throughFile.withoutPublish.lower none none true (LowerState.start .fresh)).1 with
    | ok plan => exact fun _ => ⟨plan, rfl⟩
    | error errors => exact fun h => by cases h
  obtain ⟨plan, hplan⟩ := hiff.mpr hwithout
  unfold ConfigV2.Lowers at hplan
  rw [hplan] at hfails
  cases hfails

end OoreBuild
