import OoreBuild.Uploads

/-!
# Files that are accepted

`parse` lowers every workflow of a file for all its targets, on one budget. `plan` lowers one of
them for some of its targets, on a budget of its own: it does a part of what `parse` has done, and
ends where `parse` went on only with a track over a limit (`plan_ok_iff`).
-/

namespace OoreBuild

open Text

/-! ## Errors of lowering -/

/-- The lowering ends with an error only if it names one. -/
abbrev Explains {α : Type} (x : LowerM α) : Prop := Run.FailsWith (fun errors => errors ≠ []) x

theorem endOnErrors_explains : Explains endOnErrors := by
  intro s errors s' h
  unfold endOnErrors at h
  split at h
  · cases h
  · rename_i hne
    cases h
    simpa using hne

theorem update_explains (f : LowerState → LowerState) :
    Explains (Run.update f : LowerM Unit) := by
  intro s errors s' h
  cases h

theorem withResolver_explains (x : Run Work Text Text) : Explains (withResolver x) := by
  intro s errors s' h
  cases h

theorem reportUnresolved_explains (error : Text) : Explains (reportUnresolved error) := by
  unfold reportUnresolved
  split
  · exact Run.failsWith_fail (List.cons_ne_nil _ _)
  · exact update_explains _

theorem endOnLimit_explains (error : Option Text) : Explains (endOnLimit error) := by
  unfold endOnLimit
  split
  · exact Run.failsWith_fail (List.cons_ne_nil _ _)
  · exact Run.failsWith_pure _

section

variable {vars : List (Text × Text)}

theorem resolveRequired_explains {α : Type} {text path : Text} {scope : FlavorScope}
    {next : Text → LowerM α} {otherwise : α} (hnext : ∀ resolved, Explains (next resolved)) :
    Explains (resolveRequired vars text scope path next otherwise) := by
  refine (withResolver_explains _).bind fun result => ?_
  split
  · exact hnext _
  · exact (reportUnresolved_explains _).bind fun _ => Run.failsWith_pure _

theorem validateVars_explains (settings : List Setting) : Explains (validateVars vars settings) := by
  induction settings with
  | nil => exact Run.failsWith_pure _
  | cons setting rest ih =>
    refine (withResolver_explains _).bind fun result => ?_
    split
    · exact ih
    · refine (update_explains _).bind fun _ => ?_
      split
      · exact Run.failsWith_pure _
      · exact ih

theorem resolveUpload_explains (path value field : Text) :
    Explains (resolveUpload vars path value field) :=
  (withResolver_explains _).bind fun _ => Run.failsWith_pure _

theorem resolvePlanned_explains {α : Type} (path value field : Text)
    (errorOf : Except Text Text → Option Text)
    (make : Except Text Text → Option Text → PlannedPublish α) :
    Explains (resolvePlanned vars path value field errorOf make) :=
  (resolveUpload_explains _ _ _).bind fun _ =>
    (endOnLimit_explains _).bind fun _ => Run.failsWith_pure _

theorem publishAppStore_explains (path : Text) (flavorError : Option Text)
    (appStore : AppStorePublishSpec) :
    Explains (publishAppStore vars path flavorError appStore) := by
  refine (Run.foldEach_failsWith (fun found group => ?_) _ _).bind fun _ =>
    (endOnLimit_explains _).bind fun _ => Run.failsWith_pure _
  exact (resolveUpload_explains _ _ _).bind fun _ => Run.failsWith_pure _

theorem orKeep_explains {α β : Type} (value : Option α) {f : α → LowerM β} (kept : Option β)
    (hf : ∀ a, Explains (f a)) : Explains (orKeep value f kept) := by
  unfold orKeep
  split
  · exact (hf _).bind fun _ => Run.failsWith_pure _
  · exact Run.failsWith_pure _

theorem publishTarget_explains (flavors : List Text) (flavorsPath : Text) (publish : PlanPublish)
    (target : EffectiveTarget) :
    Explains (publishTarget vars flavors flavorsPath publish target) := by
  unfold publishTarget
  split
  · exact Run.failsWith_pure _
  · refine (orKeep_explains _ _ fun _ => resolvePlanned_explains _ _ _ _ _).bind fun _ => ?_
    refine (orKeep_explains _ _ fun _ => resolvePlanned_explains _ _ _ _ _).bind fun _ => ?_
    exact (orKeep_explains _ _ fun _ => publishAppStore_explains _ _ _).bind fun _ =>
      Run.failsWith_pure _

theorem lowerBuilds_explains (scopes : List (Option Text × FlavorScope))
    (targets : List EffectiveTarget) : Explains (lowerBuilds vars scopes targets) := by
  refine (Run.forEach_failsWith (fun target => ?_) _).bind fun _ => Run.failsWith_pure _
  refine (Run.forEach_failsWith (fun flavor => ?_) _).bind fun _ => Run.failsWith_pure _
  exact resolveRequired_explains fun _ => Run.failsWith_pure _

theorem lowerEntry_explains (shared : List StepEntry) (entriesPath : Text) (buildNames : List Text)
    (list : StepList) (entry : StepEntry × ℕ) :
    Explains (lowerEntry vars shared entriesPath buildNames list entry) := by
  unfold lowerEntry
  split
  · exact Run.failsWith_pure _
  · split
    · exact Run.failsWith_pure _
    · split
      · exact (update_explains _).bind fun _ => Run.failsWith_pure _
      · exact resolveRequired_explains fun _ => Run.failsWith_pure _

theorem lowerSteps_explains (config : ConfigV2) (selected : Selected) (builds : List PlanStep) :
    Explains (lowerSteps vars config selected builds) := by
  unfold lowerSteps
  dsimp only
  exact (Run.foldEach_failsWith (lowerEntry_explains _ _ _) _ _).bind fun _ => Run.failsWith_pure _

theorem addPattern_explains (path : Text) (found : List Text) (pattern : Text) :
    Explains (addPattern path found pattern) := by
  unfold addPattern
  split
  · exact (update_explains _).bind fun _ => Run.failsWith_pure _
  · split
    · exact (update_explains _).bind fun _ => Run.failsWith_pure _
    · exact Run.failsWith_pure _

theorem lowerArtifacts_explains (scopes : List (Option Text × FlavorScope))
    (targets : List EffectiveTarget) : Explains (lowerArtifacts vars scopes targets) :=
  Run.foldEach_failsWith (fun _ _ => Run.foldEach_failsWith (fun _ _ =>
    Run.foldEach_failsWith (fun _ _ => resolveRequired_explains fun _ => addPattern_explains _ _ _)
      _ _) _ _) _ _

theorem lowerTargets_explains (config : ConfigV2) (selected : Selected)
    (targets : List EffectiveTarget) : Explains (lowerTargets config selected vars targets) := by
  unfold lowerTargets
  dsimp only
  refine (Run.foldEach_failsWith (publishTarget_explains _ _) _ _).bind fun _ => ?_
  refine (lowerBuilds_explains _ _).bind fun _ => (lowerSteps_explains _ _ _).bind fun _ => ?_
  refine (Run.forEach_failsWith (fun _ => resolveRequired_explains fun _ => Run.failsWith_pure _)
    _).bind fun _ => ?_
  exact (lowerArtifacts_explains _ _).bind fun _ => endOnErrors_explains.bind fun _ =>
    Run.failsWith_pure _

end

theorem lower_explains (config : ConfigV2) (workflow : Option Text)
    (platforms : Option (List BuildPlatform)) (validate : Bool) :
    Explains (config.lower workflow platforms validate) := by
  unfold ConfigV2.lower
  split
  · exact Run.failsWith_fail (List.cons_ne_nil _ _)
  · refine (validateVars_explains _).bind fun _ => endOnErrors_explains.bind fun _ => ?_
    refine (update_explains _).bind fun _ => (update_explains _).bind fun _ => ?_
    exact (lowerTargets_explains _ _ _).bind fun _ => Run.failsWith_pure _

/-! ## Lowering in parts -/

theorem endOnErrors_eq_ok {s s' : LowerState} (h : endOnErrors s = (.ok (), s')) :
    Clean s ∧ s' = s := by
  unfold endOnErrors at h
  split at h
  · rename_i hnil
    cases h
    exact ⟨List.isEmpty_iff.mp hnil, rfl⟩
  · cases h

theorem endOnErrors_of_clean {s : LowerState} (h : Clean s) : endOnErrors s = (.ok (), s) := by
  unfold endOnErrors
  rw [if_pos (by rw [h]; rfl)]

/-- Lower what comes after the uploads. -/
def lowerRest (config : ConfigV2) (selected : Selected) (vars : List (Text × Text))
    (publish : PlanPublish) (targets : List EffectiveTarget) : LowerM Lowered := do
  let flavors := workflowFlavors config selected
  let builds ← lowerBuilds vars (flavorScopes flavors) targets
  let steps ← lowerSteps vars config selected builds
  let env ← Run.forEach (lowerEnv vars) (envSettings config selected)
  let artifacts ← lowerArtifacts vars (flavorScopes flavors) targets
  endOnErrors
  return { publish, steps, env := env.flatten, artifacts }

theorem lowerRest_clean {config : ConfigV2} {selected : Selected} {vars : List (Text × Text)}
    {publish : PlanPublish} {targets : List EffectiveTarget} {s s' : LowerState} {lowered : Lowered}
    (h : lowerRest config selected vars publish targets s = (.ok lowered, s')) : Clean s' := by
  obtain ⟨_, s₁, -, h⟩ := Run.bind_eq_ok_iff.mp h
  obtain ⟨_, s₂, -, h⟩ := Run.bind_eq_ok_iff.mp h
  obtain ⟨_, s₃, -, h⟩ := Run.bind_eq_ok_iff.mp h
  obtain ⟨_, s₄, -, h⟩ := Run.bind_eq_ok_iff.mp h
  obtain ⟨_, s₅, hend, hpure⟩ := Run.bind_eq_ok_iff.mp h
  obtain ⟨hclean, rfl⟩ := endOnErrors_eq_ok hend
  cases hpure
  exact hclean

theorem lowerTargets_clean {config : ConfigV2} {selected : Selected} {vars : List (Text × Text)}
    {targets : List EffectiveTarget} {s s' : LowerState} {lowered : Lowered}
    (h : lowerTargets config selected vars targets s = (.ok lowered, s')) : Clean s' := by
  obtain ⟨publish, s₁, -, hrest⟩ := Run.bind_eq_ok_iff.mp h
  exact lowerRest_clean hrest

theorem endOnErrors_simulates {vars : List (Text × Text)} :
    Run.Simulates Clean (Together vars) (fun _ _ => True) endOnErrors endOnErrors := by
  intro s t _ s' _ htogether h
  obtain ⟨-, rfl⟩ := endOnErrors_eq_ok h
  exact ⟨(), t, endOnErrors_of_clean htogether.clean', htogether, trivial⟩

theorem lowerRest_simulates (config : ConfigV2) (selected : Selected) (vars : List (Text × Text))
    (publish publish' : PlanPublish) (targets : List EffectiveTarget)
    (keep : EffectiveTarget → Bool) :
    Run.Simulates Clean (Together vars) (fun _ _ => True)
      (lowerRest config selected vars publish targets)
      (lowerRest config selected vars publish' (targets.filter keep)) := by
  unfold lowerRest
  dsimp only
  have hend : ∀ lowered : Lowered, Run.Moves (Run.Reflects Clean)
      (endOnErrors >>= fun _ => (pure lowered : LowerM Lowered)) :=
    fun _ => endOnErrors_reflects.bind fun _ => Run.moves_pure _
  have hartifacts : ∀ lowered : List Text → Lowered, Run.Moves (Run.Reflects Clean)
      (lowerArtifacts vars (flavorScopes (workflowFlavors config selected)) targets >>=
        fun artifacts => endOnErrors >>= fun _ => (pure (lowered artifacts) : LowerM Lowered)) :=
    fun lowered => (lowerArtifacts_reflects _ _).bind fun _ => hend _
  have henv : ∀ lowered : List (List PipelineEnvVar) → List Text → Lowered,
      Run.Moves (Run.Reflects Clean) (Run.forEach (lowerEnv vars) (envSettings config selected) >>=
        fun env => lowerArtifacts vars (flavorScopes (workflowFlavors config selected)) targets >>=
        fun artifacts => endOnErrors >>= fun _ => (pure (lowered env artifacts) : LowerM Lowered)) :=
    fun lowered => (Run.forEach_moves lowerEnv_reflects _).bind fun _ => hartifacts _
  refine (lowerBuilds_simulates _ targets keep).bind (fun builds builds' hbuilds => ?_)
    fun builds => (lowerSteps_reflects _ _ _).bind fun _ => henv _
  refine (lowerSteps_simulates config selected builds builds' hbuilds).bind (fun _ _ _ => ?_)
    fun _ => henv _
  refine (lowerEnv_simulates _).bind (fun _ _ _ => ?_) fun _ => hartifacts _
  refine (lowerArtifacts_simulates _ targets keep).bind (fun _ _ _ => ?_) fun _ => hend _
  exact endOnErrors_simulates.bind (fun _ _ _ => Run.simulates_pure trivial)
    fun _ => Run.moves_pure _

theorem lowerRest_reflects (config : ConfigV2) (selected : Selected) (vars : List (Text × Text))
    (publish : PlanPublish) (targets : List EffectiveTarget) :
    Run.Moves (Run.Reflects Clean) (lowerRest config selected vars publish targets) := by
  unfold lowerRest
  dsimp only
  refine (lowerBuilds_reflects _ _).bind fun _ => (lowerSteps_reflects _ _ _).bind fun _ => ?_
  refine (Run.forEach_moves lowerEnv_reflects _).bind fun _ => ?_
  exact (lowerArtifacts_reflects _ _).bind fun _ => endOnErrors_reflects.bind fun _ =>
    Run.moves_pure _

/-- Errors noted before the targets are lowered are not lost. -/
theorem lowerTargets_reflects {config : ConfigV2} {selected : Selected} {vars : List (Text × Text)}
    {targets : List EffectiveTarget} {s s' : LowerState} {lowered : Lowered}
    (h : lowerTargets config selected vars targets s = (.ok lowered, s')) : Clean s := by
  have hclean := lowerTargets_clean h
  obtain ⟨publish, s₁, hpublish, hrest⟩ := Run.bind_eq_ok_iff.mp h
  have hclean₁ : Clean s₁ :=
    (lowerRest_reflects config selected vars publish targets).movesOk s₁ lowered s' hrest hclean
  rw [planPublish_resolves targets hpublish] at hclean₁
  exact hclean₁

/-- Where all targets lower and no track is over a limit, those kept lower on a budget of their
own. -/
theorem lowerTargets_both {config : ConfigV2} {selected : Selected} {vars : List (Text × Text)}
    {targets : List EffectiveTarget} {keep : EffectiveTarget → Bool} {s s' : LowerState}
    {lowered : Lowered} (hclean : Clean s) (htrails : Trails vars s.work ⟨.fresh, []⟩)
    (horder : targets.Pairwise fun target later =>
      target.usesAppStore = true → later.usesAppStoreConnect = false)
    (hlimit : ¬ TrackOverLimit vars (targets.filter keep))
    (h : lowerTargets config selected vars targets s = (.ok lowered, s')) :
    ∃ lowered' t', lowerTargets config selected vars (targets.filter keep)
      (LowerState.start .fresh) = (.ok lowered', t') := by
  have hclean' := lowerTargets_clean h
  obtain ⟨publish, s₁, h₁, hrest⟩ := Run.bind_eq_ok_iff.mp h
  have hpublishing : Publishing vars [] targets s (LowerState.start .fresh) :=
    ⟨rfl, .inl ⟨hclean, rfl, htrails⟩⟩
  obtain ⟨publish', t₁, h₁', htogether⟩ := planPublish_both hpublishing .none horder hlimit h₁
  obtain ⟨lowered', t', hrest', -⟩ := lowerRest_simulates config selected vars publish publish'
    targets keep s₁ t₁ lowered s' hclean' htogether hrest
  exact ⟨lowered', t', (Run.bind_of_ok h₁').trans hrest'⟩

/-! ## Checking the vars -/

/-- Work that only adds to what is known of the vars' own texts. -/
def Validating (s s' : LowerState) : Prop := Frame validationScope s.work s'.work

instance : Std.Refl Validating := ⟨fun s => Std.Refl.refl (r := Frame validationScope) s.work⟩

instance : IsTrans LowerState Validating :=
  ⟨fun _ _ _ h h' => IsTrans.trans (r := Frame validationScope) _ _ _ h h'⟩

theorem validateVars_validating (vars : List (Text × Text)) (settings : List Setting) :
    Run.Moves Validating (validateVars vars settings) := by
  have hreport : ∀ error, Run.Moves Validating (report error) :=
    fun _ s => Std.Refl.refl (r := Validating) s
  induction settings with
  | nil => exact Run.moves_pure _
  | cons setting rest ih =>
    refine Run.Moves.bind (fun s => ?_) fun result => ?_
    · exact resolveInner_frame vars _ ⟨validationScope, setting.path, 1, [setting.key]⟩ _ s.work
    · split
      · exact ih
      · refine (hreport _).bind fun _ => ?_
        split
        · exact Run.moves_pure _
        · exact ih

/-- A fresh resolver trails one that has only checked vars. -/
theorem trails_fresh {vars : List (Text × Text)} {budget : Budget} {a : Work}
    (h : Frame validationScope ⟨budget, []⟩ a) : Trails vars a ⟨.fresh, []⟩ := by
  have hempty : ∀ budget, AllSettled vars ⟨budget, []⟩ := by
    intro budget scope _ name resolved hlookup
    cases hlookup
  have hsettled : AllSettled vars a :=
    fun scope hlive => (hempty budget scope hlive).of_frame h hlive
  have hmissing : missing a ⟨.fresh, []⟩ = ∅ := by
    rw [missing, Finset.filter_eq_empty_iff]
    intro key hkey
    rcases h.added key (Finset.mem_sdiff.mp hkey).1 with hkey | hscope
    · simp [Work.keys] at hkey
    · simpa using hscope
  by_cases hexhausted : a.Exhausted
  · exact .inr ⟨⟨hsettled, hempty _, hexhausted⟩, Nat.zero_le _, Nat.zero_le _⟩
  · unfold Work.Exhausted at hexhausted
    refine .inl ⟨hsettled, hempty _, ?_, ?_, ?_, by omega, by omega⟩
    · simp [Work.keys]
    · rw [hmissing]
      exact Nat.zero_le _
    · rw [hmissing]
      exact Nat.zero_le _

/-! ## Targets of a workflow -/

section

variable {config : ConfigV2} {selected : Selected}

/-- The target uploads to App Store Connect only for iOS. -/
def EffectiveTarget.Fits (target : EffectiveTarget) : Prop :=
  target.usesAppStoreConnect = true → target.platform = .ios

/-- What the target uploads was checked. -/
def EffectiveTarget.Checked (target : EffectiveTarget) : Prop :=
  ∀ publish source, target.publish = some (publish, source) →
    ∃ path, checkPublish path target.platform publish = []

/-- TestFlight and the App Store take iOS builds. -/
theorem ios_of_checkPublish {path : Text} {platform : BuildPlatform} {publish : PublishSpec}
    (h : checkPublish path platform publish = [])
    (huses : publish.testflight.isSome || publish.appStore.isSome) : platform = .ios := by
  simp only [checkPublish, List.append_eq_nil_iff] at h
  obtain ⟨⟨⟨⟨-, htestflight⟩, -⟩, happStore⟩, -⟩ := h
  cases ht : publish.testflight with
  | some testflight =>
    rw [ht] at htestflight
    simpa [errorIf_eq_nil] using (List.append_eq_nil_iff.mp htestflight).1
  | none =>
    cases ha : publish.appStore with
    | none => simp [ht, ha] at huses
    | some appStore =>
      rw [ha] at happStore
      simp only [Option.elim_some, checkAppStore, List.append_eq_nil_iff] at happStore
      simpa [errorIf_eq_nil] using happStore.1.1.1

theorem EffectiveTarget.Checked.fits {target : EffectiveTarget} (h : target.Checked) :
    target.Fits := by
  intro huses
  unfold EffectiveTarget.usesAppStoreConnect at huses
  cases hpublish : target.publish with
  | none => simp [hpublish] at huses
  | some entry =>
    obtain ⟨publish, source⟩ := entry
    obtain ⟨path, hcheck⟩ := h publish source hpublish
    exact ios_of_checkPublish hcheck (by simpa [hpublish] using huses)

/-- The parts of the checks that lowering the targets relies on. -/
structure ConfigV2.TargetsChecked (config : ConfigV2) : Prop where
  topLevel : ∀ platform target, (platform, target) ∈ config.targets.entries →
    target.build.isSome = true ∧ checkTarget (targetPath platform) platform target = []
  workflow : ∀ name workflow overrides, (name, workflow) ∈ config.workflows.entries →
    workflow.targets = some overrides → ∀ platform target, (platform, target) ∈ overrides.entries →
      checkTarget ("workflows." ++ name ++ "." ++ targetPath platform) platform target = []

theorem targetsChecked (h : config.shapeErrors = []) : config.TargetsChecked := by
  simp only [ConfigV2.shapeErrors, List.append_eq_nil_iff] at h
  obtain ⟨⟨⟨⟨⟨⟨⟨⟨⟨⟨-, -⟩, -⟩, htargets⟩, -⟩, -⟩, -⟩, -⟩, hworkflows⟩, -⟩, -⟩ := h
  constructor
  · intro platform target hmem
    have hcheck := List.flatMap_eq_nil_iff.mp htargets (platform, target) hmem
    obtain ⟨hbuild, hcheck⟩ := List.append_eq_nil_iff.mp hcheck
    exact ⟨by simpa [errorIf_eq_nil] using hbuild, hcheck⟩
  · intro name workflow overrides hmem hoverrides platform target hentry
    have hcheck := List.flatMap_eq_nil_iff.mp hworkflows (name, workflow) hmem
    simp only [ConfigV2.checkWorkflow, List.append_eq_nil_iff] at hcheck
    obtain ⟨⟨⟨⟨⟨⟨-, -⟩, htargets⟩, -⟩, -⟩, -⟩, -⟩ := hcheck
    rw [hoverrides] at htargets
    have htarget := List.flatMap_eq_nil_iff.mp (List.append_eq_nil_iff.mp htargets).2
      (platform, target) hentry
    exact (List.append_eq_nil_iff.mp htarget).2

theorem checked_of_checkTarget {path : Text} {spec : TargetSpec} {target : EffectiveTarget}
    (h : checkTarget path target.platform spec = []) (source : Text)
    (hpublish : target.publish = (spec.publish.bind TargetPublish.spec).map (·, source)) :
    target.Checked := by
  intro publish source' hsome
  rw [hpublish] at hsome
  obtain ⟨publish', hspec, heq⟩ := Option.map_eq_some_iff.mp hsome
  cases heq
  have hcheck := (List.append_eq_nil_iff.mp h).2
  rw [hspec] at hcheck
  exact ⟨path, hcheck⟩

theorem topLevelTarget_checked (hchecked : config.TargetsChecked)
    {entry : BuildPlatform × TargetSpec} (hentry : entry ∈ config.targets.entries)
    {target : EffectiveTarget} (h : topLevelTarget entry = some target) :
    target.Checked ∧ target.platform = entry.1 := by
  obtain ⟨platform, spec⟩ := entry
  obtain ⟨build, -, rfl⟩ := Option.map_eq_some_iff.mp h
  exact ⟨checked_of_checkTarget (hchecked.topLevel platform spec hentry).2 _ rfl, rfl⟩

theorem overlaidTarget_checked (hchecked : config.TargetsChecked) {name pre : Text}
    {workflow : WorkflowSpec} {overrides : OrderedMap BuildPlatform TargetSpec}
    (hworkflow : (name, workflow) ∈ config.workflows.entries)
    (htargets : workflow.targets = some overrides) {entry : BuildPlatform × TargetSpec}
    (hentry : entry ∈ overrides.entries) {target : EffectiveTarget}
    (h : overlaidTarget config pre entry = .ok target) :
    target.Checked ∧ target.platform = entry.1 := by
  obtain ⟨platform, spec⟩ := entry
  have hcheck := hchecked.workflow name workflow overrides hworkflow htargets platform spec hentry
  unfold overlaidTarget at h
  dsimp only at h
  split at h
  · cases h
  · cases h
    refine ⟨?_, rfl⟩
    cases hpublish : spec.publish with
    | some publish =>
      exact checked_of_checkTarget hcheck (pre ++ targetPath platform ++ ".publish")
        (by simp [hpublish])
    | none =>
      cases hbase : config.targets.get platform with
      | none =>
        intro publish source hsome
        simp at hsome
      | some base =>
        have hbaseCheck := (hchecked.topLevel platform base (OrderedMap.mem_of_get hbase)).2
        by_cases hbuild : spec.build.isNone = true
        · exact checked_of_checkTarget hbaseCheck (targetPath platform ++ ".publish")
            (by simp [hbuild])
        · intro publish source hsome
          simp [hbuild] at hsome

/-- The platforms that a workflow targets. -/
def ConfigV2.workflowPlatforms (config : ConfigV2) (workflow : Option Text) :
    List BuildPlatform :=
  (((workflow.bind config.workflows.get).bind WorkflowSpec.targets).getD config.targets).keys

/-- The workflow that a name of the file, or none, selects. -/
theorem selectWorkflow_of_parsed {workflow : Option Text} (h : workflow ∈ config.parsedWorkflows) :
    ∃ selected, config.selectWorkflow workflow = .ok selected ∧
      (∀ entry, selected = some entry → entry ∈ config.workflows.entries) ∧
      workflow.bind config.workflows.get = selected.map Prod.snd := by
  unfold ConfigV2.parsedWorkflows at h
  split at h
  · rename_i hempty
    have hentries : config.workflows.entries = [] := List.isEmpty_iff.mp hempty
    rw [List.mem_singleton.mp h]
    exact ⟨none, by simp [ConfigV2.selectWorkflow, hentries], nofun, rfl⟩
  · obtain ⟨name, hname, rfl⟩ := List.mem_map.mp h
    obtain ⟨⟨key, spec⟩, hentry, rfl⟩ := List.mem_map.mp hname
    have hget := OrderedMap.get_of_mem hentry
    obtain ⟨entry, hfind, hspec⟩ := Option.map_eq_some_iff.mp hget
    refine ⟨some entry, by simp [ConfigV2.selectWorkflow, hfind], ?_, ?_⟩
    · rintro _ ⟨⟩
      exact List.mem_of_find?_eq_some hfind
    · rw [Option.bind_some, hget, Option.map_some, hspec]

/-- Where every target has a build, the targets are those of the workflow, in order. -/
theorem effectiveTargets_platforms (hchecked : config.TargetsChecked)
    (hmissing : (effectiveTargets config selected).2 = [])
    (hmem : ∀ entry, selected = some entry → entry ∈ config.workflows.entries) :
    (effectiveTargets config selected).1.map EffectiveTarget.platform =
        ((selected.bind fun entry => entry.2.targets).getD config.targets).keys ∧
      ∀ target ∈ (effectiveTargets config selected).1, target.Checked := by
  unfold effectiveTargets at hmissing ⊢
  cases hoverrides : selected.bind fun entry => entry.2.targets with
  | none =>
    have hsome : ∀ entry ∈ config.targets.entries, ∃ target, topLevelTarget entry = some target := by
      rintro ⟨platform, spec⟩ hentry
      obtain ⟨build, hbuild⟩ := Option.isSome_iff_exists.mp (hchecked.topLevel platform spec hentry).1
      exact ⟨_, by rw [topLevelTarget, hbuild]; rfl⟩
    constructor
    · rw [List.map_filterMap]
      refine List.filterMap_eq_map_iff_forall_eq_some.mpr fun entry hentry => ?_
      obtain ⟨target, h⟩ := hsome entry hentry
      rw [h, Option.map_some, (topLevelTarget_checked hchecked hentry h).2]
    · intro target htarget
      obtain ⟨entry, hentry, h⟩ := List.mem_filterMap.mp htarget
      exact (topLevelTarget_checked hchecked hentry h).1
  | some overrides =>
    rw [hoverrides] at hmissing
    obtain ⟨⟨name, workflow⟩, rfl, htargets⟩ := Option.bind_eq_some_iff.mp hoverrides
    have hworkflow := hmem (name, workflow) rfl
    have hok : ∀ entry ∈ overrides.entries, ∃ target,
        overlaidTarget config (workflowPrefix (some (name, workflow))) entry = .ok target := by
      intro entry hentry
      cases h : overlaidTarget config (workflowPrefix (some (name, workflow))) entry with
      | ok target => exact ⟨target, rfl⟩
      | error error =>
        have := List.filterMap_eq_nil_iff.mp hmissing _ (List.mem_map_of_mem hentry)
        rw [h] at this
        cases this
    constructor
    · change ((overrides.entries.map _).filterMap Except.toOption).map _ = _
      rw [List.filterMap_map, List.map_filterMap]
      refine List.filterMap_eq_map_iff_forall_eq_some.mpr fun entry hentry => ?_
      obtain ⟨target, h⟩ := hok entry hentry
      rw [Function.comp_apply, h, Except.toOption, Option.map_some,
        (overlaidTarget_checked hchecked hworkflow htargets hentry h).2]
    · intro target htarget
      obtain ⟨result, hresult, h⟩ := List.mem_filterMap.mp htarget
      obtain ⟨entry, hentry, rfl⟩ := List.mem_map.mp hresult
      obtain ⟨target', h'⟩ := hok entry hentry
      rw [h'] at h
      cases h
      exact (overlaidTarget_checked hchecked hworkflow htargets hentry h').1

/-- Only one target uploads to App Store Connect. -/
theorem pairwise_of_fits {targets : List EffectiveTarget}
    (hnodup : (targets.map EffectiveTarget.platform).Nodup)
    (hfits : ∀ target ∈ targets, target.Fits) :
    targets.Pairwise fun target later =>
      target.usesAppStore = true → later.usesAppStoreConnect = false := by
  rw [List.Nodup, List.pairwise_map] at hnodup
  refine hnodup.imp_of_mem fun {target later} htarget hlater hne huses => ?_
  by_contra hconnect
  have hconnect' : target.usesAppStoreConnect = true := by
    unfold EffectiveTarget.usesAppStore at huses
    unfold EffectiveTarget.usesAppStoreConnect
    cases hpublish : target.publish with
    | none => simp [hpublish] at huses
    | some entry => simp_all
  refine hne ?_
  rw [hfits target htarget hconnect', hfits later hlater (by simpa using hconnect)]

/-! ## Parsing -/

/-- Lowering ends with a plan where the vars check, the targets are there and they lower. -/
theorem lower_eq_ok {workflow : Option Text} {platforms : Option (List BuildPlatform)}
    {validate : Bool} {plan : PipelinePlan} {s s' : LowerState}
    (hselect : config.selectWorkflow workflow = .ok selected) :
    config.lower workflow platforms validate s = (.ok plan, s') ↔
      ∃ s₁ lowered, validateVars (varsOf (varSettings config selected))
          (if validate then varSettings config selected else []) s = (.ok (), s₁) ∧ Clean s₁ ∧
        (effectiveTargets config selected).2 = [] ∧
        (selectPlatforms (effectiveTargets config selected).1 platforms).2 = [] ∧
        lowerTargets config selected (varsOf (varSettings config selected))
          (selectPlatforms (effectiveTargets config selected).1 platforms).1 s₁ =
          (.ok lowered, s') ∧
        plan = planOf config selected
          (selectPlatforms (effectiveTargets config selected).1 platforms).1 lowered := by
  unfold ConfigV2.lower
  rw [hselect]
  dsimp only
  generalize effectiveTargets config selected = effective
  obtain ⟨all, missing⟩ := effective
  dsimp only
  generalize selectPlatforms all platforms = selection
  obtain ⟨targets, selectionErrors⟩ := selection
  constructor
  · intro h
    obtain ⟨⟨⟩, s₁, hvalidate, h₁⟩ := Run.bind_eq_ok_iff.mp h
    obtain ⟨_, s₂, hend, h₂⟩ := Run.bind_eq_ok_iff.mp h₁
    obtain ⟨hclean, rfl⟩ := endOnErrors_eq_ok hend
    obtain ⟨_, s₃, hmissing, h₃⟩ := Run.bind_eq_ok_iff.mp h₂
    cases hmissing
    obtain ⟨_, s₄, hselection, h₄⟩ := Run.bind_eq_ok_iff.mp h₃
    cases hselection
    obtain ⟨lowered, s₅, hlowered, hpure⟩ := Run.bind_eq_ok_iff.mp h₄
    cases hpure
    obtain ⟨hleft, rfl⟩ := List.append_eq_nil_iff.mp (lowerTargets_reflects hlowered)
    obtain ⟨-, rfl⟩ := List.append_eq_nil_iff.mp hleft
    simp only [List.append_nil] at hlowered
    exact ⟨s₂, lowered, hvalidate, hclean, rfl, rfl, hlowered, rfl⟩
  · rintro ⟨s₁, lowered, hvalidate, hclean, rfl, rfl, hlowered, rfl⟩
    refine (Run.bind_of_ok hvalidate).trans ((Run.bind_of_ok (endOnErrors_of_clean hclean)).trans ?_)
    have herrors : ({ s₁ with errors := s₁.errors ++ [] } : LowerState) = s₁ := by
      rw [List.append_nil]
    have hpush : pushErrors [] s₁ = (.ok (), s₁) := congrArg (Prod.mk (Except.ok ())) herrors
    refine (Run.bind_of_ok hpush).trans ((Run.bind_of_ok hpush).trans ?_)
    exact (Run.bind_of_ok hlowered).trans rfl

/-- What lowering all targets of a workflow without an error comes to. -/
theorem lower_all {workflow : Option Text} {validate : Bool} {budget : Budget}
    {plan : PipelinePlan} {s' : LowerState} (hselect : config.selectWorkflow workflow = .ok selected)
    (h : config.lower workflow none validate (LowerState.start budget) = (.ok plan, s')) :
    (effectiveTargets config selected).2 = [] ∧ ∃ s lowered, Clean s ∧
      Frame validationScope ⟨budget, []⟩ s.work ∧
      lowerTargets config selected (varsOf (varSettings config selected))
        (effectiveTargets config selected).1 s = (.ok lowered, s') := by
  obtain ⟨s₁, lowered, hvalidate, hclean, hmissing, -, hlowered, -⟩ := (lower_eq_ok hselect).mp h
  exact ⟨hmissing, s₁, lowered, hclean,
    (validateVars_validating _ _).movesOk _ _ _ hvalidate, hlowered⟩

theorem foldl_pushUnique_ne_nil {errors : List Text} (h : errors ≠ []) (new : List Text) :
    new.foldl pushUnique errors ≠ [] := by
  induction new generalizing errors with
  | nil => exact h
  | cons error rest ih => exact ih (pushUnique_ne_nil _ _)

theorem workflowErrors_ne_nil {errors : List Text} (h : errors ≠ []) (workflows : List (Option Text))
    (index : ℕ) (budget : Budget) : config.workflowErrors index workflows budget errors ≠ [] := by
  induction workflows generalizing index budget errors with
  | nil => exact h
  | cons workflow rest ih =>
    unfold ConfigV2.workflowErrors
    split
    · exact ih h _ _
    · dsimp only
      split
      · exact foldl_pushUnique_ne_nil h _
      · exact ih (foldl_pushUnique_ne_nil h _) _ _

/-- Every workflow of a file without errors has been lowered, from what was left of the budget. -/
theorem lowered_of_workflowErrors {workflows : List (Option Text)} {index : ℕ} {budget : Budget}
    (h : config.workflowErrors index workflows budget [] = []) {workflow : Option Text}
    (hmem : workflow ∈ workflows) :
    ∃ validate budget plan s',
      config.lower workflow none validate (LowerState.start budget) = (.ok plan, s') := by
  induction workflows generalizing index budget with
  | nil => cases hmem
  | cons first rest ih =>
    unfold ConfigV2.workflowErrors at h
    split at h
    · rename_i plan s hlower
      rcases List.mem_cons.mp hmem with rfl | hmem
      · exact ⟨_, budget, plan, s, hlower⟩
      · exact ih h hmem
    · rename_i errors s hlower
      have herrors : errors.foldl pushUnique [] ≠ [] := by
        obtain ⟨error, more, rfl⟩ := List.exists_cons_of_ne_nil
          (lower_explains _ _ _ _ _ _ _ hlower)
        exact foldl_pushUnique_ne_nil (pushUnique_ne_nil _ _) more
      dsimp only at h
      split at h
      · exact absurd h herrors
      · exact absurd h (workflowErrors_ne_nil herrors _ _ _)

theorem parse_eq_ok {parsed : ConfigV2} (h : config.parse = .ok parsed) :
    config.shapeErrors = [] ∧ config.workflowErrors 0 config.parsedWorkflows .fresh [] = [] ∧
      ∃ runsOn, parsed = { config with runsOn } := by
  unfold ConfigV2.parse at h
  split at h
  · cases h
  · dsimp only at h
    by_cases hshape : config.shapeErrors.isEmpty = true
    · rw [if_pos hshape] at h
      split at h
      · cases h
      · rename_i herrors
        refine ⟨List.isEmpty_iff.mp hshape, by simpa using herrors, ?_⟩
        cases hlabels : normalizeRunnerLabels config.runsOn with
        | error error =>
          rw [hlabels] at h
          cases h
        | ok runsOn =>
          rw [hlabels] at h
          exact ⟨runsOn, (Except.ok.inj h).symm⟩
    · rw [if_neg hshape, if_pos (by simpa using hshape)] at h
      cases h

/-! ## Planning -/

/-- The vars of the workflow that is planned. -/
def ConfigV2.plannedVars (config : ConfigV2) (workflow : Option Text) : List (Text × Text) :=
  varsOf (varSettings config ((config.selectWorkflow workflow).toOption.getD none))

/-- The targets of the workflow that a plan is made for. -/
def ConfigV2.plannedTargets (config : ConfigV2) (workflow : Option Text)
    (platforms : Option (List BuildPlatform)) : List EffectiveTarget :=
  let selected := (config.selectWorkflow workflow).toOption.getD none
  (selectPlatforms (effectiveTargets config selected).1 platforms).1

theorem selectPlatforms_of_subset (targets : List EffectiveTarget)
    (platforms : Option (List BuildPlatform))
    (h : ∀ chosen, platforms = some chosen →
      chosen ≠ [] ∧ chosen.Nodup ∧ chosen ⊆ targets.map EffectiveTarget.platform) :
    ∃ keep : EffectiveTarget → Bool, selectPlatforms targets platforms = (targets.filter keep, []) := by
  cases platforms with
  | none => exact ⟨fun _ => true, by simp [selectPlatforms]⟩
  | some chosen =>
    obtain ⟨hne, hnodup, hsub⟩ := h chosen rfl
    refine ⟨fun target => chosen.contains target.platform, ?_⟩
    have hconfigured : (chosen.any fun platform =>
        !(targets.any fun target => target.platform = platform)) = false := by
      rw [List.any_eq_false]
      intro platform hplatform
      obtain ⟨target, htarget, rfl⟩ := List.mem_map.mp (hsub hplatform)
      simpa using ⟨target, htarget, rfl⟩
    simp only [selectPlatforms]
    rw [if_neg (by simpa using hne), if_neg (by simp [hnodup, hconfigured])]

theorem lower_some {workflow : Option Text} {platforms : Option (List BuildPlatform)}
    {targets : List EffectiveTarget} (hselect : config.selectWorkflow workflow = .ok selected)
    (hmissing : (effectiveTargets config selected).2 = [])
    (htargets : selectPlatforms (effectiveTargets config selected).1 platforms = (targets, [])) :
    config.lower workflow platforms false (LowerState.start .fresh) =
      (lowerTargets config selected (varsOf (varSettings config selected)) targets >>=
        fun lowered => (pure (planOf config selected targets lowered) : LowerM PipelinePlan))
        (LowerState.start .fresh) := by
  unfold ConfigV2.lower
  rw [hselect]
  dsimp only
  generalize effectiveTargets config selected = effective at hmissing htargets
  obtain ⟨all, missingBuilds⟩ := effective
  dsimp only at hmissing htargets ⊢
  rw [hmissing, htargets]
  rfl

theorem plan_eq_ok {workflow : Option Text} {platforms : Option (List BuildPlatform)} :
    (∃ plan, config.plan workflow platforms = .ok plan) ↔
      ∃ plan s', config.lower workflow platforms false (LowerState.start .fresh) =
        (.ok plan, s') := by
  unfold ConfigV2.plan
  rcases config.lower workflow platforms false (LowerState.start .fresh) with ⟨result, s⟩
  cases result with
  | ok plan => simp [Except.mapError]
  | error errors => simp [Except.mapError]

/-- A workflow of an accepted file plans, for any of its targets, unless the track of a target
after an App Store upload is over a limit. -/
theorem plan_ok_iff (config : ConfigV2) {parsed : ConfigV2} (hparse : config.parse = .ok parsed)
    {workflow : Option Text} (hworkflow : workflow ∈ parsed.parsedWorkflows)
    {platforms : Option (List BuildPlatform)}
    (hplatforms : ∀ chosen, platforms = some chosen →
      chosen ≠ [] ∧ chosen.Nodup ∧ chosen ⊆ parsed.workflowPlatforms workflow) :
    (∃ plan, parsed.plan workflow platforms = .ok plan) ↔
      ¬ TrackOverLimit (parsed.plannedVars workflow) (parsed.plannedTargets workflow platforms) := by
  obtain ⟨hshape, herrors, runsOn, rfl⟩ := parse_eq_ok hparse
  obtain ⟨validate, budget, plan, s', hlower⟩ := lowered_of_workflowErrors herrors hworkflow
  have hknown : workflow ∈ config.parsedWorkflows := hworkflow
  obtain ⟨selected, hselect, hmem, hspec⟩ := selectWorkflow_of_parsed hknown
  obtain ⟨hmissing, s, lowered, hclean, hframe, hrun⟩ := lower_all hselect hlower
  obtain ⟨hall, hfits⟩ := effectiveTargets_platforms (targetsChecked hshape) hmissing hmem
  have htargets : ((selected.bind fun entry => entry.2.targets).getD config.targets).keys =
      ConfigV2.workflowPlatforms { config with runsOn } workflow := by
    change _ = (((workflow.bind config.workflows.get).bind WorkflowSpec.targets).getD
      config.targets).keys
    rw [hspec]
    cases selected <;> rfl
  have horder := pairwise_of_fits (hall ▸ OrderedMap.nodup _) fun target htarget =>
    (hfits target htarget).fits
  rw [htargets] at hall
  obtain ⟨keep, hselection⟩ := selectPlatforms_of_subset
    (effectiveTargets config selected).1 platforms (by rw [hall]; exact hplatforms)
  have hselected : ConfigV2.plannedTargets { config with runsOn } workflow platforms =
      (effectiveTargets config selected).1.filter keep := by
    change (selectPlatforms (effectiveTargets config
      ((config.selectWorkflow workflow).toOption.getD none)).1 platforms).1 = _
    rw [hselect]
    exact congrArg Prod.fst hselection
  have hvars : ConfigV2.plannedVars { config with runsOn } workflow =
      varsOf (varSettings config selected) := by
    change varsOf (varSettings config ((config.selectWorkflow workflow).toOption.getD none)) = _
    rw [hselect]
    rfl
  have hselect' : ConfigV2.selectWorkflow { config with runsOn } workflow = .ok selected := hselect
  rw [hselected, hvars, plan_eq_ok, lower_some hselect' hmissing hselection]
  constructor
  · rintro ⟨plan', t', hplan⟩ hlimit
    obtain ⟨lowered', t₁, hlowered, -⟩ := Run.bind_eq_ok_iff.mp hplan
    obtain ⟨publish, t₂, hpublish, -⟩ := Run.bind_eq_ok_iff.mp hlowered
    exact planPublish_not_ok hlimit hpublish
  · intro hlimit
    obtain ⟨lowered', t', hlowered⟩ := lowerTargets_both hclean (trails_fresh hframe) horder hlimit
      hrun
    exact ⟨_, t', (Run.bind_of_ok hlowered).trans rfl⟩

end

/-- A file with an App Store upload and a track after it. -/
def tracksFile : ConfigV2 where
  name := none
  app := ⟨none, []⟩
  targets := ⟨[(.ios, ⟨some "make ios", none, some (.on ⟨none, none,
      some ⟨.testflight, ["QA"], none, none⟩⟩), none⟩),
    (.android, ⟨some "make android", none, some (.on ⟨some ⟨"$\x7b\x7b vars.track \x7d\x7d", none,
      none, none⟩, none, none⟩), none⟩)], by decide⟩
  steps := none
  env := .empty
  vars := ⟨[("track", "internal")], by decide⟩
  on := none
  workflows := .empty
  signing := .none
  runsOn := []
  isolation := .host
  buildNumberOffset := 0

theorem tracksFile_parse : tracksFile.parse = .ok tracksFile := by
  have hsizes : tracksFile.sizeErrors = [] := by decide +kernel
  have hshape : tracksFile.shapeErrors = [] := by decide +kernel
  have hworkflows : tracksFile.workflowErrors 0 tracksFile.parsedWorkflows .fresh [] = [] := by
    decide +kernel
  have hlabels : normalizeRunnerLabels tracksFile.runsOn = .ok [] := by decide +kernel
  unfold ConfigV2.parse
  rw [hsizes, hshape, hworkflows, hlabels]
  rfl

theorem plan_ok_iff_tracksFile :
    tracksFile.parse = .ok tracksFile ∧
      ¬ TrackOverLimit (tracksFile.plannedVars none)
        (tracksFile.plannedTargets none (some [.android, .ios])) := by
  refine ⟨tracksFile_parse, (plan_ok_iff tracksFile tracksFile_parse (List.mem_singleton.mpr rfl) ?_).mp
    ?_⟩
  · rintro _ ⟨⟩
    decide
  · have hok : (tracksFile.plan none (some [.android, .ios])).isOk = true := by decide +kernel
    generalize tracksFile.plan none (some [.android, .ios]) = result at hok
    cases result with
    | error error => cases hok
    | ok plan => exact ⟨plan, rfl⟩

/-! ## A file that is accepted and does not plan -/

section

variable {vars : List (Text × Text)} {place : Place} {fuel : ℕ}

/-- What a var was resolved to. -/
def Work.cached (s : Work) (name : Text) (scope : FlavorScope) : Option Text :=
  s.cache.lookup (name, scope)

/-- A reference with this body. -/
def reference (body : Text) : Text := opening ++ " " ++ body ++ " " ++ closing

/-- A text without expressions resolves to itself. -/
theorem resolveInner_literal {text : Text} (h : splitFirst opening text = none) (s : Work) :
    resolveInner vars (fuel + 1) place text s = (.ok text, s) := by
  have hshort : isTooLong text text = false := by simp [isTooLong]
  rw [resolveInner, expandText, parseExpressions, scan_of_none h]
  refine (Run.bind_of_ok (Run.pure_apply _ s)).trans ?_
  rw [finishText, List.nil_append, hshort]
  rfl

/-- A var that holds no expressions. -/
theorem expandVar_literal (fuel : ℕ) {name value : Text} {s : Work}
    (hlookup : place.lookup vars name = .ok value) (hvalue : splitFirst opening value = none)
    (hcached : s.cached name place.scope = none ∨ s.cached name place.scope = some value)
    (hunder : s.budget.expansions < maxVarExpansions) :
    ∃ s', expandVar vars place (resolveInner vars (fuel + 1)) name s =
        (if maxTotalExpandedBytes < s.budget.bytes + byteLen value then
          .error (tooManyBytes place.path) else .ok value, s') ∧
      s'.budget = ⟨s.budget.expansions + 1, s.budget.bytes + byteLen value⟩ ∧
      s'.cached name place.scope = some value ∧
      ∀ other ≠ name, s'.cached other place.scope = s.cached other place.scope := by
  rcases hcached with hmiss | hhit
  · refine ⟨(s.spend.remember (name, place.scope) value).charge value, ?_, rfl, ?_, ?_⟩
    · exact expandVar_of_miss hlookup hunder hmiss (resolveInner_literal hvalue _)
    · simp [Work.cached, Work.charge, Work.remember]
    · intro other hother
      have hne : ((other, place.scope) == (name, place.scope)) = false := by simpa using hother
      simp only [Work.cached, Work.charge, Work.remember, Work.spend, List.lookup_cons, hne]
  · exact ⟨s.spend.charge value, expandVar_of_hit hlookup hunder hhit, rfl, hhit, fun _ _ => rfl⟩

/-- A text that is one reference, to a var that does not resolve. -/
theorem expandText_reference_error {σ : Type} {var : Text → Run σ Text Text}
    {text name error : Text} (h : parseExpressions text = .ok ([⟨[], text, .var name⟩], []))
    {s s' : σ} (hvar : var name s = (.error error, s')) :
    expandText place var text s = (.error error, s') := by
  rw [expandText, h]
  exact Run.bind_of_error (Run.bind_of_error hvar)

/-- A text that is one reference, to a var that resolves. -/
theorem expandText_reference_ok {σ : Type} {var : Text → Run σ Text Text}
    {text name added : Text} (h : parseExpressions text = .ok ([⟨[], text, .var name⟩], []))
    {s s' : σ} (hvar : var name s = (.ok added, s')) (hshort : isTooLong text added = false) :
    expandText place var text s = (.ok added, s') := by
  rw [expandText, h]
  have hpieces : expandPieces place var text [⟨[], text, .var name⟩] [] s = (.ok added, s') :=
    (Run.bind_of_ok hvar).trans (by simp [hshort, expandPieces])
  exact (Run.bind_of_ok hpieces).trans (by simp [finishText, hshort])

/-! ### The vars -/

/-- A text as long as a reference may expand to. -/
@[irreducible] def bigText : Text := List.replicate maxExpandedBytes 'x'

/-- References to an empty var, and one to the flavor. -/
@[irreducible] def fillerText (count : ℕ) : Text :=
  (List.replicate count (reference "vars.e")).flatten ++ reference "flavor"

/-- The vars of the file. Checking the last ones takes all the text that vars may add. -/
def overrunVars : List (Text × Text) :=
  (("big" : Text), bigText) :: (("e" : Text), []) :: (("x" : Text), reference "flavor") ::
    (("f" : Text), fillerText 2000) ::
    (List.range 64).map fun index => (("v" : Text) ++ ofNat index, reference "vars.big")

/-- The work on these vars, in a scope. -/
structure Stage (scope : FlavorScope) (expansions bytes : ℕ) (s : Work) : Prop where
  budget : s.budget = ⟨expansions, bytes⟩
  big : s.cached "big" scope = none ∨ s.cached "big" scope = some bigText
  empty : s.cached "e" scope = none ∨ s.cached "e" scope = some []
  broken : s.cached "x" scope = none
  filler : s.cached "f" scope = none

theorem byteLen_bigText : byteLen bigText = maxExpandedBytes := by
  have : Char.utf8Size 'x' = 1 := by decide
  simp [bigText, byteLen, this]

theorem splitFirst_bigText : splitFirst opening bigText = none := by
  rw [splitFirst_eq_none_iff]
  intro h
  have hmem : '$' ∈ bigText := h.subset (by decide)
  rw [bigText] at hmem
  have := List.eq_of_mem_replicate hmem
  revert this
  decide

/-- The empty var. -/
theorem Stage.empty_var (place : Place) {expansions bytes : ℕ} {s : Work}
    (h : Stage place.scope expansions bytes s) (hchain : ("e" : Text) ∉ place.chain)
    (hunder : expansions < maxVarExpansions) (fuel : ℕ) :
    ∃ s', Stage place.scope (expansions + 1) bytes s' ∧
      expandVar overrunVars place (resolveInner overrunVars (fuel + 1)) "e" s =
        (if maxTotalExpandedBytes < bytes then .error (tooManyBytes place.path) else .ok [], s') := by
  have hlookup : place.lookup overrunVars "e" = .ok [] := by
    rw [Place.lookup, if_neg hchain]
    rfl
  obtain ⟨s', hrun, hbudget, hcached, hothers⟩ := expandVar_literal fuel hlookup rfl h.empty
    (by rw [h.budget]; exact hunder)
  rw [h.budget] at hrun hbudget
  refine ⟨s', ⟨hbudget, ?_, .inr hcached, ?_, ?_⟩, hrun⟩
  · exact hothers "big" (by decide) ▸ h.big
  · exact hothers "x" (by decide) ▸ h.broken
  · exact hothers "f" (by decide) ▸ h.filler

theorem Stage.big_var (place : Place) {expansions bytes : ℕ} {s : Work}
    (h : Stage place.scope expansions bytes s) (hchain : ("big" : Text) ∉ place.chain)
    (hunder : expansions < maxVarExpansions) (fuel : ℕ) :
    ∃ s', Stage place.scope (expansions + 1) (bytes + maxExpandedBytes) s' ∧
      expandVar overrunVars place (resolveInner overrunVars (fuel + 1)) "big" s =
        (if maxTotalExpandedBytes < bytes + maxExpandedBytes then .error (tooManyBytes place.path)
          else .ok bigText, s') := by
  have hlookup : place.lookup overrunVars "big" = .ok bigText := by
    rw [Place.lookup, if_neg hchain]
    rfl
  obtain ⟨s', hrun, hbudget, hcached, hothers⟩ := expandVar_literal fuel hlookup
    splitFirst_bigText h.big (by rw [h.budget]; exact hunder)
  rw [h.budget, byteLen_bigText] at hrun hbudget
  refine ⟨s', ⟨hbudget, .inr hcached, ?_, ?_, ?_⟩, hrun⟩
  · exact hothers "e" (by decide) ▸ h.empty
  · exact hothers "x" (by decide) ▸ h.broken
  · exact hothers "f" (by decide) ▸ h.filler

/-- The reference to the empty var, and the one to the flavor. -/
def emptyPiece : Piece := ⟨[], reference "vars.e", .var "e"⟩

def flavorPiece : Piece := ⟨[], reference "flavor", .flavor⟩

/-- The references to vars of the file. -/
theorem parse_var {name : Text} (h : name ∈ (["big", "e", "x", "f"] : List Text)) :
    parseExpressions (reference ("vars." ++ name)) =
      .ok ([⟨[], reference ("vars." ++ name), .var name⟩], []) := by
  revert name
  decide +kernel

theorem parse_flavor : parseExpressions (reference "flavor") = .ok ([flavorPiece], []) := by
  decide +kernel

theorem parse_fillerText (count : ℕ) :
    parseExpressions (fillerText count) = .ok (List.replicate count emptyPiece ++ [flavorPiece], []) := by
  induction count with
  | zero => simpa [fillerText] using parse_flavor
  | succ count ih =>
    have hfiller : fillerText (count + 1) = [] ++ (reference "vars.e" ++ fillerText count) := by
      simp [fillerText, List.replicate_succ]
    have hreference : scan readExpression (reference "vars.e") = .ok ([emptyPiece], []) :=
      @parse_var "e" (by decide)
    rw [hfiller, parseExpressions, scan_append hreference (by decide)]
    rw [parseExpressions] at ih
    rw [ih]
    rfl

/-- References to the empty var, within the limits. -/
theorem Stage.empties (place : Place) {expansions bytes count : ℕ} {s : Work}
    (h : Stage place.scope expansions bytes s) (hchain : ("e" : Text) ∉ place.chain)
    (hunder : expansions + count ≤ maxVarExpansions) (hbytes : bytes ≤ maxTotalExpandedBytes)
    (fuel : ℕ) (text : Text) (rest : List Piece) :
    ∃ s', Stage place.scope (expansions + count) bytes s' ∧
      expandPieces place (expandVar overrunVars place (resolveInner overrunVars (fuel + 1))) text
        (List.replicate count emptyPiece ++ rest) [] s =
      expandPieces place (expandVar overrunVars place (resolveInner overrunVars (fuel + 1))) text
        rest [] s' := by
  induction count generalizing expansions s with
  | zero => exact ⟨s, h, rfl⟩
  | succ count ih =>
    obtain ⟨s₁, h₁, hrun⟩ := Stage.empty_var place h hchain (by omega) fuel
    rw [if_neg (Nat.not_lt.mpr hbytes)] at hrun
    obtain ⟨s', h', hrest⟩ := ih h₁ (by omega)
    refine ⟨s', by rwa [Nat.add_right_comm] at h', ?_⟩
    rw [← hrest, List.replicate_succ, List.cons_append]
    refine (Run.bind_of_ok hrun).trans ?_
    change (if isTooLong text [] then _ else _ : Run Work Text Text) s₁ = _
    rw [isTooLong_nil]
    rfl

/-- References to the empty var, past the limit of expansions. -/
theorem Stage.empties_over (place : Place) {expansions bytes count : ℕ} {s : Work}
    (h : Stage place.scope expansions bytes s) (hchain : ("e" : Text) ∉ place.chain)
    (hunder : expansions ≤ maxVarExpansions) (hover : maxVarExpansions < expansions + count)
    (hbytes : bytes ≤ maxTotalExpandedBytes) (fuel : ℕ) (text : Text) (rest : List Piece) :
    ∃ error last s', maxVarExpansions < last ∧ Stage place.scope last bytes s' ∧
      expandPieces place (expandVar overrunVars place (resolveInner overrunVars (fuel + 1))) text
        (List.replicate count emptyPiece ++ rest) [] s = (.error error, s') := by
  induction count generalizing expansions s with
  | zero => omega
  | succ count ih =>
    rw [List.replicate_succ, List.cons_append]
    rcases hunder.eq_or_lt with heq | hlt
    · have hlookup : place.lookup overrunVars "e" = .ok [] := by
        rw [Place.lookup, if_neg hchain]
        rfl
      refine ⟨tooManyExpansions place.path, expansions + 1, s.spend, by omega, ?_, ?_⟩
      · exact ⟨by rw [Work.spend, h.budget], h.big, h.empty, h.broken, h.filler⟩
      · refine Run.bind_of_error (expandVar_of_limit hlookup ?_)
        rw [Work.spend, h.budget]
        exact heq ▸ Nat.lt_succ_self _
    · obtain ⟨s₁, h₁, hrun⟩ := Stage.empty_var place h hchain hlt fuel
      rw [if_neg (Nat.not_lt.mpr hbytes)] at hrun
      obtain ⟨error, last, s', hlast, h', hrest⟩ := ih h₁ (by omega) (by omega)
      refine ⟨error, last, s', hlast, h', ?_⟩
      rw [← hrest]
      refine (Run.bind_of_ok hrun).trans ?_
      change (if isTooLong text [] then _ else _ : Run Work Text Text) s₁ = _
      rw [isTooLong_nil]
      rfl

theorem Stage.spend {scope : FlavorScope} {expansions bytes : ℕ} {s : Work}
    (h : Stage scope expansions bytes s) : Stage scope (expansions + 1) bytes s.spend :=
  ⟨by rw [Work.spend, h.budget], h.big, h.empty, h.broken, h.filler⟩

/-! ### The upload texts -/

variable {path : Text} {expansions bytes : ℕ} {s : Work}

/-- A reference to the flavor in an upload. -/
theorem resolve_flavor (path : Text) (s : Work) :
    resolve overrunVars (reference "flavor") .outside path s =
      (Place.flavor ⟨.outside, path, 0, []⟩, s) := by
  rw [resolve, resolveFrom, resolveInner, expandText, parse_flavor]
  exact Run.bind_of_error (Run.bind_of_error rfl)

/-- What is resolved for a reference to a var in an upload. -/
theorem resolve_reference {name error : Text} {s' : Work}
    (hparse : parseExpressions (reference ("vars." ++ name)) =
      .ok ([⟨[], reference ("vars." ++ name), .var name⟩], []))
    (h : expandVar overrunVars ⟨.outside, path, 0, []⟩
      (resolveInner overrunVars overrunVars.length) name s = (.error error, s')) :
    resolve overrunVars (reference ("vars." ++ name)) .outside path s = (.error error, s') := by
  rw [resolve, resolveFrom, resolveInner]
  exact expandText_reference_error hparse h

theorem length_overrunVars : overrunVars.length = 66 + 1 + 1 := by
  simp [overrunVars]

theorem lookup_f : Place.lookup ⟨.outside, path, 0, []⟩ overrunVars "f" = .ok (fillerText 2000) := rfl

theorem lookup_x : Place.lookup ⟨.outside, path, 0, []⟩ overrunVars "x" = .ok (reference "flavor") :=
  rfl

/-- Every reference to the filler counts all its references, or passes the limit. -/
theorem Stage.filler_under (h : Stage .outside expansions bytes s)
    (hbytes : bytes ≤ maxTotalExpandedBytes) (path : Text) :
    ∃ error last s', resolve overrunVars (reference ("vars." ++ "f")) .outside path s =
        (.error error, s') ∧
      Stage .outside last bytes s' ∧ (last = expansions + 2001 ∨ maxVarExpansions < last) := by
  rcases Nat.lt_or_ge expansions maxVarExpansions with hlt | hge
  · have hunder : s.spend.budget.expansions ≤ maxVarExpansions := by
      rw [h.spend.budget]
      exact hlt
    have hchain : ("e" : Text) ∉ (Place.into ⟨.outside, path, 0, []⟩ "f").chain := by
      simp [Place.into]
    have hinner : ∀ {error s'}, expandPieces (Place.into ⟨.outside, path, 0, []⟩ "f")
        (expandVar overrunVars (Place.into ⟨.outside, path, 0, []⟩ "f")
          (resolveInner overrunVars (66 + 1))) (fillerText 2000)
        (List.replicate 2000 emptyPiece ++ [flavorPiece]) [] s.spend = (.error error, s') →
        resolve overrunVars (reference ("vars." ++ "f")) .outside path s = (.error error, s') := by
      intro error s' hpieces
      refine resolve_reference (parse_var (by decide)) ?_
      rw [length_overrunVars]
      refine expandVar_of_inner_error lookup_f hunder h.filler ?_
      rw [resolveInner, expandText, parse_fillerText]
      exact Run.bind_of_error hpieces
    rcases Nat.lt_or_ge maxVarExpansions (expansions + 1 + 2000) with hover | hle
    · obtain ⟨error, last, s', hlast, hstage, hrun⟩ := Stage.empties_over
        (Place.into ⟨.outside, path, 0, []⟩ "f") h.spend hchain hlt hover hbytes 66
        (fillerText 2000) [flavorPiece]
      exact ⟨error, last, s', hinner hrun, hstage, .inr hlast⟩
    · obtain ⟨s', hstage, hrun⟩ := Stage.empties
        (Place.into ⟨.outside, path, 0, []⟩ "f") h.spend hchain hle hbytes 66
        (fillerText 2000) [flavorPiece]
      exact ⟨_, _, s', hinner (hrun.trans (Run.bind_of_error rfl)), hstage, .inl rfl⟩
  · refine ⟨_, _, _, resolve_reference (parse_var (by decide)) (expandVar_of_limit lookup_f ?_),
      h.spend, .inr (Nat.lt_succ_of_le hge)⟩
    rw [h.spend.budget]
    exact Nat.lt_succ_of_le hge

/-- Once vars may add no text, a reference to the filler stops at the first of its references. -/
theorem Stage.filler_over (h : Stage .outside expansions bytes s)
    (hunder : expansions + 1 < maxVarExpansions) (hbytes : maxTotalExpandedBytes < bytes)
    (path : Text) :
    ∃ error s', resolve overrunVars (reference ("vars." ++ "f")) .outside path s =
        (.error error, s') ∧ Stage .outside (expansions + 2) bytes s' := by
  have hchain : ("e" : Text) ∉ (Place.into ⟨.outside, path, 0, []⟩ "f").chain := by
    simp [Place.into]
  obtain ⟨s', hstage, hrun⟩ := Stage.empty_var (Place.into ⟨.outside, path, 0, []⟩ "f") h.spend hchain
    hunder 66
  rw [if_pos hbytes] at hrun
  refine ⟨tooManyBytes path, s', resolve_reference (parse_var (by decide)) ?_, hstage⟩
  rw [length_overrunVars]
  refine expandVar_of_inner_error lookup_f ?_ h.filler ?_
  · rw [h.spend.budget]
    exact hunder.le
  · rw [resolveInner, expandText, parse_fillerText]
    exact Run.bind_of_error (Run.bind_of_error hrun)

/-- A reference to the var that refers to the flavor, within the limits. -/
theorem Stage.broken_under (h : Stage .outside expansions bytes s)
    (hunder : expansions < maxVarExpansions) (path : Text) :
    resolve overrunVars (reference ("vars." ++ "x")) .outside path s =
      (Place.flavor (Place.into ⟨.outside, path, 0, []⟩ "x"), s.spend) := by
  refine resolve_reference (parse_var (by decide)) ?_
  rw [length_overrunVars]
  refine expandVar_of_inner_error lookup_x ?_ h.broken ?_
  · rw [h.spend.budget]
    exact hunder
  · rw [resolveInner, expandText, parse_flavor]
    exact Run.bind_of_error (Run.bind_of_error rfl)

theorem Stage.broken_over (h : Stage .outside expansions bytes s)
    (hover : maxVarExpansions < expansions) (path : Text) :
    resolve overrunVars (reference ("vars." ++ "x")) .outside path s =
      (.error (tooManyExpansions path), s.spend) := by
  refine resolve_reference (parse_var (by decide)) (expandVar_of_limit lookup_x ?_)
  rw [h.spend.budget]
  exact hover.trans (Nat.lt_succ_self _)

/-! ### Checking the vars -/

theorem validateVars_ok {key value path : Text} {rest : List Setting} {t : LowerState}
    {resolved : Text} {work : Work}
    (h : resolveFrom vars value validationScope path [key] t.work = (.ok resolved, work)) :
    validateVars vars (⟨key, value, path⟩ :: rest) t = validateVars vars rest { t with work } := by
  have hrun : withResolver (resolveFrom vars value validationScope path [key]) t =
      (.ok (.ok resolved), { t with work }) := by
    unfold withResolver
    rw [h]
  exact (Run.bind_of_ok hrun).trans rfl

/-- Vars that refer to the big one each add its text. -/
theorem Stage.validateBigs {settings : List Setting} {t : LowerState}
    (h : Stage validationScope expansions bytes t.work)
    (hsettings : ∀ setting ∈ settings, setting.value = reference "vars.big" ∧
      setting.key ≠ "big")
    (hunder : expansions + settings.length ≤ maxVarExpansions)
    (hbytes : bytes + settings.length * maxExpandedBytes ≤ maxTotalExpandedBytes) :
    ∃ t', validateVars overrunVars settings t = (.ok (), t') ∧ t'.errors = t.errors ∧
      Stage validationScope (expansions + settings.length)
        (bytes + settings.length * maxExpandedBytes) t'.work := by
  induction settings generalizing expansions bytes t with
  | nil => exact ⟨t, rfl, rfl, by simpa using h⟩
  | cons setting rest ih =>
    obtain ⟨hvalue, hkey⟩ := hsettings setting List.mem_cons_self
    rw [List.length_cons, Nat.add_mul] at hbytes
    rw [List.length_cons] at hunder
    have hchain : ("big" : Text) ∉ [setting.key] := by simpa using hkey.symm
    obtain ⟨work, hstage, hrun⟩ := Stage.big_var ⟨validationScope, setting.path, 1, [setting.key]⟩ h
      hchain (by omega) (66 + 1)
    rw [if_neg (by omega)] at hrun
    have hresolve : resolveFrom overrunVars setting.value validationScope setting.path [setting.key]
        t.work = (.ok bigText, work) := by
      rw [resolveFrom, resolveInner, length_overrunVars, hvalue]
      refine expandText_reference_ok (@parse_var "big" (by decide)) hrun ?_
      simp [isTooLong, byteLen_bigText]
    obtain ⟨t', hrest, herrors, hstage'⟩ := ih (t := { t with work }) hstage
      (fun setting hmem => hsettings setting (List.mem_cons_of_mem _ hmem)) (by omega) (by omega)
    refine ⟨t', (validateVars_ok hresolve).trans hrest, herrors, ?_⟩
    rw [List.length_cons, Nat.add_mul, Nat.one_mul, Nat.add_comm rest.length 1,
      Nat.add_comm (rest.length * _), ← Nat.add_assoc, ← Nat.add_assoc]
    exact hstage'

/-- The settings of the vars that refer to the big one. -/
def bigSettings : List Setting :=
  (List.range 64).map fun index =>
    let key := ("v" : Text) ++ ofNat index
    ⟨key, reference "vars.big", "vars" ++ "." ++ key⟩

theorem isTooLong_flavor (text : Text) : isTooLong text "flavor" = false := by
  have hshort : ¬ maxExpandedBytes < byteLen ("flavor" : Text) := by decide
  simp only [isTooLong, hshort, decide_false, Bool.false_and]

/-- A reference to the flavor where vars are checked, at the end of a text. -/
theorem expandPieces_flavor {σ : Type} {var : Text → Run σ Text Text} {place : Place}
    (hscope : place.scope = validationScope) (text : Text) (s : σ) :
    expandPieces place var text [flavorPiece] [] s = (.ok "flavor", s) := by
  have hflavor : place.flavor = .ok "flavor" := by rw [Place.flavor, hscope]; rfl
  have hpiece : expandPiece place var flavorPiece s = (.ok "flavor", s) := by
    change (place.flavor, s) = _
    rw [hflavor]
  have hshort : isTooLong text "flavor" = false := isTooLong_flavor text
  refine (Run.bind_of_ok hpiece).trans ?_
  change (if isTooLong text "flavor" then _ else _ : Run σ Text Text) s = _
  rw [hshort]
  rfl

theorem finishText_flavor {σ : Type} (place : Place) (text : Text) (s : σ) :
    finishText place text [] "flavor" s = (.ok "flavor", s) := by
  unfold finishText
  rw [List.append_nil, isTooLong_flavor]
  rfl

/-- Checking the filler. -/
theorem Stage.validateFiller (count : ℕ) (h : Stage validationScope expansions bytes s)
    (hunder : expansions + count ≤ maxVarExpansions) (hbytes : bytes ≤ maxTotalExpandedBytes) :
    ∃ work, Stage validationScope (expansions + count) bytes work ∧
      resolveFrom overrunVars (fillerText count) validationScope "vars.f" ["f"] s =
        (.ok "flavor", work) := by
  obtain ⟨work, hstage, hrun⟩ := Stage.empties ⟨validationScope, "vars.f", 1, ["f"]⟩ h (by decide)
    hunder hbytes (66 + 1) (fillerText count) [flavorPiece]
  refine ⟨work, hstage, ?_⟩
  rw [resolveFrom, resolveInner, length_overrunVars, expandText, parse_fillerText]
  exact (Run.bind_of_ok (hrun.trans (expandPieces_flavor rfl _ _))).trans (finishText_flavor _ _ _)

/-- Checking the vars passes no limit, but leaves no text for vars to add. -/
theorem validate_overrunVars :
    ∃ t, validateVars overrunVars (⟨"big", bigText, "vars.big"⟩ :: ⟨"e", [], "vars.e"⟩ ::
        ⟨"x", reference "flavor", "vars.x"⟩ :: ⟨"f", fillerText 2000, "vars.f"⟩ :: bigSettings)
        (LowerState.start .fresh) = (.ok (), t) ∧ t.errors = [] ∧
      Stage validationScope 2064 maxTotalExpandedBytes t.work := by
  have hstart : Stage validationScope 0 0 (LowerState.start .fresh).work :=
    ⟨rfl, .inl rfl, .inl rfl, rfl, rfl⟩
  have hbig : resolveFrom overrunVars bigText validationScope "vars.big" ["big"]
      (LowerState.start .fresh).work = (.ok bigText, (LowerState.start .fresh).work) :=
    resolveInner_literal splitFirst_bigText _
  have he : resolveFrom overrunVars [] validationScope "vars.e" ["e"]
      (LowerState.start .fresh).work = (.ok [], (LowerState.start .fresh).work) :=
    resolveInner_literal rfl _
  rw [validateVars_ok hbig, validateVars_ok he]
  have hx : resolveFrom overrunVars (reference "flavor") validationScope "vars.x" ["x"]
      (LowerState.start .fresh).work = (.ok "flavor", (LowerState.start .fresh).work) := by
    rw [resolveFrom, resolveInner, expandText, parse_flavor]
    exact (Run.bind_of_ok (expandPieces_flavor rfl _ _)).trans (finishText_flavor _ _ _)
  rw [validateVars_ok hx]
  obtain ⟨work, hstage, hf⟩ := Stage.validateFiller 2000 hstart (by decide) (Nat.zero_le _)
  rw [validateVars_ok hf]
  have hlength : bigSettings.length = 64 := by simp [bigSettings]
  have hvalues : ∀ setting ∈ bigSettings, setting.value = reference "vars.big" ∧
      setting.key ≠ "big" := by
    intro setting hmem
    obtain ⟨index, -, rfl⟩ := List.mem_map.mp hmem
    refine ⟨rfl, fun h => ?_⟩
    cases h
  obtain ⟨t, hbigs, herrors, hstage'⟩ := Stage.validateBigs (t := ⟨work, []⟩) hstage hvalues
    (by rw [hlength]; decide) (by rw [hlength]; decide)
  refine ⟨t, hbigs, herrors, ?_⟩
  rw [hlength] at hstage'
  exact hstage'

/-! ### The groups -/

theorem resolveGroup_of_error {path error : Text} {found : Groups} {group : Text × ℕ}
    {t : LowerState} {work : Work}
    (h : resolve vars group.1 .outside (path ++ "." ++ atIndex "app_store.groups" group.2) t.work =
      (.error error, work)) :
    resolveGroup vars path found group t =
      (.ok { found with error := found.error.or (some error) }, { t with work }) := by
  obtain ⟨result, hresult, hrun⟩ := resolveGroup_apply vars path found group t
  rw [resolveUpload_apply, h] at hresult hrun
  rw [hrun, ← Except.ok.inj hresult]
  rfl

/-- The groups of the filler, once vars may add no text. -/
theorem Stage.groups_over {path error : Text} {groups : List (Text × ℕ)} {found : Groups}
    {t : LowerState} (hgroups : ∀ group ∈ groups, group.1 = reference ("vars." ++ "f"))
    (herror : found.error = some error) (h : Stage .outside expansions bytes t.work)
    (hunder : expansions + 2 * groups.length < maxVarExpansions)
    (hbytes : maxTotalExpandedBytes < bytes) :
    ∃ found' t', Run.foldEach (resolveGroup overrunVars path) found groups t = (.ok found', t') ∧
      found'.error = some error ∧ t'.errors = t.errors ∧
      Stage .outside (expansions + 2 * groups.length) bytes t'.work := by
  induction groups generalizing expansions found t with
  | nil => exact ⟨found, t, rfl, herror, rfl, h⟩
  | cons group rest ih =>
    rw [List.length_cons] at hunder
    obtain ⟨error', work, hrun, hstage⟩ := h.filler_over (by omega) hbytes
      (path ++ "." ++ atIndex "app_store.groups" group.2)
    rw [← hgroups group List.mem_cons_self] at hrun
    have herror' : Groups.error { found with error := found.error.or (some error') } =
        some error := by
      rw [herror]
      rfl
    obtain ⟨found', t', hrest, hfound, herrors, hstage'⟩ := ih (t := { t with work })
      (fun group hmem => hgroups group (List.mem_cons_of_mem _ hmem)) herror' hstage (by omega)
    refine ⟨found', t', (Run.bind_of_ok (resolveGroup_of_error hrun)).trans hrest, hfound, herrors, ?_⟩
    rw [List.length_cons, Nat.mul_add, Nat.add_comm (2 * _), ← Nat.add_assoc]
    exact hstage'

/-- The groups of the filler on a budget of their own. -/
theorem Stage.uploads_under (uploads : List (Text × Text))
    (huploads : ∀ upload ∈ uploads, upload.1 = reference ("vars." ++ "f"))
    (h : Stage .outside expansions bytes s) (hbytes : bytes ≤ maxTotalExpandedBytes) :
    ∃ last, Stage .outside last bytes (resolveUploads overrunVars uploads s) ∧
      (last = expansions + 2001 * uploads.length ∨ maxVarExpansions < last) := by
  induction uploads generalizing expansions s with
  | nil => exact ⟨expansions, h, .inl rfl⟩
  | cons upload rest ih =>
    obtain ⟨error, next, work, hrun, hstage, hnext⟩ := h.filler_under hbytes upload.2
    rw [← huploads upload List.mem_cons_self] at hrun
    obtain ⟨last, hlast, hor⟩ := ih (fun upload hmem => huploads upload (List.mem_cons_of_mem _ hmem))
      hstage
    refine ⟨last, ?_, ?_⟩
    · change Stage .outside last bytes (resolveUploads overrunVars rest
        (resolve overrunVars upload.1 .outside upload.2 s).2)
      rw [hrun]
      exact hlast
    · rw [List.length_cons]
      omega

theorem AllSettled.resolveUploads {a : Work} (h : AllSettled vars a) (uploads : List (Text × Text)) :
    AllSettled vars (resolveUploads vars uploads a) := by
  induction uploads generalizing a with
  | nil => exact h
  | cons upload rest ih => exact ih (h.resolves outside_live upload.1 upload.2)

end

/-! ### The file -/

def overrunGroups : List Text :=
  reference "flavor" :: reference "vars.big" :: List.replicate 125 (reference ("vars." ++ "f"))

/-- A file whose checks take all the text that vars may add. -/
def overrunFile : ConfigV2 where
  name := none
  app := ⟨none, []⟩
  targets := ⟨[(.ios, ⟨some "make ios", none, some (.on ⟨none, none,
      some ⟨.testflight, overrunGroups, none, none⟩⟩), none⟩),
    (.android, ⟨some "make android", none, some (.on ⟨some ⟨reference ("vars." ++ "x"), none, none,
      none⟩, none, none⟩), none⟩)], by decide⟩
  steps := none
  env := .empty
  vars := ⟨overrunVars, by decide +kernel⟩
  on := none
  workflows := .empty
  signing := .none
  runsOn := []
  isolation := .host
  buildNumberOffset := 0

theorem overrunFile_sizeErrors : overrunFile.sizeErrors = [] := by decide +kernel

theorem overrunFile_shapeErrors : overrunFile.shapeErrors = [] := by decide +kernel

def overrunIos : EffectiveTarget :=
  { platform := .ios, build := "make ios", buildSource := "targets.ios.build", artifacts := none
    publish := some (⟨none, none, some ⟨.testflight, overrunGroups, none, none⟩⟩,
      "targets.ios.publish")
    budgets := none }

def overrunAndroid : EffectiveTarget :=
  { platform := .android, build := "make android", buildSource := "targets.android.build"
    artifacts := none
    publish := some (⟨some ⟨reference ("vars." ++ "x"), none, none, none⟩, none, none⟩,
      "targets.android.publish")
    budgets := none }

theorem overrunFile_targets :
    effectiveTargets overrunFile none = ([overrunIos, overrunAndroid], []) := rfl

/-- The groups of the filler, with their indices. -/
def fillerGroups : List (Text × ℕ) :=
  (List.replicate 125 (reference ("vars." ++ "f"))).zipIdx 2

theorem fst_of_mem_fillerGroups {group : Text × ℕ} (h : group ∈ fillerGroups) :
    group.1 = reference ("vars." ++ "f") :=
  List.eq_of_mem_replicate (List.fst_mem_of_mem_zipIdx h)

theorem length_fillerGroups : fillerGroups.length = 125 := by simp [fillerGroups]

theorem zipIdx_overrunGroups :
    overrunGroups.zipIdx = (reference "flavor", 0) :: (reference "vars.big", 1) :: fillerGroups := by
  rw [overrunGroups, List.zipIdx_cons, List.zipIdx_cons]
  rfl

/-- What is wrong with the first group. -/
def overrunError : Text :=
  "targets.ios.publish" ++ "." ++ atIndex "app_store.groups" 0 ++
    " uses $\x7b\x7b flavor \x7d\x7d" ++ ([] : Text) ++
    ", which is only available in a target's build and artifacts"

/-- The groups, where the vars were checked before. -/
theorem resolveGroups_over {t : LowerState} (h : Stage .outside 2064 maxTotalExpandedBytes t.work) :
    ∃ found t', resolveGroups overrunVars "targets.ios.publish" overrunGroups t = (.ok found, t') ∧
      found.error = some overrunError ∧ t'.errors = t.errors ∧
      Stage .outside 2315 (maxTotalExpandedBytes + maxExpandedBytes) t'.work := by
  obtain ⟨work, hstage, hbig⟩ := Stage.big_var ⟨.outside, "targets.ios.publish" ++ "." ++
    atIndex "app_store.groups" 1, 0, []⟩ h (by simp) (by decide) (66 + 1)
  rw [if_pos (by decide)] at hbig
  have hfirst : resolve overrunVars (reference "flavor") .outside
      ("targets.ios.publish" ++ "." ++ atIndex "app_store.groups" 0) t.work =
        (.error overrunError, t.work) := resolve_flavor _ t.work
  have hsecond : resolve overrunVars (reference "vars.big") .outside
      ("targets.ios.publish" ++ "." ++ atIndex "app_store.groups" 1) t.work =
        (.error (tooManyBytes ("targets.ios.publish" ++ "." ++ atIndex "app_store.groups" 1)), work) := by
    rw [resolve, resolveFrom, resolveInner, length_overrunVars]
    exact expandText_reference_error (@parse_var "big" (by decide)) hbig
  have hgroup₁ : resolveGroup overrunVars "targets.ios.publish" ⟨[], none⟩ (reference "flavor", 0) t =
      (.ok ⟨[], some overrunError⟩, t) := resolveGroup_of_error hfirst
  have hgroup₂ : resolveGroup overrunVars "targets.ios.publish" ⟨[], some overrunError⟩
      (reference "vars.big", 1) t = (.ok ⟨[], some overrunError⟩, { t with work }) :=
    resolveGroup_of_error hsecond
  have hlength := length_fillerGroups
  obtain ⟨found, t', hrest, hfound, herrors, hstage'⟩ := Stage.groups_over (t := { t with work })
    (fun group hmem => fst_of_mem_fillerGroups hmem)
    (rfl : Groups.error ⟨[], some overrunError⟩ = some overrunError) hstage
    (by rw [hlength]; decide) (by decide)
  rw [hlength] at hstage'
  refine ⟨found, t', ?_, hfound, herrors, hstage'⟩
  rw [resolveGroups, zipIdx_overrunGroups]
  exact (Run.foldEach_of_ok hgroup₁).trans ((Run.foldEach_of_ok hgroup₂).trans hrest)

theorem orKeep_some {α β : Type} {a : α} {b : β} {f : α → LowerM β} (kept : Option β)
    {s s' : LowerState} (h : f a s = (.ok b, s')) : orKeep (some a) f kept s = (.ok (some b), s') :=
  (Run.bind_of_ok h).trans rfl

theorem resolveUploads_cons (vars : List (Text × Text)) (upload : Text × Text)
    (rest : List (Text × Text)) (s : Work) :
    resolveUploads vars (upload :: rest) s =
      resolveUploads vars rest (resolve vars upload.1 .outside upload.2 s).2 := rfl

theorem publishTarget_of_parts (target : EffectiveTarget) (publish : PlanPublish)
    {vars : List (Text × Text)} {flavors : List Text} {flavorsPath path : Text} {spec : PublishSpec}
    {s s₁ s₂ s₃ : LowerState} {play : Option (PlannedPublish PlayPublishSpec)}
    {testflight : Option (PlannedPublish TestflightPublishSpec)}
    {appStore : Option (PlannedPublish AppStorePublishSpec)}
    (hpublish : target.publish = some (spec, path))
    (hplay : orKeep spec.play (publishPlay vars path (flavorError flavors flavorsPath path))
      publish.play s = (.ok play, s₁))
    (htestflight : orKeep spec.testflight (publishTestflight vars path
      (flavorError flavors flavorsPath path)) publish.testflight s₁ = (.ok testflight, s₂))
    (happStore : orKeep spec.appStore (publishAppStore vars path
      (flavorError flavors flavorsPath path)) publish.appStore s₂ = (.ok appStore, s₃)) :
    publishTarget vars flavors flavorsPath publish target s = (.ok ⟨play, testflight, appStore⟩, s₃) := by
  unfold publishTarget
  rw [hpublish]
  exact (Run.bind_of_ok hplay).trans ((Run.bind_of_ok htestflight).trans
    ((Run.bind_of_ok happStore).trans rfl))

/-- Where the vars were checked before, no limit ends the uploads. -/
theorem overrunFile_publish {t : LowerState}
    (h : Stage .outside 2064 maxTotalExpandedBytes t.work) :
    ∃ publish t', planPublish overrunVars [] "app.flavors" [overrunIos, overrunAndroid] t =
      (.ok publish, t') ∧ t'.errors = t.errors := by
  obtain ⟨found, t₁, hgroups, hfound, herrors, hstage⟩ := resolveGroups_over h
  have hios : publishAppStore overrunVars "targets.ios.publish"
      (flavorError [] "app.flavors" "targets.ios.publish")
      ⟨.testflight, overrunGroups, none, none⟩ t = (.ok ⟨⟨.testflight, found.groups, none, none⟩,
        "targets.ios.publish" ++ ".app_store", found.error.or none⟩, t₁) := by
    refine publishAppStore_eq_ok.mpr ⟨found, hgroups, ?_, rfl⟩
    rw [hfound]
    decide +kernel
  have htrack := hstage.broken_under (by decide) ("targets.android.publish" ++ "." ++ "play.track")
  have hplay : ∃ planned t', publishPlay overrunVars "targets.android.publish"
      (flavorError [] "app.flavors" "targets.android.publish")
      ⟨reference ("vars." ++ "x"), none, none, none⟩ t₁ = (.ok planned, t') ∧
        t'.errors = t₁.errors := by
    refine ⟨_, { t₁ with work := t₁.work.spend }, resolvePlanned_eq_ok.mpr
      ⟨checkUpload ("targets.android.publish" ++ "." ++ "play.track") (Place.flavor (Place.into
        ⟨.outside, "targets.android.publish" ++ "." ++ "play.track", 0, []⟩ "x")), ?_, ?_, rfl⟩, rfl⟩
    · rw [resolveUpload_apply, htrack]
    · decide +kernel
  obtain ⟨planned, t₂, hplanned, herrors'⟩ := hplay
  obtain ⟨publish, hfirst⟩ : ∃ publish, publishTarget overrunVars [] "app.flavors" .none overrunIos t =
      (.ok publish, t₁) :=
    ⟨_, publishTarget_of_parts overrunIos .none rfl rfl rfl (orKeep_some none hios)⟩
  have hsecond := publishTarget_of_parts overrunAndroid publish rfl
    (orKeep_some publish.play hplanned) rfl rfl
  exact ⟨_, t₂, (Run.foldEach_of_ok hfirst).trans ((Run.foldEach_of_ok hsecond).trans rfl),
    herrors'.trans herrors⟩

/-- On a budget of its own, the track is over the limit. -/
theorem overrunFile_trackOverLimit : TrackOverLimit overrunVars [overrunIos, overrunAndroid] := by
  have hstart : Stage .outside 0 0 ⟨.fresh, []⟩ := ⟨rfl, .inl rfl, .inl rfl, rfl, rfl⟩
  obtain ⟨work, hstage, hbig⟩ := Stage.big_var ⟨.outside, "targets.ios.publish" ++ "." ++
    atIndex "app_store.groups" 1, 0, []⟩ hstart (by simp) (by decide) (66 + 1)
  rw [if_neg (by decide)] at hbig
  have hsecond : resolve overrunVars (reference "vars.big") .outside
      ("targets.ios.publish" ++ "." ++ atIndex "app_store.groups" 1) ⟨.fresh, []⟩ =
        (.ok bigText, work) := by
    rw [resolve, resolveFrom, resolveInner, length_overrunVars]
    exact expandText_reference_ok (@parse_var "big" (by decide)) hbig (by simp [isTooLong, byteLen_bigText])
  obtain ⟨last, hlast, hor⟩ := Stage.uploads_under (fillerGroups.map fun entry =>
    (entry.1, ("targets.ios.publish" : Text) ++ "." ++ atIndex "app_store.groups" entry.2))
    (fun upload hmem => by
      obtain ⟨group, hgroup, rfl⟩ := List.mem_map.mp hmem
      exact fst_of_mem_fillerGroups hgroup) hstage (by decide)
  rw [List.length_map, length_fillerGroups] at hor
  have hover : maxVarExpansions < last := by
    have : maxVarExpansions = 250000 := rfl
    omega
  have huploads : resolveUploads overrunVars ([overrunIos].flatMap EffectiveTarget.uploads)
      ⟨.fresh, []⟩ = resolveUploads overrunVars (fillerGroups.map fun entry =>
        (entry.1, ("targets.ios.publish" : Text) ++ "." ++ atIndex "app_store.groups" entry.2)) work := by
    have hios : [overrunIos].flatMap EffectiveTarget.uploads = overrunGroups.zipIdx.map
        fun entry =>
          (entry.1, ("targets.ios.publish" : Text) ++ "." ++ atIndex "app_store.groups" entry.2) := by
      simp [overrunIos, EffectiveTarget.uploads]
    rw [hios, zipIdx_overrunGroups, List.map_cons, List.map_cons, resolveUploads_cons,
      resolveUploads_cons, resolve_flavor, hsecond]
  refine ⟨[overrunIos], overrunAndroid, [], _, _, _, tooManyExpansions _, rfl, rfl, rfl, rfl, ?_,
    isLimitError_tooManyExpansions ("targets.android.publish" ++ "." ++ "play.track")⟩
  rw [huploads, hlast.broken_over hover]

/-- Lowering all targets, from its parts. -/
theorem lower_of_parts {config : ConfigV2} {workflow : Option Text} {selected : Selected}
    {vars : List (Text × Text)} {settings : List Setting} {targets : List EffectiveTarget}
    {s t t' : LowerState} {lowered : Lowered}
    (hselect : config.selectWorkflow workflow = .ok selected)
    (hvars : varsOf (varSettings config selected) = vars)
    (hsettings : varSettings config selected = settings)
    (htargets : effectiveTargets config selected = (targets, []))
    (hvalidate : validateVars vars settings s = (.ok (), t)) (hclean : Clean t)
    (hlowered : lowerTargets config selected vars targets t = (.ok lowered, t')) :
    config.lower workflow none true s = (.ok (planOf config selected targets lowered), t') := by
  subst hvars hsettings
  refine (lower_eq_ok hselect).mpr ⟨t, lowered, hvalidate, hclean, ?_, ?_, ?_, ?_⟩
  · rw [htargets]
  · rw [htargets]
    rfl
  · rw [htargets]
    exact hlowered
  · rw [htargets]
    rfl

theorem lowerTargets_of_parts {config : ConfigV2} {vars : List (Text × Text)}
    {targets : List EffectiveTarget} {s t t' : LowerState} {publish : PlanPublish} {lowered : Lowered}
    (hpublish : planPublish vars config.app.flavors "app.flavors" targets s = (.ok publish, t))
    (hrest : lowerRest config none vars publish targets t = (.ok lowered, t')) :
    lowerTargets config none vars targets s = (.ok lowered, t') :=
  (Run.bind_of_ok hpublish).trans hrest

theorem planPublish_of_lowerTargets {config : ConfigV2} {selected : Selected}
    {vars : List (Text × Text)} {targets : List EffectiveTarget} {s s' : LowerState}
    {lowered : Lowered} (h : lowerTargets config selected vars targets s = (.ok lowered, s')) :
    ∃ flavors flavorsPath publish t,
      planPublish vars flavors flavorsPath targets s = (.ok publish, t) := by
  obtain ⟨publish, t, hpublish, -⟩ := Run.bind_eq_ok_iff.mp h
  exact ⟨_, _, publish, t, hpublish⟩

theorem planPublish_settled {vars : List (Text × Text)} {flavors : List Text} {flavorsPath : Text}
    {targets : List EffectiveTarget} {s s' : LowerState} {publish : PlanPublish}
    (h : AllSettled vars s.work)
    (hrun : planPublish vars flavors flavorsPath targets s = (.ok publish, s')) :
    AllSettled vars s'.work := by
  have hresolves := planPublish_resolves targets hrun
  rw [hresolves]
  exact h.resolveUploads _

/-- Nothing but the uploads refers to vars. -/
theorem overrunFile_rest (publish : PlanPublish) {t : LowerState} (hclean : Clean t)
    (hsettled : AllSettled overrunVars t.work) :
    ∃ lowered t', lowerRest overrunFile none overrunVars publish [overrunIos, overrunAndroid] t =
      (.ok lowered, t') := by
  have hrun : ∃ lowered s', lowerRest overrunFile none overrunVars .none [overrunIos, overrunAndroid]
      ⟨⟨⟨maxVarExpansions + 1, 0⟩, []⟩, []⟩ = (.ok lowered, s') ∧ Clean s' := by
    have hok : (lowerRest overrunFile none overrunVars .none [overrunIos, overrunAndroid]
        ⟨⟨⟨maxVarExpansions + 1, 0⟩, []⟩, []⟩).1.isOk = true := by decide +kernel
    have hclean : (lowerRest overrunFile none overrunVars .none [overrunIos, overrunAndroid]
        ⟨⟨⟨maxVarExpansions + 1, 0⟩, []⟩, []⟩).2.errors = [] := by decide +kernel
    generalize lowerRest overrunFile none overrunVars .none [overrunIos, overrunAndroid]
        ⟨⟨⟨maxVarExpansions + 1, 0⟩, []⟩, []⟩ = result at hok hclean
    obtain ⟨_ | lowered, s'⟩ := result
    · cases hok
    · exact ⟨lowered, s', rfl, hclean⟩
  obtain ⟨lowered, s', hrun, hclean'⟩ := hrun
  have htogether : Together overrunVars ⟨⟨⟨maxVarExpansions + 1, 0⟩, []⟩, []⟩ t := by
    refine ⟨rfl, hclean, .inr ⟨?_, hsettled, .inl (Nat.lt_succ_self _)⟩⟩
    intro scope _ name resolved hlookup
    cases hlookup
  obtain ⟨lowered', t', hrun', -⟩ := lowerRest_simulates overrunFile none overrunVars .none publish
    [overrunIos, overrunAndroid] (fun _ => true) _ t lowered s' hclean' htogether hrun
  exact ⟨lowered', t', hrun'⟩

theorem varsOf_settingsAt (path : Text) (map : OrderedMap Text Text) :
    varsOf (settingsAt path map) = map.entries := by
  simp [varsOf, settingsAt, Function.comp_def]

theorem overrunFile_settings : varSettings overrunFile none = ⟨"big", bigText, "vars.big"⟩ ::
    ⟨"e", [], "vars.e"⟩ :: ⟨"x", reference "flavor", "vars.x"⟩ ::
    ⟨"f", fillerText 2000, "vars.f"⟩ :: bigSettings := by
  have hsettings : varSettings overrunFile none = settingsAt "vars" overrunFile.vars := rfl
  rw [hsettings]
  simp only [settingsAt, overrunFile, overrunVars, List.map_cons, List.map_map]
  rfl

theorem overrunFile_lower :
    ∃ plan t', overrunFile.lower none none true (LowerState.start .fresh) = (.ok plan, t') := by
  obtain ⟨t, hvalidate, hclean, hstage⟩ := validate_overrunVars
  have hframe : Frame validationScope (LowerState.start .fresh).work t.work :=
    (validateVars_validating _ _).movesOk _ _ _ hvalidate
  have houtside : Stage .outside 2064 maxTotalExpandedBytes t.work := by
    have hnone : ∀ name, t.work.cached name .outside = none := fun name => hframe.others _ outside_live
    exact ⟨hstage.budget, .inl (hnone _), .inl (hnone _), hnone _, hnone _⟩
  obtain ⟨publish, t₁, hpublish, herrors⟩ := overrunFile_publish houtside
  have hsettled : AllSettled overrunVars t₁.work :=
    planPublish_settled (trails_fresh hframe).settled hpublish
  obtain ⟨lowered, t', hrest⟩ := overrunFile_rest publish (herrors.trans hclean) hsettled
  have hlowered : lowerTargets overrunFile none overrunVars [overrunIos, overrunAndroid] t =
      (.ok lowered, t') := lowerTargets_of_parts hpublish hrest
  have hvars : varsOf (varSettings overrunFile none) = overrunVars :=
    varsOf_settingsAt "vars" overrunFile.vars
  have hselect : overrunFile.selectWorkflow none = .ok none := rfl
  exact ⟨_, t', lower_of_parts hselect hvars overrunFile_settings overrunFile_targets hvalidate
    hclean hlowered⟩

/-- An accepted file that does not plan: checking its vars leaves no text for vars to add, so that
parsing stops in the groups where planning goes on. -/
theorem overrunFile_accepted_not_planned :
    overrunFile.parse = .ok overrunFile ∧ none ∈ overrunFile.parsedWorkflows ∧
      ∀ plan, overrunFile.plan none none ≠ .ok plan := by
  obtain ⟨plan, t', hlower⟩ := overrunFile_lower
  have hworkflows : overrunFile.workflowErrors 0 overrunFile.parsedWorkflows .fresh [] = [] := by
    have hparsed : overrunFile.parsedWorkflows = [none] := rfl
    have hneeds : overrunFile.needsVarCheck 0 none = true := rfl
    rw [hparsed, ConfigV2.workflowErrors, hneeds, hlower]
    rfl
  refine ⟨?_, List.mem_singleton.mpr rfl, fun plan hplan => ?_⟩
  · have hlabels : normalizeRunnerLabels overrunFile.runsOn = .ok [] := by decide +kernel
    unfold ConfigV2.parse
    rw [overrunFile_sizeErrors, overrunFile_shapeErrors, hworkflows, hlabels]
    rfl
  · obtain ⟨plan', s', hlower'⟩ := plan_eq_ok.mp ⟨plan, hplan⟩
    have hselect : overrunFile.selectWorkflow none = .ok none := rfl
    have hvars : varsOf (varSettings overrunFile none) = overrunVars :=
      varsOf_settingsAt "vars" overrunFile.vars
    rw [lower_some hselect (by rw [overrunFile_targets]) (by rw [overrunFile_targets]; rfl),
      hvars] at hlower'
    obtain ⟨lowered, s₁, hlowered, -⟩ := Run.bind_eq_ok_iff.mp hlower'
    obtain ⟨_, _, publish, s₂, hpublish⟩ := planPublish_of_lowerTargets hlowered
    exact planPublish_not_ok overrunFile_trackOverLimit hpublish

end OoreBuild
