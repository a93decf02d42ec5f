import OoreBuild.Accepted

/-!
# What a lowering gives

A lowering that ends without errors has resolved each of its fields to what the field expands to
(`textOf`), so what it gives needs no resolver to say: the builds of the targets (`builtSteps`)
between the steps before and after them (`placedSteps`), the environment, and the patterns of the
targets, each once.
-/

namespace OoreBuild

open Text

/-- What a text is resolved to at its place. -/
def textOf (vars : List (Text × Text)) (text : Text) (scope : FlavorScope) (path : Text) : Text :=
  (walk vars text scope path).1.toOption.getD []

theorem textOf_of_resolve {vars : List (Text × Text)} {text path out : Text} {scope : FlavorScope}
    {s s' : Work} (hsettled : Settled vars scope s)
    (h : resolve vars text scope path s = (.ok out, s')) : textOf vars text scope path = out := by
  rcases resolve_agrees text path hsettled with ⟨heq, -⟩ | ⟨error, herror, -⟩
  · rw [h] at heq
    rw [textOf, ← heq]
    rfl
  · rw [h] at herror
    cases herror

/-! ## Rules for what a lowering gives -/

/-- What the lowering gives when it has noted no error. -/
def Gives {α : Type} (vars : List (Text × Text)) (P : α → Prop) (x : LowerM α) : Prop :=
  ∀ s a s', AllSettled vars s.work → Clean s' → x s = (.ok a, s') → P a ∧ AllSettled vars s'.work

section

variable {α β : Type} {vars : List (Text × Text)}

theorem gives_pure {P : α → Prop} {a : α} (h : P a) : Gives vars P (pure a) := by
  intro s a' s' hsettled _ heq
  cases heq
  exact ⟨h, hsettled⟩

theorem Gives.bind {P : α → Prop} {Q : β → Prop} {x : LowerM α} {f : α → LowerM β}
    (hx : Gives vars P x) (hf : ∀ a, P a → Gives vars Q (f a))
    (hback : ∀ a, Run.Moves (Run.Reflects Clean) (f a)) : Gives vars Q (x >>= f) := by
  intro s b s' hsettled hclean h
  obtain ⟨a, s₁, h₁, h₂⟩ := Run.bind_eq_ok_iff.mp h
  obtain ⟨ha, hsettled₁⟩ := hx s a s₁ hsettled ((hback a).movesOk s₁ b s' h₂ hclean) h₁
  exact hf a ha s₁ b s' hsettled₁ hclean h₂

theorem forEach_gives {f : α → LowerM β} {g : α → β} {l : List α}
    (hf : ∀ a ∈ l, Gives vars (· = g a) (f a)) (hback : ∀ a, Run.Moves (Run.Reflects Clean) (f a)) :
    Gives vars (· = l.map g) (Run.forEach f l) := by
  induction l with
  | nil => exact gives_pure rfl
  | cons a rest ih =>
    refine (hf a List.mem_cons_self).bind (fun b hb => ?_) fun b =>
      (Run.forEach_moves hback rest).bind fun bs => Run.moves_pure _
    refine (ih fun a ha => hf a (List.mem_cons_of_mem _ ha)).bind (fun bs hbs => gives_pure ?_)
      fun bs => Run.moves_pure _
    rw [hb, hbs, List.map_cons]

/-- An invariant of the value and of what is left of the loop. -/
theorem foldEach_gives {f : β → α → LowerM β} (I : List α → β → Prop) {l : List α}
    (hf : ∀ a rest, a ∈ l → ∀ b, I (a :: rest) b → Gives vars (I rest) (f b a))
    (hback : ∀ b a, Run.Moves (Run.Reflects Clean) (f b a)) {b : β} (h : I l b) :
    Gives vars (I []) (Run.foldEach f b l) := by
  induction l generalizing b with
  | nil => exact gives_pure h
  | cons a rest ih =>
    refine (hf a rest List.mem_cons_self b h).bind (fun b hb => ?_)
      fun b => Run.foldEach_moves hback rest b
    exact ih (fun a more ha => hf a more (List.mem_cons_of_mem _ ha)) hb

/-- A loop whose every step is known. -/
theorem foldEach_gives_eq {f : β → α → LowerM β} {g : β → α → β} {l : List α}
    (hf : ∀ a ∈ l, ∀ b, Gives vars (· = g b a) (f b a))
    (hback : ∀ b a, Run.Moves (Run.Reflects Clean) (f b a)) (b : β) :
    Gives vars (· = l.foldl g b) (Run.foldEach f b l) := by
  induction l generalizing b with
  | nil => exact gives_pure rfl
  | cons a rest ih =>
    refine (hf a List.mem_cons_self b).bind (fun b' hb => ?_)
      fun b => Run.foldEach_moves hback rest b
    rw [hb]
    exact ih (fun a ha => hf a (List.mem_cons_of_mem _ ha)) _

/-- A required field is its text. -/
theorem resolveRequired_gives {text path : Text} {scope : FlavorScope} {next : Text → LowerM α}
    {otherwise : α} {P : α → Prop} (hlive : scope ≠ validationScope)
    (hnext : Gives vars P (next (textOf vars text scope path))) :
    Gives vars P (resolveRequired vars text scope path next otherwise) := by
  intro s a s' hsettled hclean h
  obtain ⟨resolved, work, hresolve, hrun⟩ := resolveRequired_clean hclean h
  have hsettled' := hsettled.resolves hlive text path
  rw [hresolve] at hsettled'
  rw [textOf_of_resolve (hsettled scope hlive) hresolve] at hnext
  exact hnext { s with work } a s' hsettled' hclean hrun

/-! ## Builds -/

/-- The build of a target for a flavor. -/
def buildStep (vars : List (Text × Text)) (target : EffectiveTarget)
    (flavor : Option Text × FlavorScope) : PlanStep where
  name := buildName target flavor.1
  phase := .build
  run := trim (textOf vars target.build flavor.2 target.buildSource)
  source := target.buildSource
  platform := some target.platform
  flavor := flavor.1
  testReport := none

/-- One build per target and flavor. -/
def builtSteps (vars : List (Text × Text)) (scopes : List (Option Text × FlavorScope))
    (targets : List EffectiveTarget) : List PlanStep :=
  targets.flatMap fun target => scopes.map (buildStep vars target)

theorem lowerBuilds_gives (flavors : List Text) (targets : List EffectiveTarget) :
    Gives vars (· = builtSteps vars (flavorScopes flavors) targets)
      (lowerBuilds vars (flavorScopes flavors) targets) := by
  have hbuild : ∀ target, ∀ flavor ∈ flavorScopes flavors,
      Gives vars (· = [buildStep vars target flavor]) (lowerBuild vars target flavor) :=
    fun target flavor hflavor =>
      resolveRequired_gives (live_of_mem_flavorScopes hflavor) (gives_pure rfl)
  have htarget : ∀ target ∈ targets,
      Gives vars (· = (flavorScopes flavors).map (buildStep vars target))
        (targetBuilds vars (flavorScopes flavors) target) := by
    intro target _
    refine (forEach_gives (hbuild target) (lowerBuild_reflects target)).bind
      (fun builds hbuilds => gives_pure ?_) fun _ => Run.moves_pure _
    rw [hbuilds, ← List.flatMap_def, List.map_eq_flatMap]
  refine (forEach_gives htarget (targetBuilds_reflects _)).bind
    (fun builds hbuilds => gives_pure ?_) fun _ => Run.moves_pure _
  rw [hbuilds, ← List.flatMap_def, builtSteps]

/-! ## Steps around the builds -/

/-- A step of the file, before or after the builds. -/
def aroundStep (vars : List (Text × Text)) (phase : StepPhase) (found : InlineStep × Text) :
    PlanStep where
  name := trim found.1.name
  phase := phase
  run := trim (textOf vars found.1.run .outside (found.2 ++ ".run"))
  source := found.2 ++ ".run"
  platform := none
  flavor := none
  testReport := found.1.reports.map fun reports => trim reports.tests

/-- The steps that entries run. -/
def entrySteps (vars : List (Text × Text)) (shared : List StepEntry) (entriesPath : Text)
    (phase : StepPhase) (entries : List (StepEntry × ℕ)) : List PlanStep :=
  entries.filterMap fun entry =>
    (stepOf shared entriesPath entry.2 entry.1).map (aroundStep vars phase)

/-- The builds come where the first `build` entry is, or last. -/
def placedSteps (vars : List (Text × Text)) (shared : List StepEntry) (entriesPath : Text)
    (builds : List PlanStep) (entries : List (StepEntry × ℕ)) : List PlanStep :=
  entrySteps vars shared entriesPath .preBuild (entries.takeWhile (·.1 ≠ .build)) ++ builds ++
    entrySteps vars shared entriesPath .postBuild (entries.dropWhile (·.1 ≠ .build))

/-- What the steps so far will be with those of the entries that are left. -/
def StepList.total (vars : List (Text × Text)) (shared : List StepEntry) (entriesPath : Text)
    (list : StepList) (rest : List (StepEntry × ℕ)) : List PlanStep :=
  if list.placed then list.steps ++ entrySteps vars shared entriesPath .postBuild rest
  else list.steps ++ placedSteps vars shared entriesPath list.builds rest

/-- The names in use are those of the steps and of the builds that are not placed yet. -/
structure StepList.Named (list : StepList) : Prop where
  names : ((list.steps ++ list.builds).map PlanStep.name).Perm list.names
  nodup : list.names.Nodup
  placed : list.placed = true → list.builds = []

section Entries

variable {shared : List StepEntry} {entriesPath : Text}

theorem entrySteps_cons (phase : StepPhase) (entry : StepEntry × ℕ)
    (rest : List (StepEntry × ℕ)) :
    entrySteps vars shared entriesPath phase (entry :: rest) =
      ((stepOf shared entriesPath entry.2 entry.1).map (aroundStep vars phase)).toList ++
        entrySteps vars shared entriesPath phase rest := by
  unfold entrySteps
  rw [List.filterMap_cons]
  cases (stepOf shared entriesPath entry.2 entry.1).map (aroundStep vars phase) <;> rfl

theorem placedSteps_build (builds : List PlanStep) (index : ℕ) (rest : List (StepEntry × ℕ)) :
    placedSteps vars shared entriesPath builds ((.build, index) :: rest) =
      builds ++ entrySteps vars shared entriesPath .postBuild rest := by
  simp [placedSteps, entrySteps, stepOf]

theorem placedSteps_cons {entry : StepEntry × ℕ} (h : entry.1 ≠ .build) (builds : List PlanStep)
    (rest : List (StepEntry × ℕ)) :
    placedSteps vars shared entriesPath builds (entry :: rest) =
      ((stepOf shared entriesPath entry.2 entry.1).map (aroundStep vars .preBuild)).toList ++
        placedSteps vars shared entriesPath builds rest := by
  unfold placedSteps
  rw [List.takeWhile_cons_of_pos (by simpa using h), List.dropWhile_cons_of_pos (by simpa using h),
    entrySteps_cons]
  simp

/-- An entry adds its step, under a name that is new. -/
theorem lowerEntry_gives (buildNames : List Text) (entry : StepEntry × ℕ)
    (rest : List (StepEntry × ℕ)) (list : StepList) (hnamed : list.Named) :
    Gives vars (fun next => next.total vars shared entriesPath rest =
        list.total vars shared entriesPath (entry :: rest) ∧ next.Named)
      (lowerEntry vars shared entriesPath buildNames list entry) := by
  unfold lowerEntry
  split
  · rename_i hbuild
    refine gives_pure ⟨?_, ?_, hnamed.nodup, fun _ => rfl⟩
    · obtain ⟨kind, index⟩ := entry
      cases hbuild
      unfold StepList.total
      cases hplaced : list.placed with
      | true =>
        rw [hnamed.placed hplaced]
        simp [entrySteps_cons, stepOf]
      | false => simp [placedSteps_build]
    · simpa using hnamed.names
  · rename_i hbuild
    split
    · rename_i hstep
      refine gives_pure ⟨?_, hnamed⟩
      unfold StepList.total
      rw [entrySteps_cons, placedSteps_cons hbuild, hstep]
      simp
    · rename_i step source hstep
      split
      · intro s next s' _ hclean h
        obtain ⟨_, s₁, h₁, h₂⟩ := Run.bind_eq_ok_iff.mp h
        cases h₁
        cases h₂
        exact absurd hclean (pushUnique_ne_nil _ _)
      · rename_i hname
        refine resolveRequired_gives outside_live (gives_pure ⟨?_, ?_, ?_, hnamed.placed⟩)
        · unfold StepList.total
          rw [entrySteps_cons, placedSteps_cons hbuild, hstep]
          cases hplaced : list.placed <;> simp [aroundStep]
        · have hperm := hnamed.names.cons (trim step.name)
          refine List.Perm.trans ?_ hperm
          simp only [List.map_append, List.map_cons, List.append_assoc,
            List.singleton_append]
          exact List.perm_middle
        · exact List.nodup_cons.mpr ⟨hname, hnamed.nodup⟩

end Entries

/-- The entries of the workflow, with their path: its own, or the top-level ones. -/
def workflowEntries (config : ConfigV2) (selected : Selected) : List StepEntry × Text :=
  match selected.bind fun entry => entry.2.steps with
  | some steps => (steps, workflowPrefix selected ++ "steps")
  | none => (config.steps.getD [], "steps")

/-- The steps of the workflow around these builds. -/
def workflowSteps (vars : List (Text × Text)) (config : ConfigV2) (selected : Selected)
    (builds : List PlanStep) : List PlanStep :=
  placedSteps vars (config.steps.getD []) (workflowEntries config selected).2 builds
    (workflowEntries config selected).1.zipIdx

theorem lowerSteps_eq (config : ConfigV2) (selected : Selected) (builds : List PlanStep) :
    lowerSteps vars config selected builds =
      Run.foldEach (lowerEntry vars (config.steps.getD []) (workflowEntries config selected).2
          (builds.map PlanStep.name))
        { steps := [], builds, names := builds.map PlanStep.name, placed := false }
        (workflowEntries config selected).1.zipIdx >>= fun list =>
          pure (if list.placed then list.steps else list.steps ++ list.builds) := by
  unfold lowerSteps workflowEntries
  cases selected.bind fun entry => entry.2.steps <;> rfl

/-- The steps are those of the entries around the builds, under distinct names. -/
theorem lowerSteps_gives (config : ConfigV2) (selected : Selected) {builds : List PlanStep}
    (hnodup : (builds.map PlanStep.name).Nodup) :
    Gives vars (fun steps => steps = workflowSteps vars config selected builds ∧
        (steps.map PlanStep.name).Nodup)
      (lowerSteps vars config selected builds) := by
  let I : List (StepEntry × ℕ) → StepList → Prop := fun rest list =>
    list.total vars (config.steps.getD []) (workflowEntries config selected).2 rest =
      workflowSteps vars config selected builds ∧ list.Named
  rw [lowerSteps_eq]
  refine (foldEach_gives I (fun entry rest _ list hlist => ?_) (lowerEntry_reflects _ _ _)
    ⟨by simp [StepList.total, workflowSteps], by simp, hnodup, fun h => by cases h⟩).bind
    (fun list hlist => gives_pure ?_) fun _ => Run.moves_pure _
  · intro s next s' hsettled hclean h
    obtain ⟨⟨htotal, hnamed⟩, hsettled'⟩ :=
      lowerEntry_gives _ entry rest list hlist.2 s next s' hsettled hclean h
    exact ⟨⟨htotal.trans hlist.1, hnamed⟩, hsettled'⟩
  · obtain ⟨htotal, hnamed⟩ := hlist
    have hsteps : (if list.placed then list.steps else list.steps ++ list.builds) =
        list.steps ++ list.builds := by
      cases hplaced : list.placed with
      | true => simp [hnamed.placed hplaced]
      | false => rfl
    rw [hsteps]
    refine ⟨?_, hnamed.names.nodup_iff.mpr hnamed.nodup⟩
    rw [← htotal]
    unfold StepList.total placedSteps entrySteps
    cases hplaced : list.placed with
    | true => simp [hnamed.placed hplaced]
    | false => simp

/-! ## Environment and artifacts -/

def envValue (vars : List (Text × Text)) (setting : Setting) : PipelineEnvVar where
  key := trim setting.key
  value := trim (textOf vars setting.value .outside setting.path)

theorem lowerEnv_gives (settings : List Setting) :
    Gives vars (fun env : List (List PipelineEnvVar) => env.flatten = settings.map (envValue vars))
      (Run.forEach (lowerEnv vars) settings) := by
  intro s env s' hsettled hclean h
  have hvalue : ∀ setting ∈ settings, Gives vars (· = [envValue vars setting])
      (lowerEnv vars setting) :=
    fun setting _ => resolveRequired_gives outside_live (gives_pure rfl)
  obtain ⟨rfl, hsettled'⟩ := forEach_gives hvalue lowerEnv_reflects s env s' hsettled hclean h
  refine ⟨?_, hsettled'⟩
  dsimp only
  rw [← List.flatMap_def, List.map_eq_flatMap]

/-- A pattern is taken once. -/
def addOnce (found : List Text) (pattern : Text) : List Text :=
  if pattern ∈ found then found else found ++ [pattern]

/-- The patterns of a target, for every flavor. -/
def patternTexts (vars : List (Text × Text)) (scopes : List (Option Text × FlavorScope))
    (target : EffectiveTarget) : List Text :=
  (targetPatterns target).1.zipIdx.flatMap fun pattern => scopes.map fun flavor =>
    trim (textOf vars pattern.1 flavor.2 (atIndex (targetPatterns target).2 pattern.2))

/-- The patterns of the targets, each once. -/
def distinctPatterns (vars : List (Text × Text)) (scopes : List (Option Text × FlavorScope))
    (targets : List EffectiveTarget) : List Text :=
  (targets.flatMap (patternTexts vars scopes)).foldl addOnce []

theorem addPattern_gives (path : Text) (found : List Text) (pattern : Text) :
    Gives vars (· = addOnce found pattern) (addPattern path found pattern) := by
  have hreport : ∀ error, Gives vars (· = addOnce found pattern)
      (report error >>= fun _ => (pure found : LowerM (List Text))) := by
    intro error s next s' _ hclean h
    obtain ⟨_, s₁, h₁, h₂⟩ := Run.bind_eq_ok_iff.mp h
    cases h₁
    cases h₂
    exact absurd hclean (pushUnique_ne_nil _ _)
  unfold addPattern
  split
  · exact hreport _
  · split
    · exact hreport _
    · exact gives_pure rfl

theorem lowerArtifacts_gives (flavors : List Text) (targets : List EffectiveTarget) :
    Gives vars (· = distinctPatterns vars (flavorScopes flavors) targets)
      (lowerArtifacts vars (flavorScopes flavors) targets) := by
  have hpattern : ∀ (target : EffectiveTarget) (pattern : Text × ℕ) (found : List Text),
      Gives vars (· = ((flavorScopes flavors).map fun flavor => trim (textOf vars pattern.1 flavor.2
          (atIndex (targetPatterns target).2 pattern.2))).foldl addOnce found)
        (Run.foldEach (lowerPattern vars (targetPatterns target).2 pattern) found
          (flavorScopes flavors)) := by
    intro target pattern found
    rw [List.foldl_map]
    refine foldEach_gives_eq (fun flavor hflavor found => ?_) (lowerPattern_reflects _ pattern) found
    exact resolveRequired_gives (live_of_mem_flavorScopes hflavor) (addPattern_gives _ _ _)
  have htarget : ∀ (target : EffectiveTarget) (found : List Text),
      Gives vars (· = (patternTexts vars (flavorScopes flavors) target).foldl addOnce found)
        (targetArtifacts vars (flavorScopes flavors) found target) := by
    intro target found
    rw [patternTexts, List.foldl_flatMap]
    exact foldEach_gives_eq (fun pattern _ found => hpattern target pattern found)
      (fun found pattern => Run.foldEach_moves (lowerPattern_reflects _ pattern) _ found) found
  rw [distinctPatterns, List.foldl_flatMap]
  exact foldEach_gives_eq (fun target _ found => htarget target found) (targetArtifacts_reflects _) []

/-! ## What comes after the uploads -/

/-- The builds have distinct names. -/
theorem lowerRest_gives (config : ConfigV2) (selected : Selected) (publish : PlanPublish)
    (targets : List EffectiveTarget)
    (hnodup : ((builtSteps vars (flavorScopes (workflowFlavors config selected)) targets).map
      PlanStep.name).Nodup) :
    Gives vars (fun lowered => lowered = {
          publish
          steps := workflowSteps vars config selected
            (builtSteps vars (flavorScopes (workflowFlavors config selected)) targets)
          env := (envSettings config selected).map (envValue vars)
          artifacts := distinctPatterns vars (flavorScopes (workflowFlavors config selected))
            targets } ∧ (lowered.steps.map PlanStep.name).Nodup)
      (lowerRest config selected vars publish targets) := by
  unfold lowerRest
  dsimp only
  have hend : ∀ lowered : Lowered, Run.Moves (Run.Reflects Clean)
      (endOnErrors >>= fun _ => (pure lowered : LowerM Lowered)) :=
    fun _ => endOnErrors_reflects.bind fun _ => Run.moves_pure _
  refine (lowerBuilds_gives _ targets).bind (fun builds hbuilds => ?_) fun builds =>
    (lowerSteps_reflects _ _ _).bind fun _ => (Run.forEach_moves lowerEnv_reflects _).bind fun _ =>
      (lowerArtifacts_reflects _ _).bind fun _ => hend _
  rw [← hbuilds] at hnodup
  refine (lowerSteps_gives config selected hnodup).bind (fun steps hsteps => ?_) fun _ =>
    (Run.forEach_moves lowerEnv_reflects _).bind fun _ =>
      (lowerArtifacts_reflects _ _).bind fun _ => hend _
  refine (lowerEnv_gives _).bind (fun env henv => ?_) fun _ =>
    (lowerArtifacts_reflects _ _).bind fun _ => hend _
  refine (lowerArtifacts_gives _ targets).bind (fun artifacts hartifacts => ?_) fun _ => hend _
  intro s lowered s' hsettled _ h
  obtain ⟨_, s₁, h₁, h₂⟩ := Run.bind_eq_ok_iff.mp h
  obtain ⟨-, rfl⟩ := endOnErrors_eq_ok h₁
  cases h₂
  obtain ⟨rfl, hnames⟩ := hsteps
  rw [hbuilds, henv, hartifacts] at *
  exact ⟨⟨rfl, hnames⟩, hsettled⟩

end

end OoreBuild
