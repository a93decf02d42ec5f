import OoreBuild.Trailing
import OoreBuild.Lower

/-!
# Lowering some of the targets

Lowering a workflow for some of its targets does a part of what lowering it for all of them does.
Where the latter ends without errors, the former does: each field it resolves, the other has
resolved (`Follows`), and each name it uses, the other has used.
-/

namespace OoreBuild

open Text

/-- No error has been noted. -/
def Clean (s : LowerState) : Prop := s.errors = []

/-- Two lowerings without errors, the second behind the first. -/
structure Together (vars : List (Text × Text)) (s t : LowerState) : Prop where
  clean : Clean s
  clean' : Clean t
  work : Follows vars s.work t.work

/-! ## Errors are kept -/

theorem pushUnique_ne_nil (errors : List Text) (error : Text) : pushUnique errors error ≠ [] := by
  unfold pushUnique
  split
  · simp
  · rename_i h
    rintro rfl
    exact h ⟨by decide, List.not_mem_nil⟩

theorem report_not_clean (error : Text) (s : LowerState) : ¬ Clean (report error s).2 :=
  pushUnique_ne_nil _ _

theorem report_reflects (error : Text) : Run.Moves (Run.Reflects Clean) (report error) :=
  fun s h => absurd h (report_not_clean error s)

theorem withResolver_reflects (x : Run Work Text Text) :
    Run.Moves (Run.Reflects Clean) (withResolver x) := fun _ h => h

theorem reportUnresolved_reflects (error : Text) :
    Run.Moves (Run.Reflects Clean) (reportUnresolved error) := by
  unfold reportUnresolved
  split
  · exact Run.moves_fail _
  · exact report_reflects error

theorem endOnErrors_reflects : Run.Moves (Run.Reflects Clean) endOnErrors := by
  intro s h
  unfold endOnErrors at h
  split at h
  · exact h
  · exact h

section

variable {α β : Type} {vars : List (Text × Text)}

theorem resolveRequired_reflects {text path : Text} {scope : FlavorScope} {next : Text → LowerM α}
    {otherwise : α} (hnext : ∀ resolved, Run.Moves (Run.Reflects Clean) (next resolved)) :
    Run.Moves (Run.Reflects Clean) (resolveRequired vars text scope path next otherwise) := by
  refine (withResolver_reflects _).bind fun result => ?_
  split
  · exact hnext _
  · exact (reportUnresolved_reflects _).bind fun _ => Run.moves_pure _

/-- A required field that ends without errors is resolved. -/
theorem resolveRequired_clean {text path : Text} {scope : FlavorScope} {next : Text → LowerM α}
    {otherwise a : α} {s s' : LowerState} (hclean : Clean s')
    (h : resolveRequired vars text scope path next otherwise s = (.ok a, s')) :
    ∃ resolved work, resolve vars text scope path s.work = (.ok resolved, work) ∧
      next resolved { s with work } = (.ok a, s') := by
  obtain ⟨result, s₁, h₁, h₂⟩ := Run.bind_eq_ok_iff.mp h
  cases h₁
  rcases hresolve : resolve vars text scope path s.work with ⟨result, work⟩
  rw [hresolve] at h₂
  cases result with
  | ok resolved => exact ⟨resolved, work, rfl, h₂⟩
  | error error =>
    exfalso
    obtain ⟨_, s₂, h₃, h₄⟩ := Run.bind_eq_ok_iff.mp h₂
    cases h₄
    unfold reportUnresolved at h₃
    split at h₃
    · cases h₃
    · cases h₃
      exact pushUnique_ne_nil _ _ hclean

/-- A required field, for both. -/
theorem resolveRequired_simulates {text path : Text} {scope : FlavorScope}
    (hlive : scope ≠ validationScope) {next : Text → LowerM α} {next' : Text → LowerM β}
    {otherwise : α} {otherwise' : β} {V : α → β → Prop}
    (hnext : ∀ resolved, Run.Simulates Clean (Together vars) V (next resolved) (next' resolved)) :
    Run.Simulates Clean (Together vars) V (resolveRequired vars text scope path next otherwise)
      (resolveRequired vars text scope path next' otherwise') := by
  intro s t a s' hclean h hrun
  obtain ⟨resolved, work, hresolve, hrun⟩ := resolveRequired_clean hclean hrun
  obtain ⟨work', hresolve', hwork⟩ := h.work.resolves hlive hresolve
  have htogether : Together vars { s with work } { t with work := work' } :=
    ⟨h.clean, h.clean', hwork⟩
  obtain ⟨b, t', hnext', hR, hV⟩ := hnext resolved _ _ a s' hclean htogether hrun
  refine ⟨b, t', ?_, hR, hV⟩
  have hwith : withResolver (resolve vars text scope path) t =
      (.ok (.ok resolved), { t with work := work' }) := by
    unfold withResolver
    rw [hresolve']
  exact (Run.bind_of_ok hwith).trans hnext'

/-- A required field that only the first has. -/
theorem resolveRequired_passes {text path : Text} {scope : FlavorScope}
    (hlive : scope ≠ validationScope) {next : Text → LowerM α} {otherwise : α}
    (hnext : ∀ resolved, Run.Passes Clean (Together vars) (next resolved)) :
    Run.Passes Clean (Together vars) (resolveRequired vars text scope path next otherwise) := by
  intro s t a s' hclean h hrun
  obtain ⟨resolved, work, hresolve, hrun⟩ := resolveRequired_clean hclean hrun
  have hwork := h.work.first hlive text path
  rw [hresolve] at hwork
  exact hnext resolved { s with work } t a s' hclean ⟨h.clean, h.clean', hwork⟩ hrun

/-! ## Builds -/

theorem live_of_mem_flavorScopes {flavors : List Text} {flavor : Option Text × FlavorScope}
    (h : flavor ∈ flavorScopes flavors) : flavor.2 ≠ validationScope := by
  unfold flavorScopes at h
  split at h
  · rw [List.mem_singleton.mp h]
    nofun
  · obtain ⟨⟨name, index⟩, -, rfl⟩ := List.mem_map.mp h
    intro heq
    injection heq
    omega

theorem outside_live : FlavorScope.outside ≠ validationScope := nofun

theorem lowerBuild_reflects (target : EffectiveTarget) (flavor : Option Text × FlavorScope) :
    Run.Moves (Run.Reflects Clean) (lowerBuild vars target flavor) :=
  resolveRequired_reflects fun _ => Run.moves_pure _

theorem targetBuilds_reflects (scopes : List (Option Text × FlavorScope))
    (target : EffectiveTarget) :
    Run.Moves (Run.Reflects Clean) (targetBuilds vars scopes target) :=
  (Run.forEach_moves (lowerBuild_reflects target) scopes).bind fun _ => Run.moves_pure _

theorem lowerBuilds_reflects (scopes : List (Option Text × FlavorScope))
    (targets : List EffectiveTarget) :
    Run.Moves (Run.Reflects Clean) (lowerBuilds vars scopes targets) :=
  (Run.forEach_moves (targetBuilds_reflects scopes) targets).bind fun _ => Run.moves_pure _

theorem targetBuilds_simulates (flavors : List Text) (target : EffectiveTarget) :
    Run.Simulates Clean (Together vars) Eq (targetBuilds vars (flavorScopes flavors) target)
      (targetBuilds vars (flavorScopes flavors) target) := by
  refine (Run.forEach_simulates_self (fun flavor hflavor => ?_) (lowerBuild_reflects target)).bind
    (fun bs cs hV => ?_) fun bs => Run.moves_pure _
  · exact resolveRequired_simulates (live_of_mem_flavorScopes hflavor)
      fun _ => Run.simulates_pure rfl
  · subst hV
    exact Run.simulates_pure rfl

theorem targetBuilds_passes (flavors : List Text) (target : EffectiveTarget) :
    Run.Passes Clean (Together vars) (targetBuilds vars (flavorScopes flavors) target) := by
  refine (Run.forEach_passes (fun flavor hflavor => ?_) (lowerBuild_reflects target)).bind
    (fun bs => Run.passes_pure _) fun bs => Run.moves_pure _
  exact resolveRequired_passes (live_of_mem_flavorScopes hflavor) fun _ => Run.passes_pure _

/-- The builds of some of the targets are among those of all. -/
theorem lowerBuilds_simulates (flavors : List Text) (targets : List EffectiveTarget)
    (keep : EffectiveTarget → Bool) :
    Run.Simulates Clean (Together vars) (fun builds builds' : List PlanStep => builds' ⊆ builds)
      (lowerBuilds vars (flavorScopes flavors) targets)
      (lowerBuilds vars (flavorScopes flavors) (targets.filter keep)) := by
  refine (Run.forEach_simulates keep (fun target _ _ => targetBuilds_simulates flavors target)
    (fun target _ _ => targetBuilds_passes flavors target) (targetBuilds_reflects _)).bind
    (fun bs cs hsub => ?_) fun bs => Run.moves_pure _
  refine Run.simulates_pure fun step hstep => ?_
  obtain ⟨builds, hbuilds, hstep⟩ := List.mem_flatten.mp hstep
  exact List.mem_flatten.mpr ⟨builds, hsub hbuilds, hstep⟩

/-! ## Steps -/

theorem lowerInline_reflects (list : StepList) (step : InlineStep) (source : Text) :
    Run.Moves (Run.Reflects Clean) (lowerInline vars list step source) :=
  resolveRequired_reflects fun _ => Run.moves_pure _

theorem lowerEntry_reflects (shared : List StepEntry) (entriesPath : Text) (buildNames : List Text)
    (list : StepList) (entry : StepEntry × ℕ) :
    Run.Moves (Run.Reflects Clean) (lowerEntry vars shared entriesPath buildNames list entry) := by
  unfold lowerEntry
  split
  · exact Run.moves_pure _
  · split
    · exact Run.moves_pure _
    · split
      · exact (report_reflects _).bind fun _ => Run.moves_pure _
      · exact lowerInline_reflects _ _ _

theorem lowerSteps_reflects (config : ConfigV2) (selected : Selected) (builds : List PlanStep) :
    Run.Moves (Run.Reflects Clean) (lowerSteps vars config selected builds) := by
  unfold lowerSteps
  dsimp only
  exact (Run.foldEach_moves (lowerEntry_reflects _ _ _) _ _).bind fun _ => Run.moves_pure _

/-- An entry, for lists of which the second uses no name that the first does not. -/
theorem lowerEntry_simulates (shared : List StepEntry) (entriesPath : Text)
    (buildNames buildNames' : List Text) (list list' : StepList) (entry : StepEntry × ℕ)
    (hnames : list'.names ⊆ list.names) :
    Run.Simulates Clean (Together vars) (fun list list' : StepList => list'.names ⊆ list.names)
      (lowerEntry vars shared entriesPath buildNames list entry)
      (lowerEntry vars shared entriesPath buildNames' list' entry) := by
  unfold lowerEntry
  split
  · exact Run.simulates_pure hnames
  · split
    · exact Run.simulates_pure hnames
    · rename_i step source _
      by_cases hmem : trim step.name ∈ list.names
      · rw [if_pos hmem]
        intro s t a s' hclean _ hrun
        obtain ⟨_, s₁, h₁, h₂⟩ := Run.bind_eq_ok_iff.mp hrun
        cases h₁
        cases h₂
        exact absurd hclean (pushUnique_ne_nil _ _)
      · rw [if_neg hmem, if_neg fun h => hmem (hnames h)]
        refine resolveRequired_simulates outside_live fun resolved => Run.simulates_pure ?_
        exact List.cons_subset_cons _ hnames

theorem lowerSteps_simulates (config : ConfigV2) (selected : Selected)
    (builds builds' : List PlanStep) (hbuilds : builds' ⊆ builds) :
    Run.Simulates Clean (Together vars) (fun _ _ => True) (lowerSteps vars config selected builds)
      (lowerSteps vars config selected builds') := by
  unfold lowerSteps
  dsimp only
  refine (Run.foldEach_simulates_self (fun entry _ list list' hnames =>
    lowerEntry_simulates _ _ _ _ list list' entry hnames) (lowerEntry_reflects _ _ _) ?_).bind
    (fun _ _ _ => Run.simulates_pure trivial) fun _ => Run.moves_pure _
  exact List.map_subset _ hbuilds

/-! ## Environment and artifacts -/

theorem lowerEnv_reflects (setting : Setting) :
    Run.Moves (Run.Reflects Clean) (lowerEnv vars setting) :=
  resolveRequired_reflects fun _ => Run.moves_pure _

theorem lowerEnv_simulates (settings : List Setting) :
    Run.Simulates Clean (Together vars) Eq (Run.forEach (lowerEnv vars) settings)
      (Run.forEach (lowerEnv vars) settings) :=
  Run.forEach_simulates_self (fun _ _ => resolveRequired_simulates outside_live
    fun _ => Run.simulates_pure rfl) lowerEnv_reflects

theorem addPattern_reflects (path : Text) (found : List Text) (pattern : Text) :
    Run.Moves (Run.Reflects Clean) (addPattern path found pattern) := by
  unfold addPattern
  split
  · exact (report_reflects _).bind fun _ => Run.moves_pure _
  · split
    · exact (report_reflects _).bind fun _ => Run.moves_pure _
    · exact Run.moves_pure _

/-- A pattern that is taken without an error is taken on its own account. -/
theorem addPattern_clean {path : Text} {found : List Text} {pattern : Text} {s s' : LowerState}
    {result : List Text} (hclean : Clean s')
    (h : addPattern path found pattern s = (.ok result, s')) :
    s' = s ∧ ∀ found' t, ∃ result', addPattern path found' pattern t = (.ok result', t) := by
  have hnot : ∀ error, (report error >>= fun _ => (pure found : LowerM (List Text))) s ≠
      (.ok result, s') := by
    intro error heq
    obtain ⟨_, s₁, h₁, h₂⟩ := Run.bind_eq_ok_iff.mp heq
    cases h₁
    cases h₂
    exact pushUnique_ne_nil _ _ hclean
  by_cases hopening : contains pattern opening = true
  · rw [addPattern, if_pos hopening] at h
    exact absurd h (hnot _)
  · rw [addPattern, if_neg hopening] at h
    cases hvalid : validateArtifactPattern pattern with
    | error error =>
      rw [hvalid] at h
      exact absurd h (hnot _)
    | ok _ =>
      rw [hvalid] at h
      cases h
      refine ⟨rfl, fun found' t =>
        ⟨if pattern ∈ found' then found' else found' ++ [pattern], ?_⟩⟩
      rw [addPattern, if_neg hopening, hvalid]
      rfl

theorem lowerPattern_reflects (path : Text) (pattern : Text × ℕ) (found : List Text)
    (flavor : Option Text × FlavorScope) :
    Run.Moves (Run.Reflects Clean) (lowerPattern vars path pattern found flavor) :=
  resolveRequired_reflects fun _ => addPattern_reflects _ _ _

theorem targetArtifacts_reflects (scopes : List (Option Text × FlavorScope)) (found : List Text)
    (target : EffectiveTarget) :
    Run.Moves (Run.Reflects Clean) (targetArtifacts vars scopes found target) :=
  Run.foldEach_moves (fun found pattern =>
    Run.foldEach_moves (lowerPattern_reflects _ pattern) scopes found) _ found

theorem lowerArtifacts_reflects (scopes : List (Option Text × FlavorScope))
    (targets : List EffectiveTarget) :
    Run.Moves (Run.Reflects Clean) (lowerArtifacts vars scopes targets) :=
  Run.foldEach_moves (targetArtifacts_reflects scopes) targets []

theorem lowerArtifacts_simulates (flavors : List Text) (targets : List EffectiveTarget)
    (keep : EffectiveTarget → Bool) :
    Run.Simulates Clean (Together vars) (fun _ _ => True)
      (lowerArtifacts vars (flavorScopes flavors) targets)
      (lowerArtifacts vars (flavorScopes flavors) (targets.filter keep)) := by
  refine Run.foldEach_simulates keep (fun target _ _ found found' _ => ?_)
    (fun target _ _ found found' _ s t result s' hclean h hrun => ⟨?_, trivial⟩)
    (targetArtifacts_reflects _) trivial
  · refine Run.foldEach_simulates_self (fun pattern _ found found' _ => ?_)
      (fun found pattern => Run.foldEach_moves (lowerPattern_reflects _ pattern) _ found) trivial
    refine Run.foldEach_simulates_self (fun flavor hflavor found found' _ => ?_)
      (lowerPattern_reflects _ pattern) trivial
    refine resolveRequired_simulates (live_of_mem_flavorScopes hflavor) fun resolved => ?_
    intro s t result s' hclean h hrun
    obtain ⟨rfl, hsecond⟩ := addPattern_clean hclean hrun
    obtain ⟨result', hrun'⟩ := hsecond found' t
    exact ⟨result', t, hrun', h, trivial⟩
  · refine Run.foldEach_passes (fun pattern _ found => ?_)
      (fun found pattern => Run.foldEach_moves (lowerPattern_reflects _ pattern) _ found) found
      s t result s' hclean h hrun
    refine Run.foldEach_passes (fun flavor hflavor found => ?_) (lowerPattern_reflects _ pattern)
      found
    refine resolveRequired_passes (live_of_mem_flavorScopes hflavor) fun resolved => ?_
    intro s t result s' hclean h hrun
    obtain ⟨rfl, -⟩ := addPattern_clean hclean hrun
    exact h

end

end OoreBuild
