import OoreBuild.PlanUploads

/-!
# What a lowering resolves

Where a lowering ends without errors once, it does so from every state in which none of the texts
it resolves is over a limit, and from no other (`Needs`). Its texts are resolved in an order that
the state does not change, so what it needs is a list (`restFields`).
-/

namespace OoreBuild

open Text

/-- A text of the file, with where it is resolved. -/
structure Field where
  text : Text
  scope : FlavorScope
  path : Text
  deriving DecidableEq, Repr

/-- Expanding the text exceeds a limit: the resolver does not get to what it expands to, or that is
too long. -/
def Field.Over (vars : List (Text × Text)) (field : Field) (work : Work) : Prop :=
  (resolve vars field.text field.scope field.path work).1 ≠
      (walk vars field.text field.scope field.path).1 ∨
    (walk vars field.text field.scope field.path).1 = .error (tooLong field.path)

instance (vars : List (Text × Text)) (field : Field) (work : Work) :
    Decidable (field.Over vars work) :=
  inferInstanceAs (Decidable (_ ∨ _))

/-- The work after these texts. -/
def resolveFields (vars : List (Text × Text)) (fields : List Field) (work : Work) : Work :=
  fields.foldl (fun work field => (resolve vars field.text field.scope field.path work).2) work

/-- Resolving these texts one after the other exceeds a limit. -/
def AnyOver (vars : List (Text × Text)) : List Field → Work → Prop
  | [], _ => False
  | field :: rest, work => field.Over vars work ∨
      AnyOver vars rest (resolve vars field.text field.scope field.path work).2

instance decidableAnyOver (vars : List (Text × Text)) :
    ∀ (fields : List Field) (work : Work), Decidable (AnyOver vars fields work)
  | [], _ => inferInstanceAs (Decidable False)
  | field :: rest, work =>
    have := decidableAnyOver vars rest (resolve vars field.text field.scope field.path work).2
    inferInstanceAs (Decidable (_ ∨ _))

section

variable {vars : List (Text × Text)}

@[simp] theorem resolveFields_nil (work : Work) : resolveFields vars [] work = work := rfl

@[simp] theorem not_anyOver_nil (work : Work) : ¬ AnyOver vars [] work := id

theorem resolveFields_append (fields fields' : List Field) (work : Work) :
    resolveFields vars (fields ++ fields') work =
      resolveFields vars fields' (resolveFields vars fields work) :=
  List.foldl_append

theorem anyOver_append (fields fields' : List Field) (work : Work) :
    AnyOver vars (fields ++ fields') work ↔
      AnyOver vars fields work ∨ AnyOver vars fields' (resolveFields vars fields work) := by
  induction fields generalizing work with
  | nil => simp
  | cons field rest ih =>
    change _ ∨ AnyOver vars (rest ++ fields') _ ↔ (_ ∨ AnyOver vars rest _) ∨ _
    rw [ih, or_assoc]
    rfl

/-- The texts are resolved outside of the check of the vars. -/
def Live (fields : List Field) : Prop := ∀ field ∈ fields, field.scope ≠ validationScope

theorem AllSettled.resolveFields {fields : List Field} {work : Work} (h : AllSettled vars work)
    (hlive : Live fields) : AllSettled vars (resolveFields vars fields work) := by
  induction fields generalizing work with
  | nil => exact h
  | cons field rest ih =>
    exact ih (h.resolves (hlive field List.mem_cons_self) _ _)
      fun field hfield => hlive field (List.mem_cons_of_mem _ hfield)

/-- A text that is not over a limit comes to what it expands to. -/
theorem resolve_of_not_over {field : Field} {work : Work} (h : ¬ field.Over vars work) :
    (resolve vars field.text field.scope field.path work).1 =
      (walk vars field.text field.scope field.path).1 := by
  by_contra hne
  exact h (.inl hne)

/-- A text that is resolved comes to its expansion. -/
theorem walk_of_resolve {text path out : Text} {scope : FlavorScope} {work work' : Work}
    (hsettled : Settled vars scope work)
    (h : resolve vars text scope path work = (.ok out, work')) :
    (walk vars text scope path).1 = .ok out := by
  rcases resolve_agrees text path hsettled with ⟨heq, -⟩ | ⟨error, herror, -⟩
  · rw [← heq, h]
  · rw [h] at herror
    cases herror

/-! ## Rules for what a lowering needs -/

/-- Where the lowering succeeds once, without errors, it resolves these texts and depends on nothing
else. -/
def Needs {α : Type} (vars : List (Text × Text)) (fields : List Field) (x : LowerM α) : Prop :=
  ∀ s a s', AllSettled vars s.work → Clean s → Clean s' → x s = (.ok a, s') →
    ∀ t, AllSettled vars t.work → Clean t →
      (¬ AnyOver vars fields t.work →
        x t = (.ok a, { t with work := resolveFields vars fields t.work })) ∧
      ∀ b t', Clean t' → x t = (.ok b, t') → ¬ AnyOver vars fields t.work

variable {α β : Type} {fields fields' : List Field}

theorem needs_pure (a : α) : Needs vars [] (pure a) := by
  intro s b s' _ _ _ h t _ _
  cases h
  exact ⟨fun _ => rfl, fun _ _ _ _ => not_anyOver_nil _⟩

/-- A lowering that never ends without errors. -/
theorem needs_of_not_clean {x : LowerM α} (h : ∀ s a s', x s = (.ok a, s') → ¬ Clean s') :
    Needs vars fields x := fun s a s' _ _ hclean hrun => absurd hclean (h s a s' hrun)

theorem Needs.bind {x : LowerM α} {f : α → LowerM β} (hx : Needs vars fields x)
    (hf : ∀ a, Needs vars fields' (f a)) (hlive : Live fields)
    (hback : ∀ a, Run.Moves (Run.Reflects Clean) (f a)) :
    Needs vars (fields ++ fields') (x >>= f) := by
  intro s c s' hsettled hclean hclean' h t hsettled' hcleant
  obtain ⟨a, s₁, h₁, h₂⟩ := Run.bind_eq_ok_iff.mp h
  have hclean₁ := (hback a).movesOk s₁ c s' h₂ hclean'
  have hself := hx s a s₁ hsettled hclean hclean₁ h₁ s hsettled hclean
  have hs₁ := hself.1 (hself.2 a s₁ hclean₁ h₁)
  rw [h₁] at hs₁
  obtain ⟨-, rfl⟩ := Prod.mk.inj hs₁
  have hfirst := hx s a _ hsettled hclean hclean₁ h₁ t hsettled' hcleant
  have hsecond := hf a _ c s' (hsettled.resolveFields hlive) hclean₁ hclean' h₂
    { t with work := resolveFields vars fields t.work } (hsettled'.resolveFields hlive) hcleant
  constructor
  · intro hover
    rw [anyOver_append, not_or] at hover
    rw [resolveFields_append]
    exact (Run.bind_of_ok (hfirst.1 hover.1)).trans (hsecond.1 hover.2)
  · intro b t' hcleant' hrun
    obtain ⟨a', t₁, ht₁, ht₂⟩ := Run.bind_eq_ok_iff.mp hrun
    have hover := hfirst.2 a' t₁ ((hback a').movesOk t₁ b t' ht₂ hcleant') ht₁
    have heq := hfirst.1 hover
    rw [ht₁] at heq
    obtain ⟨hok, rfl⟩ := Prod.mk.inj heq
    cases hok
    rw [anyOver_append, not_or]
    exact ⟨hover, hsecond.2 b t' hcleant' ht₂⟩

/-- What is made of a result resolves nothing. -/
theorem Needs.map {x : LowerM α} (hx : Needs vars fields x) (hlive : Live fields) (f : α → β) :
    Needs vars fields (x >>= fun a => pure (f a)) := by
  have h := hx.bind (fun a => needs_pure (f a)) hlive fun _ => Run.moves_pure _
  rwa [List.append_nil] at h

theorem live_flatMap {F : α → List Field} {l : List α} (h : ∀ a ∈ l, Live (F a)) :
    Live (l.flatMap F) := by
  intro field hfield
  obtain ⟨a, ha, hfield⟩ := List.mem_flatMap.mp hfield
  exact h a ha field hfield

theorem forEach_needs {f : α → LowerM β} {F : α → List Field} {l : List α}
    (hf : ∀ a ∈ l, Needs vars (F a) (f a)) (hlive : ∀ a ∈ l, Live (F a))
    (hback : ∀ a, Run.Moves (Run.Reflects Clean) (f a)) :
    Needs vars (l.flatMap F) (Run.forEach f l) := by
  induction l with
  | nil => exact needs_pure []
  | cons a rest ih =>
    have hrest := ih (fun a ha => hf a (List.mem_cons_of_mem _ ha))
      fun a ha => hlive a (List.mem_cons_of_mem _ ha)
    rw [List.flatMap_cons]
    refine (hf a List.mem_cons_self).bind (fun b => ?_) (hlive a List.mem_cons_self) fun b =>
      (Run.forEach_moves hback rest).bind fun bs => Run.moves_pure _
    exact hrest.map (live_flatMap fun a ha => hlive a (List.mem_cons_of_mem _ ha)) (b :: ·)

theorem foldEach_needs {f : β → α → LowerM β} {F : α → List Field} {l : List α}
    (hf : ∀ b, ∀ a ∈ l, Needs vars (F a) (f b a)) (hlive : ∀ a ∈ l, Live (F a))
    (hback : ∀ b a, Run.Moves (Run.Reflects Clean) (f b a)) (b : β) :
    Needs vars (l.flatMap F) (Run.foldEach f b l) := by
  induction l generalizing b with
  | nil => exact needs_pure b
  | cons a rest ih =>
    rw [List.flatMap_cons]
    refine (hf b a List.mem_cons_self).bind (fun b => ?_) (hlive a List.mem_cons_self) fun b =>
      Run.foldEach_moves hback rest b
    exact ih (fun b a ha => hf b a (List.mem_cons_of_mem _ ha))
      (fun a ha => hlive a (List.mem_cons_of_mem _ ha)) b

/-- A required field, and what is needed after it. -/
theorem resolveRequired_needs {text path : Text} {scope : FlavorScope} {next : Text → LowerM α}
    {otherwise : α} (hlive : scope ≠ validationScope)
    (hnext : ∀ out, Needs vars fields (next out)) :
    Needs vars (⟨text, scope, path⟩ :: fields)
      (resolveRequired vars text scope path next otherwise) := by
  intro s a s' hsettled hclean hclean' h t hsettled' hcleant
  obtain ⟨out, work, hresolve, hrun⟩ := resolveRequired_clean hclean' h
  have hwork := hsettled.resolves hlive text path
  rw [hresolve] at hwork
  have hwalk : (walk vars text scope path).1 = .ok out :=
    walk_of_resolve (hsettled scope hlive) hresolve
  have hlater := hnext out { s with work } a s' hwork hclean hclean' hrun
    { t with work := (resolve vars text scope path t.work).2 } (hsettled'.resolves hlive text path)
    hcleant
  constructor
  · intro hover
    obtain ⟨hover, hrest⟩ := not_or.mp hover
    have heq := (resolve_of_not_over hover).trans hwalk
    have hwith : withResolver (resolve vars text scope path) t =
        (.ok (.ok out), { t with work := (resolve vars text scope path t.work).2 }) := by
      rw [withResolver, heq]
    exact (Run.bind_of_ok hwith).trans (hlater.1 hrest)
  · intro b t' hcleant' hrun'
    obtain ⟨out', work', hresolve', hrun'⟩ := resolveRequired_clean hcleant' hrun'
    have hwalk' : (walk vars text scope path).1 = .ok out' :=
      walk_of_resolve (hsettled' scope hlive) hresolve'
    obtain rfl : out' = out := Except.ok.inj (hwalk'.symm.trans hwalk)
    rw [hresolve'] at hlater
    refine not_or.mpr ⟨?_, ?_⟩
    · rintro (hne | hlong)
      · exact hne (by rw [hresolve', hwalk])
      · rw [hwalk] at hlong
        cases hlong
    · dsimp only
      rw [hresolve']
      exact hlater.2 b t' hcleant' hrun'

/-- A required field that nothing is resolved after. -/
theorem resolveRequired_needs_one {text path : Text} {scope : FlavorScope} {f : Text → α}
    {otherwise : α} (hlive : scope ≠ validationScope) :
    Needs vars [⟨text, scope, path⟩]
      (resolveRequired vars text scope path (fun out => pure (f out)) otherwise) :=
  resolveRequired_needs hlive fun out => needs_pure (f out)

/-! ## Builds, steps, environment and artifacts -/

/-- The build command of a target, for every flavor. -/
def buildFields (scopes : List (Option Text × FlavorScope)) (target : EffectiveTarget) :
    List Field :=
  scopes.flatMap fun flavor => [⟨target.build, flavor.2, target.buildSource⟩]

/-- The command of an entry. -/
def entryFields (shared : List StepEntry) (entriesPath : Text) (entry : StepEntry × ℕ) :
    List Field :=
  (stepOf shared entriesPath entry.2 entry.1).toList.map fun (step, source) =>
    ⟨step.run, .outside, source ++ ".run"⟩

def envField (setting : Setting) : Field := ⟨setting.value, .outside, setting.path⟩

/-- The patterns of a target, for every flavor. -/
def patternFields (scopes : List (Option Text × FlavorScope)) (target : EffectiveTarget) :
    List Field :=
  (targetPatterns target).1.zipIdx.flatMap fun pattern => scopes.flatMap fun flavor =>
    [⟨pattern.1, flavor.2, atIndex (targetPatterns target).2 pattern.2⟩]

/-- What is resolved after the uploads. -/
def restFields (config : ConfigV2) (selected : Selected) (targets : List EffectiveTarget) :
    List Field :=
  let scopes := flavorScopes (workflowFlavors config selected)
  targets.flatMap (buildFields scopes) ++
    ((workflowEntries config selected).1.zipIdx.flatMap
      (entryFields (config.steps.getD []) (workflowEntries config selected).2) ++
    ((envSettings config selected).flatMap (fun setting => [envField setting]) ++
    targets.flatMap (patternFields scopes)))

theorem live_singleton {field : Field} (h : field.scope ≠ validationScope) : Live [field] := by
  intro other hother
  rwa [List.mem_singleton.mp hother]

theorem buildFields_live (flavors : List Text) (target : EffectiveTarget) :
    Live (buildFields (flavorScopes flavors) target) :=
  live_flatMap fun _ hflavor => live_singleton (live_of_mem_flavorScopes hflavor)

theorem patternFields_live (flavors : List Text) (target : EffectiveTarget) :
    Live (patternFields (flavorScopes flavors) target) :=
  live_flatMap fun _ _ => live_flatMap fun _ hflavor =>
    live_singleton (live_of_mem_flavorScopes hflavor)

theorem entryFields_live (shared : List StepEntry) (entriesPath : Text) (entry : StepEntry × ℕ) :
    Live (entryFields shared entriesPath entry) := by
  intro field hfield
  obtain ⟨step, -, rfl⟩ := List.mem_map.mp hfield
  exact outside_live

theorem lowerBuilds_needs (flavors : List Text) (targets : List EffectiveTarget) :
    Needs vars (targets.flatMap (buildFields (flavorScopes flavors)))
      (lowerBuilds vars (flavorScopes flavors) targets) := by
  have htarget : ∀ target ∈ targets, Needs vars (buildFields (flavorScopes flavors) target)
      (targetBuilds vars (flavorScopes flavors) target) := fun target _ =>
    (forEach_needs (fun _ hflavor => resolveRequired_needs_one (live_of_mem_flavorScopes hflavor))
      (fun _ hflavor => live_singleton (live_of_mem_flavorScopes hflavor))
      (lowerBuild_reflects target)).map (buildFields_live flavors target) List.flatten
  exact (forEach_needs htarget (fun target _ => buildFields_live flavors target)
    (targetBuilds_reflects _)).map (live_flatMap fun target _ => buildFields_live flavors target)
    List.flatten

theorem lowerEntry_needs (shared : List StepEntry) (entriesPath : Text) (buildNames : List Text)
    (list : StepList) (entry : StepEntry × ℕ) :
    Needs vars (entryFields shared entriesPath entry)
      (lowerEntry vars shared entriesPath buildNames list entry) := by
  unfold lowerEntry entryFields
  split
  · rename_i hbuild
    rw [hbuild]
    exact needs_pure _
  · cases stepOf shared entriesPath entry.2 entry.1 with
    | none => exact needs_pure _
    | some found =>
      dsimp only
      split
      · refine needs_of_not_clean fun s next s' hrun => ?_
        obtain ⟨_, s₁, h₁, h₂⟩ := Run.bind_eq_ok_iff.mp hrun
        cases h₁
        cases h₂
        exact pushUnique_ne_nil _ _
      · exact resolveRequired_needs_one outside_live

theorem lowerSteps_needs (config : ConfigV2) (selected : Selected) (builds : List PlanStep) :
    Needs vars ((workflowEntries config selected).1.zipIdx.flatMap
        (entryFields (config.steps.getD []) (workflowEntries config selected).2))
      (lowerSteps vars config selected builds) := by
  rw [lowerSteps_eq]
  exact (foldEach_needs (fun list entry _ => lowerEntry_needs _ _ _ list entry)
    (fun entry _ => entryFields_live _ _ entry) (lowerEntry_reflects _ _ _) _).map
    (live_flatMap fun entry _ => entryFields_live _ _ entry) _

theorem lowerEnv_needs (settings : List Setting) :
    Needs vars (settings.flatMap fun setting => [envField setting])
      (Run.forEach (lowerEnv vars) settings) :=
  forEach_needs (fun _ _ => resolveRequired_needs_one outside_live)
    (fun _ _ => live_singleton outside_live) lowerEnv_reflects

theorem addPattern_needs (path : Text) (found : List Text) (pattern : Text) :
    Needs vars [] (addPattern path found pattern) := by
  have hreport : ∀ error, Needs vars []
      (report error >>= fun _ => (pure found : LowerM (List Text))) := by
    refine fun error => needs_of_not_clean fun s next s' hrun => ?_
    obtain ⟨_, s₁, h₁, h₂⟩ := Run.bind_eq_ok_iff.mp hrun
    cases h₁
    cases h₂
    exact pushUnique_ne_nil _ _
  unfold addPattern
  split
  · exact hreport _
  · split
    · exact hreport _
    · exact needs_pure _

theorem lowerArtifacts_needs (flavors : List Text) (targets : List EffectiveTarget) :
    Needs vars (targets.flatMap (patternFields (flavorScopes flavors)))
      (lowerArtifacts vars (flavorScopes flavors) targets) := by
  refine foldEach_needs (fun found target _ => ?_)
    (fun target _ => patternFields_live flavors target) (targetArtifacts_reflects _) []
  refine foldEach_needs (fun found pattern _ => ?_)
    (fun _ _ => live_flatMap fun _ hflavor => live_singleton (live_of_mem_flavorScopes hflavor))
    (fun found pattern => Run.foldEach_moves (lowerPattern_reflects _ pattern) _ found) found
  refine foldEach_needs (fun found flavor hflavor => ?_)
    (fun _ hflavor => live_singleton (live_of_mem_flavorScopes hflavor)) (lowerPattern_reflects _ _)
    found
  exact resolveRequired_needs (live_of_mem_flavorScopes hflavor) fun _ => addPattern_needs _ _ _

/-- What comes after the uploads resolves its own texts only. -/
theorem lowerRest_needs (config : ConfigV2) (selected : Selected) (publish : PlanPublish)
    (targets : List EffectiveTarget) :
    Needs vars (restFields config selected targets)
      (lowerRest config selected vars publish targets) := by
  unfold lowerRest restFields
  dsimp only
  have hend : ∀ lowered : Lowered, Run.Moves (Run.Reflects Clean)
      (endOnErrors >>= fun _ => (pure lowered : LowerM Lowered)) :=
    fun _ => endOnErrors_reflects.bind fun _ => Run.moves_pure _
  have hlast : ∀ lowered : Lowered, Needs vars []
      (endOnErrors >>= fun _ => (pure lowered : LowerM Lowered)) := by
    intro lowered s a s' _ _ _ hrun t _ hclean
    obtain ⟨_, s₁, h₁, h₂⟩ := Run.bind_eq_ok_iff.mp hrun
    cases h₂
    exact ⟨fun _ => Run.bind_of_ok (endOnErrors_of_clean hclean), fun _ _ _ _ => not_anyOver_nil _⟩
  refine (lowerBuilds_needs _ targets).bind (fun builds => ?_)
    (live_flatMap fun target _ => buildFields_live _ target) fun builds =>
    (lowerSteps_reflects _ _ _).bind fun _ => (Run.forEach_moves lowerEnv_reflects _).bind fun _ =>
      (lowerArtifacts_reflects _ _).bind fun _ => hend _
  refine (lowerSteps_needs config selected builds).bind (fun steps => ?_)
    (live_flatMap fun entry _ => entryFields_live _ _ entry) fun _ =>
    (Run.forEach_moves lowerEnv_reflects _).bind fun _ =>
      (lowerArtifacts_reflects _ _).bind fun _ => hend _
  refine (lowerEnv_needs _).bind (fun env => ?_)
    (live_flatMap fun _ _ => live_singleton outside_live) fun _ =>
    (lowerArtifacts_reflects _ _).bind fun _ => hend _
  have hartifacts := (lowerArtifacts_needs (workflowFlavors config selected)
    targets).bind (fun artifacts => hlast { publish, steps, env := env.flatten, artifacts })
    (live_flatMap fun target _ => patternFields_live _ target) fun _ => hend _
  rwa [List.append_nil] at hartifacts

end

end OoreBuild
