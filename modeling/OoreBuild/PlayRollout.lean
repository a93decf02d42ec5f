import OoreBuild.Environments
import OoreBuild.Publish

/-!
# Staged rollouts on Google Play

The settings form refuses a staged rollout of a draft or on the internal track. A file's upload is
combined with the settings after both were checked, so `PlanPublish.apply` drops the rollout where
the combination breaks a rule, and notes it. An upload without settings does neither:
`play_rules_kept_iff` says when the rules hold all the same.
-/

namespace OoreBuild

open Text

/-! ## The settings form -/

def isPackageName (package : Text) : Bool :=
  let parts := split (· = '.') package
  2 ≤ parts.length && parts.all fun part =>
    part.head?.any isAsciiAlphabetic && part.all fun c => isAsciiAlphanumeric c || c = '_'

/-- The rules of a rollout. -/
def rolloutErrors (config : GooglePlayPublishConfig) : List Text :=
  match config.rolloutPercent with
  | none => []
  | some percent =>
    if !((F64.finite 0).lt percent && percent.le (.finite 100)) then
      ["rollout_percent must be greater than 0 and at most 100"]
    else if isStaged percent && trim config.track = "internal" then
      ["the internal track does not support staged rollouts"]
    else if isStaged percent && config.draft then
      ["a draft release cannot have a staged rollout"]
    else []

/-- Rejects an approval gate that nothing can enforce. -/
def ReleasePolicy.validateGate (policy : ReleasePolicy) : Except Text Unit :=
  match policy.approval with
  | .beforeUpload => .error "policy.approval before_upload is not supported; require build approval on the pipeline or use before_production"
  | .none | .beforeProduction => .ok ()

/-- What a check complains about, after the name of its field. -/
def errorOf (field : Text) : Except Text Unit → List Text
  | .error error => [field ++ error]
  | .ok () => []

/-- Every problem of the settings. -/
def validateGooglePlayPublishConfig (config : GooglePlayPublishConfig) : List Text :=
  errorOf "service_account_secret " (validateSecretName (trim config.serviceAccountSecret)) ++
  errorIf (config.packageName.any fun package => !isPackageName package)
    "package_name must be an Android application id such as com.example.app" ++
  errorIf (!isValidPlayTrack (trim config.track))
    "track must be internal, closed, open, production, or a custom track name" ++
  rolloutErrors config ++
  (match config.rolloutPolicy with
    | some policy => errorOf "" policy.validate ++ errorOf "" policy.validateGate
    | none => []) ++
  errorIf ((trim config.releaseNotesLocale).isEmpty || 16 < byteLen config.releaseNotesLocale)
    "release_notes_locale must be a Play language code such as en-US" ++
  (if config.releaseNotes = .repoFiles then
    match config.releaseNotesDir with
    | some dir => errorOf "release_notes_dir " (validateRepositoryConfigPath dir)
    | none => ["release_notes_dir is required for repo_files release notes"]
  else []) ++
  errorIf (config.inAppUpdatePriority.any (5 < ·)) "in_app_update_priority must be between 0 and 5"

/-! ## The rules -/

/-- A staged rollout is neither of a draft nor on the internal track. -/
def GooglePlayPublishConfig.RolloutAllowed (config : GooglePlayPublishConfig) : Prop :=
  ∀ percent, config.rolloutPercent = some percent → isStaged percent = true →
    config.draft = false ∧ config.track ≠ "internal"

/-- What became of the staged rollout of a file: it stays, or a note says why not. -/
def RolloutNoted (config : GooglePlayPublishConfig) (notes : List PublishNote) (percent : F64) :
    Prop :=
  config.rolloutPercent = some percent ∨
    config.draft = true ∧ .draftRollout percent ∈ notes ∨
    config.track = "internal" ∧ .internalRollout percent ∈ notes

structure PlanPublish.KeepsPlayRules (publish : PlanPublish) (settings : RunnerPublishPlan) :
    Prop where
  allowed : ∀ config, (publish.apply settings).googlePlay = .ok (some config) →
    config.RolloutAllowed
  noted : ∀ config play rollout, (publish.apply settings).googlePlay = .ok (some config) →
    publish.play = some play → play.spec.rollout = some rollout →
    rollout.lt (.finite 1) = true →
    RolloutNoted config (publish.apply settings).notes (playRolloutPercent rollout)

/-- A rollout below 1 is below 100% after rounding. Without settings to combine it with, it is not
of a draft or on the internal track. -/
def PlayPublishSpec.rolloutFits (spec : PlayPublishSpec)
    (settings : Option GooglePlayPublishConfig) : Bool :=
  spec.rollout.all fun rollout =>
    (!rollout.lt (.finite 1) || isStaged (playRolloutPercent rollout)) &&
      (settings.isSome || (if spec.track = "internal" then !rollout.lt (.finite 1)
        else !isStaged (playRolloutPercent rollout) || spec.draft ≠ some true))

theorem GooglePlayPublishConfig.rolloutAllowed_of_none {config : GooglePlayPublishConfig}
    (h : config.rolloutPercent = none) : config.RolloutAllowed := by
  intro percent hpercent
  rw [h] at hpercent
  cases hpercent

theorem rolloutAllowed_of_validate {config : GooglePlayPublishConfig}
    (h : validateGooglePlayPublishConfig config = []) : config.RolloutAllowed := by
  have hrollout : rolloutErrors config = [] := by
    simp only [validateGooglePlayPublishConfig, List.append_eq_nil_iff] at h
    tauto
  intro percent hpercent hstaged
  unfold rolloutErrors at hrollout
  rw [hpercent] at hrollout
  dsimp only at hrollout
  rw [hstaged] at hrollout
  split_ifs at hrollout with hrange hinternal hdraft
  constructor
  · simpa using hdraft
  · rintro heq
    rw [heq] at hinternal
    exact hinternal (by decide)

/-- Settings that were fitted keep the rules, and a rollout goes with a note only. -/
theorem fit_allowed (config : GooglePlayPublishConfig) : config.fit.1.RolloutAllowed := by
  unfold GooglePlayPublishConfig.fit
  split
  · rename_i hnone
    intro percent hpercent hstaged
    rw [hpercent, Option.filter_some, if_pos hstaged] at hnone
    cases hnone
  · rename_i percent hsome
    split_ifs with hdraft hinternal
    · exact GooglePlayPublishConfig.rolloutAllowed_of_none rfl
    · exact GooglePlayPublishConfig.rolloutAllowed_of_none rfl
    · exact fun _ _ _ => ⟨by simpa using hdraft, hinternal⟩

theorem fit_noted {config : GooglePlayPublishConfig} {percent : F64}
    (h : config.rolloutPercent = some percent) (hstaged : isStaged percent = true) :
    RolloutNoted config.fit.1 config.fit.2 percent := by
  unfold GooglePlayPublishConfig.fit
  rw [h, Option.filter_some, if_pos hstaged]
  dsimp only
  split_ifs with hdraft hinternal
  · exact .inr (.inl ⟨hdraft, List.mem_singleton_self _⟩)
  · exact .inr (.inr ⟨hinternal, List.mem_singleton_self _⟩)
  · exact .inl h

/-- Settings without a rollout are left as they are. -/
theorem fit_of_none {config : GooglePlayPublishConfig} (h : config.rolloutPercent = none) :
    config.fit = (config, []) := by
  unfold GooglePlayPublishConfig.fit
  rw [h]
  rfl

/-! ## When the rules hold -/

variable {publish : PlanPublish} {settings : RunnerPublishPlan} {spec : PlayPublishSpec}

/-- What an upload leads to is all that the rules are about. -/
theorem keepsPlayRules_iff {result : Except Text (Option GooglePlayPublishConfig)}
    {notes : List PublishNote} (hresult : (publish.apply settings).googlePlay = result)
    (hnotes : (publish.apply settings).notes = notes) :
    publish.KeepsPlayRules settings ↔ ∀ config, result = .ok (some config) →
      config.RolloutAllowed ∧ ∀ play rollout, publish.play = some play →
        play.spec.rollout = some rollout → rollout.lt (.finite 1) = true →
          RolloutNoted config notes (playRolloutPercent rollout) := by
  subst hresult hnotes
  constructor
  · exact fun h config hconfig => ⟨h.allowed config hconfig, fun play rollout =>
      h.noted config play rollout hconfig⟩
  · exact fun h => ⟨fun config hconfig => (h config hconfig).1,
      fun config play rollout hconfig => (h config hconfig).2 play rollout⟩

/-- The rules of an upload that is made. -/
theorem keepsPlayRules_of_upload {config : GooglePlayPublishConfig} {notes : List PublishNote}
    (hplay : publish.play = some ⟨spec, source, none⟩)
    (hresult : (publish.apply settings).googlePlay = .ok (some config))
    (hnotes : (publish.apply settings).notes = notes) :
    publish.KeepsPlayRules settings ↔ config.RolloutAllowed ∧ ∀ rollout,
      spec.rollout = some rollout → rollout.lt (.finite 1) = true →
        RolloutNoted config notes (playRolloutPercent rollout) := by
  rw [keepsPlayRules_iff hresult hnotes, hplay]
  constructor
  · intro h
    obtain ⟨hallowed, hnoted⟩ := h config rfl
    exact ⟨hallowed, fun rollout => hnoted _ rollout rfl⟩
  · rintro ⟨hallowed, hnoted⟩ _ hconfig
    obtain rfl := Option.some.inj (Except.ok.inj hconfig)
    refine ⟨hallowed, fun play rollout hplanned => ?_⟩
    obtain rfl := Option.some.inj hplanned
    exact hnoted rollout

theorem rolloutFits_iff {config : Option GooglePlayPublishConfig} :
    spec.rolloutFits config = true ↔ ∀ rollout, spec.rollout = some rollout →
      (rollout.lt (.finite 1) = true → isStaged (playRolloutPercent rollout) = true) ∧
      (config = none → if spec.track = "internal" then rollout.lt (.finite 1) = false
        else isStaged (playRolloutPercent rollout) = true → spec.draft ≠ some true) := by
  unfold PlayPublishSpec.rolloutFits
  rw [Option.all_eq_true]
  refine forall₂_congr fun rollout _ => ?_
  cases rollout.lt (.finite 1) <;> cases isStaged (playRolloutPercent rollout) <;>
    cases config <;> split_ifs <;> simp

/-- An upload onto settings breaks no rule, and drops a rollout that rounds to everyone. -/
theorem onto_rules_iff (config : GooglePlayPublishConfig) :
    ((spec.onto config).fit.1.RolloutAllowed ∧ ∀ rollout, spec.rollout = some rollout →
      rollout.lt (.finite 1) = true → RolloutNoted (spec.onto config).fit.1
        (spec.onto config).fit.2 (playRolloutPercent rollout)) ↔
      spec.rolloutFits (some config) = true := by
  rw [rolloutFits_iff]
  constructor
  · rintro ⟨-, hnoted⟩ rollout hrollout
    refine ⟨fun hlt => ?_, nofun⟩
    by_contra hstaged
    have hnone : (spec.onto config).rolloutPercent = none := by
      unfold PlayPublishSpec.onto
      dsimp only
      rw [hrollout]
      exact (Option.filter_some ..).trans (if_neg hstaged)
    have hnoted := hnoted rollout hrollout hlt
    rw [fit_of_none hnone] at hnoted
    rcases hnoted with hkept | ⟨-, hnote⟩ | ⟨-, hnote⟩
    · rw [hnone] at hkept
      cases hkept
    · cases hnote
    · cases hnote
  · refine fun hfits => ⟨fit_allowed _, fun rollout hrollout hlt => ?_⟩
    have hstaged := (hfits rollout hrollout).1 hlt
    refine fit_noted ?_ hstaged
    unfold PlayPublishSpec.onto
    dsimp only
    rw [hrollout]
    exact (Option.filter_some ..).trans (if_pos hstaged)

/-- An upload without settings is not fitted. -/
theorem alone_rules_iff (secret : Text) :
    ((spec.alone secret).RolloutAllowed ∧ ∀ rollout, spec.rollout = some rollout →
      rollout.lt (.finite 1) = true →
        RolloutNoted (spec.alone secret) [] (playRolloutPercent rollout)) ↔
      spec.rolloutFits none = true := by
  have hnoted (percent : F64) : RolloutNoted (spec.alone secret) [] percent ↔
      (spec.alone secret).rolloutPercent = some percent :=
    ⟨fun h => h.resolve_right (by rintro (⟨-, hnote⟩ | ⟨-, hnote⟩) <;> cases hnote), .inl⟩
  have hdraft : (spec.alone secret).draft = false ↔ spec.draft ≠ some true := by
    show spec.draft.getD false = false ↔ _
    cases spec.draft <;> simp
  have hpercent : (spec.alone secret).rolloutPercent =
      (spec.rollout.map playRolloutPercent).filter fun percent =>
        isStaged percent && spec.track ≠ "internal" := rfl
  rw [rolloutFits_iff]
  cases hrollout : spec.rollout with
  | none =>
    rw [hrollout] at hpercent
    exact iff_of_true ⟨GooglePlayPublishConfig.rolloutAllowed_of_none hpercent, nofun⟩ nofun
  | some rollout =>
    rw [hrollout, Option.map_some, Option.filter_some] at hpercent
    simp only [hnoted, Option.some.injEq, forall_eq', true_implies]
    unfold GooglePlayPublishConfig.RolloutAllowed
    rw [hdraft, hpercent]
    generalize playRolloutPercent rollout = percent
    have htrack : (spec.alone secret).track = spec.track := rfl
    rw [htrack]
    by_cases hinternal : spec.track = "internal"
    · rw [if_pos hinternal]
      cases rollout.lt (.finite 1) <;> simp [hinternal]
    · rw [if_neg hinternal]
      have htrue : decide (spec.track ≠ "internal") = true := decide_eq_true hinternal
      rw [htrue, Bool.and_true]
      cases hstaged : isStaged percent with
      | true =>
        simp only [if_true, Option.some.injEq, forall_eq', hstaged, true_implies, implies_true,
          and_true, true_and]
        exact and_iff_left hinternal
      | false =>
        simp only [Bool.false_eq_true, if_false, reduceCtorEq, false_implies, implies_true,
          true_and, and_true]

/-- The configuration of an upload keeps Google Play's rules, and a rollout that the file asked for
goes with a note only, exactly where the file's rollout fits. -/
theorem play_rules_kept_iff
    (hvalid : ∀ config ∈ settings.googlePlay, validateGooglePlayPublishConfig config = []) :
    publish.KeepsPlayRules settings ↔ ∀ play, settings.disabled = false →
      publish.play = some play → play.error = none →
      settings.googlePlay.isSome = true ∨ play.spec.serviceAccount.isSome = true →
        play.spec.rolloutFits settings.googlePlay = true := by
  cases hoff : settings.disabled with
  | true =>
    have hresult : (publish.apply settings).googlePlay = .ok none := by
      rw [PlanPublish.apply, hoff, if_pos rfl]
    rw [keepsPlayRules_iff hresult rfl]
    exact iff_of_true (fun config hconfig => by cases hconfig) (fun play hon => by cases hon)
  | false =>
    have hresult : (publish.apply settings).googlePlay =
        (applyPlay publish.play settings.googlePlay).1 := by
      rw [PlanPublish.apply, hoff, if_neg Bool.false_ne_true]
    have hnotes : (publish.apply settings).notes =
        (applyPlay publish.play settings.googlePlay).2 := by
      rw [PlanPublish.apply, hoff, if_neg Bool.false_ne_true]
    cases hplay : publish.play with
    | none =>
      rw [hplay] at hresult
      rw [keepsPlayRules_iff hresult rfl]
      refine iff_of_true (fun config hconfig => ⟨rolloutAllowed_of_validate ?_, ?_⟩) ?_
      · exact hvalid config (Except.ok.inj hconfig)
      · intro play rollout hnone
        rw [hplay] at hnone
        cases hnone
      · intro play _ hnone
        cases hnone
    | some planned =>
      obtain ⟨spec, source, error⟩ := planned
      rw [hplay] at hresult hnotes
      simp only [Option.some.injEq, forall_eq', true_implies]
      cases error with
      | some error =>
        rw [keepsPlayRules_iff hresult rfl]
        exact iff_of_true (fun config hconfig => by cases hconfig) (fun hnone => by cases hnone)
      | none =>
        cases hsettings : settings.googlePlay with
        | some config =>
          rw [hsettings] at hresult hnotes
          have hfit : (publish.apply settings).googlePlay = .ok (some (spec.onto config).fit.1) :=
            hresult
          have hnoted : (publish.apply settings).notes = (spec.onto config).fit.2 := hnotes
          rw [keepsPlayRules_of_upload hplay hfit hnoted, onto_rules_iff]
          exact ⟨fun h _ _ => h, fun h => h rfl (.inl rfl)⟩
        | none =>
          rw [hsettings] at hresult hnotes
          cases haccount : spec.serviceAccount with
          | some secret =>
            have halone : (publish.apply settings).googlePlay = .ok (some (spec.alone secret)) := by
              simp only [hresult, applyPlay, haccount]
            have hnoted : (publish.apply settings).notes = [] := by
              simp only [hnotes, applyPlay, haccount]
            rw [keepsPlayRules_of_upload hplay halone hnoted, alone_rules_iff]
            exact ⟨fun h _ _ => h, fun h => h rfl (.inr rfl)⟩
          | none =>
            have hoff : (publish.apply settings).googlePlay = .error (playSettingsOff source) := by
              simp only [hresult, applyPlay, haccount]
            rw [keepsPlayRules_iff hoff rfl]
            refine iff_of_true (fun config hconfig => by cases hconfig) fun _ hnone => ?_
            rcases hnone with hnone | hnone <;> cases hnone

/-- A file that uploads a draft to half of the users, with a service account of its own. -/
def stagedDraft : PlanPublish where
  play := some {
    spec := { track := "production", rollout := some (.finite (1 / 2)), draft := some true
              serviceAccount := some ("PLAY_KEY" : Text) }
    source := "targets.android.publish.play", error := none }
  testflight := none
  appStore := none

/-- Settings that roll out to a fifth of the users. -/
def stagedSettings : RunnerPublishPlan where
  changelog := none
  googlePlay := some { GooglePlayPublishConfig.fromFileDefaults with
    serviceAccountSecret := "KEY", track := "production", rolloutPercent := some (.finite 20) }
  appStore := none
  disabled := false

/-- Over settings the rollout of the draft goes, with a note. -/
theorem play_rules_kept_iff_staged : stagedDraft.KeepsPlayRules stagedSettings := by
  have hvalid : ∀ config ∈ stagedSettings.googlePlay,
      validateGooglePlayPublishConfig config = [] := by
    intro config hconfig
    obtain rfl := Option.some.inj hconfig
    decide +kernel
  refine (play_rules_kept_iff hvalid).mpr fun play _ hplay _ _ => ?_
  obtain rfl := Option.some.inj hplay
  decide +kernel

/-- Without settings the draft keeps its rollout. -/
theorem draft_keeps_rollout : ¬∀ (publish : PlanPublish) (settings : RunnerPublishPlan),
    (∀ config ∈ settings.googlePlay, validateGooglePlayPublishConfig config = []) →
      publish.KeepsPlayRules settings := by
  intro h
  have hkeeps := h stagedDraft ⟨none, none, none, false⟩ fun config hconfig => by cases hconfig
  have hallowed := hkeeps.allowed _ rfl (playRolloutPercent (.finite (1 / 2)))
    (by decide +kernel) (by decide +kernel)
  cases hallowed.1

end OoreBuild
