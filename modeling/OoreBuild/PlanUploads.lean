import OoreBuild.PlanSpec

/-!
# What the uploads of a plan are

An upload of a plan that was made is what its texts expand to, and a problem of it if they do not
(`playUpload`, `testflightUpload`, `appStoreUpload`). Only the groups of an App Store upload that
is in error anyway depend on what was resolved before: a limit that comes after its first error
goes unnoticed (`SameUpload`).
-/

namespace OoreBuild

open Text

/-! ## Uploads with one field -/

/-- What a field of an upload comes to. -/
def uploadText (vars : List (Text × Text)) (path value field : Text) : Except Text Text :=
  checkUpload (path ++ "." ++ field) (walk vars value .outside (path ++ "." ++ field)).1

def playUpload (vars : List (Text × Text)) (path : Text) (flavorError : Option Text)
    (play : PlayPublishSpec) : PlannedPublish PlayPublishSpec :=
  let track := uploadText vars path play.track "play.track"
  { spec := { play with track := track.toOption.getD (trim play.track) }
    source := path ++ ".play", error := playError path flavorError track }

def testflightUpload (vars : List (Text × Text)) (path : Text) (flavorError : Option Text)
    (testflight : TestflightPublishSpec) : PlannedPublish TestflightPublishSpec :=
  let group := uploadText vars path testflight.group "testflight.group"
  { spec := { group := group.toOption.getD (trim testflight.group) }
    source := path ++ ".testflight", error := testflightError path flavorError group }

variable {vars : List (Text × Text)}

/-- A field of an upload is what it comes to, or a limit. -/
theorem resolveUpload_cases {s : LowerState} (hsettled : AllSettled vars s.work)
    (path value field : Text) :
    ∃ resolved s', resolveUpload vars path value field s = (.ok resolved, s') ∧
      AllSettled vars s'.work ∧ (resolved = uploadText vars path value field ∨
        ∃ error, resolved = .error error ∧ isLimitError error = true) := by
  refine ⟨_, _, resolveUpload_apply path value field s, hsettled.resolves outside_live _ _, ?_⟩
  rcases resolve_agrees value (path ++ "." ++ field) (hsettled .outside outside_live) with
    ⟨heq, -⟩ | ⟨error, herror, hstops⟩
  · rw [heq]
    exact .inl rfl
  · rw [herror]
    exact .inr ⟨error, rfl, hstops.limit⟩

theorem resolvePlanned_eq {α : Type} {path value field : Text}
    {errorOf : Except Text Text → Option Text}
    {make : Except Text Text → Option Text → PlannedPublish α} {s s' : LowerState}
    {planned : PlannedPublish α} (herror : ∀ error, errorOf (.error error) = some error)
    (hsettled : AllSettled vars s.work)
    (h : resolvePlanned vars path value field errorOf make s = (.ok planned, s')) :
    planned = make (uploadText vars path value field) (errorOf (uploadText vars path value field)) ∧
      AllSettled vars s'.work := by
  obtain ⟨resolved, hresolved, hlimit, rfl⟩ := resolvePlanned_eq_ok.mp h
  obtain ⟨resolved', s₁, hrun, hsettled', hcases⟩ := resolveUpload_cases hsettled path value field
  rw [hresolved] at hrun
  cases hrun
  rcases hcases with rfl | ⟨error, rfl, hover⟩
  · exact ⟨rfl, hsettled'⟩
  · rw [herror, Option.any_some, hover] at hlimit
    cases hlimit

/-! ## App Store uploads -/

/-- The groups, and the first error among them. -/
def groupsOf (vars : List (Text × Text)) (path : Text) (groups : List Text) : Groups :=
  groups.zipIdx.foldl (fun found group => found.push path group.2
    (uploadText vars path group.1 (atIndex "app_store.groups" group.2))) ⟨[], none⟩

def appStoreUpload (vars : List (Text × Text)) (path : Text) (flavorError : Option Text)
    (appStore : AppStorePublishSpec) : PlannedPublish AppStorePublishSpec where
  spec := { appStore with groups := (groupsOf vars path appStore.groups).groups }
  source := path ++ ".app_store"
  error := (groupsOf vars path appStore.groups).error.or flavorError

/-- The same upload, but for the groups where it is in error. -/
structure SameUpload (upload other : PlannedPublish AppStorePublishSpec) : Prop where
  source : upload.source = other.source
  error : upload.error = other.error
  settings : { upload.spec with groups := other.spec.groups } = other.spec
  groups : upload.error = none → upload.spec.groups = other.spec.groups

theorem SameUpload.refl (upload : PlannedPublish AppStorePublishSpec) : SameUpload upload upload :=
  ⟨rfl, rfl, rfl, fun _ => rfl⟩

theorem SameUpload.symm {a b : PlannedPublish AppStorePublishSpec} (h : SameUpload a b) :
    SameUpload b a := by
  refine ⟨h.source.symm, h.error.symm, ?_, fun hb => (h.groups (h.error.trans hb)).symm⟩
  rw [← h.settings]

theorem SameUpload.trans {a b c : PlannedPublish AppStorePublishSpec} (h : SameUpload a b)
    (h' : SameUpload b c) : SameUpload a c := by
  refine ⟨h.source.trans h'.source, h.error.trans h'.error, ?_, fun ha =>
    (h.groups ha).trans (h'.groups (h.error.symm.trans ha))⟩
  rw [← h'.settings, ← h.settings]

/-- Groups that are right so far, or in the same error, or have run into a limit first. -/
inductive GroupsRight (found right : Groups) : Prop
  | same (groups : found = right)
  | failed (error : Text) (first : found.error = some error) (second : right.error = some error)
  | limit (error : Text) (first : found.error = some error) (over_limit : isLimitError error = true)

theorem GroupsRight.push {found right : Groups} (h : GroupsRight found right) (path : Text)
    (index : ℕ) {resolved expected : Except Text Text}
    (hresolved : resolved = expected ∨ ∃ error, resolved = .error error ∧
      isLimitError error = true) :
    GroupsRight (found.push path index resolved) (right.push path index expected) := by
  cases h with
  | same groups =>
    subst groups
    rcases hresolved with rfl | ⟨error, rfl, hover⟩
    · exact .same rfl
    · cases herror : found.error with
      | none => exact .limit error (push_error_of_none herror _ _ _) hover
      | some first =>
        exact .failed first (push_error_of_some herror _ _ _) (push_error_of_some herror _ _ _)
  | failed error first second =>
    exact .failed error (push_error_of_some first _ _ _) (push_error_of_some second _ _ _)
  | limit error first over_limit =>
    exact .limit error (push_error_of_some first _ _ _) over_limit

theorem resolveGroups_right {path : Text} (groups : List (Text × ℕ)) {found right next : Groups}
    {s s' : LowerState} (hsettled : AllSettled vars s.work) (h : GroupsRight found right)
    (hrun : Run.foldEach (resolveGroup vars path) found groups s = (.ok next, s')) :
    GroupsRight next (groups.foldl (fun found group => found.push path group.2
      (uploadText vars path group.1 (atIndex "app_store.groups" group.2))) right) ∧
    AllSettled vars s'.work := by
  induction groups generalizing found right s with
  | nil =>
    cases hrun
    exact ⟨h, hsettled⟩
  | cons group rest ih =>
    obtain ⟨resolved, s₁, hresolved, hsettled', hcases⟩ :=
      resolveUpload_cases hsettled path group.1 (atIndex "app_store.groups" group.2)
    have hgroup : resolveGroup vars path found group s =
        (.ok (found.push path group.2 resolved), s₁) := (Run.bind_of_ok hresolved).trans rfl
    obtain ⟨found', s₂, h₁, hrest⟩ := Run.bind_eq_ok_iff.mp hrun
    rw [hgroup] at h₁
    cases h₁
    exact ih hsettled' (h.push path group.2 hcases) hrest

theorem publishAppStore_same {path : Text} {flavorError : Option Text}
    {appStore : AppStorePublishSpec} {s s' : LowerState}
    {planned : PlannedPublish AppStorePublishSpec} (hsettled : AllSettled vars s.work)
    (h : publishAppStore vars path flavorError appStore s = (.ok planned, s')) :
    SameUpload planned (appStoreUpload vars path flavorError appStore) ∧
      AllSettled vars s'.work := by
  obtain ⟨found, hfound, hlimit, rfl⟩ := publishAppStore_eq_ok.mp h
  obtain ⟨hright, hsettled'⟩ :=
    resolveGroups_right appStore.groups.zipIdx hsettled (.same rfl) hfound
  refine ⟨?_, hsettled'⟩
  cases hright with
  | same groups =>
    subst groups
    exact .refl _
  | failed error first second =>
    refine ⟨rfl, ?_, rfl, fun hnone => ?_⟩
    · exact congrArg (·.or flavorError) (first.trans second.symm)
    · rw [first] at hnone
      cases hnone
  | limit error first over_limit =>
    rw [first, Option.some_or, Option.any_some, over_limit] at hlimit
    cases hlimit

/-! ## Targets -/

/-- What is uploaded last among the targets. -/
def lastUpload {α β : Type} (f : α → Option β) (targets : List α) : Option β :=
  targets.reverse.findSome? f

@[simp] theorem lastUpload_nil {α β : Type} (f : α → Option β) : lastUpload f [] = none := rfl

theorem lastUpload_cons {α β : Type} (f : α → Option β) (target : α) (rest : List α) :
    lastUpload f (target :: rest) = (lastUpload f rest).or (f target) := by
  unfold lastUpload
  rw [List.reverse_cons, List.findSome?_append]
  cases h : f target <;> simp [h]

/-- The uploads of a target to one store. -/
def EffectiveTarget.upload {α β : Type} (target : EffectiveTarget) (store : PublishSpec → Option α)
    (flavors : List Text) (flavorsPath : Text) (make : Text → Option Text → α → β) : Option β :=
  target.publish.bind fun (spec, path) =>
    (store spec).map (make path (flavorError flavors flavorsPath path))

/-- The uploads of a plan for these targets: of those to one store, the last. -/
def publishOf (vars : List (Text × Text)) (flavors : List Text) (flavorsPath : Text)
    (targets : List EffectiveTarget) : PlanPublish where
  play := lastUpload (·.upload PublishSpec.play flavors flavorsPath (playUpload vars)) targets
  testflight :=
    lastUpload (·.upload PublishSpec.testflight flavors flavorsPath (testflightUpload vars)) targets
  appStore :=
    lastUpload (·.upload PublishSpec.appStore flavors flavorsPath (appStoreUpload vars)) targets

/-- These uploads where they are set, else those that were kept. -/
def PlanPublish.over (publish kept : PlanPublish) : PlanPublish where
  play := publish.play.or kept.play
  testflight := publish.testflight.or kept.testflight
  appStore := publish.appStore.or kept.appStore

/-- The same uploads, but for the groups of an App Store upload in error. -/
structure SamePublish (publish other : PlanPublish) : Prop where
  play : publish.play = other.play
  testflight : publish.testflight = other.testflight
  appStore : Option.Rel SameUpload publish.appStore other.appStore

theorem relUpload_symm {a b : Option (PlannedPublish AppStorePublishSpec)}
    (h : Option.Rel SameUpload a b) : Option.Rel SameUpload b a := by
  cases h with
  | none => exact .none
  | some same => exact .some same.symm

theorem relUpload_trans {a b c : Option (PlannedPublish AppStorePublishSpec)}
    (h : Option.Rel SameUpload a b) (h' : Option.Rel SameUpload b c) :
    Option.Rel SameUpload a c := by
  cases h with
  | none => exact h'
  | some same =>
    cases h' with
    | some same' => exact .some (same.trans same')

theorem SamePublish.symm {a b : PlanPublish} (h : SamePublish a b) : SamePublish b a :=
  ⟨h.play.symm, h.testflight.symm, relUpload_symm h.appStore⟩

theorem SamePublish.trans {a b c : PlanPublish} (h : SamePublish a b) (h' : SamePublish b c) :
    SamePublish a c :=
  ⟨h.play.trans h'.play, h.testflight.trans h'.testflight, relUpload_trans h.appStore h'.appStore⟩

theorem orKeep_same {α β : Type} {R : β → β → Prop} {f : α → LowerM β} {g : α → β}
    {value : Option α} {kept right next : Option β} {s s' : LowerState}
    (hf : ∀ a s b s', AllSettled vars s.work → f a s = (.ok b, s') →
      R b (g a) ∧ AllSettled vars s'.work)
    (hkept : Option.Rel R kept right) (hsettled : AllSettled vars s.work)
    (h : orKeep value f kept s = (.ok next, s')) :
    Option.Rel R next ((value.map g).or right) ∧ AllSettled vars s'.work := by
  cases value with
  | none =>
    cases h
    exact ⟨hkept, hsettled⟩
  | some a =>
    obtain ⟨b, s₁, h₁, hpure⟩ := Run.bind_eq_ok_iff.mp h
    cases hpure
    obtain ⟨hR, hsettled'⟩ := hf a s b s' hsettled h₁
    exact ⟨.some hR, hsettled'⟩

theorem relEq {β : Type} {a b : Option β} (h : Option.Rel Eq a b) : a = b := by
  cases h with
  | none => rfl
  | some heq => rw [heq]

theorem relEq_refl {β : Type} (a : Option β) : Option.Rel Eq a a := by
  cases a with
  | none => exact .none
  | some a => exact .some rfl

theorem publishTarget_same {flavors : List Text} {flavorsPath : Text}
    {publish right next : PlanPublish} {target : EffectiveTarget} {s s' : LowerState}
    (hsettled : AllSettled vars s.work) (hkept : SamePublish publish right)
    (h : publishTarget vars flavors flavorsPath publish target s = (.ok next, s')) :
    SamePublish next ((publishOf vars flavors flavorsPath [target]).over right) ∧
      AllSettled vars s'.work := by
  unfold publishTarget at h
  unfold publishOf lastUpload EffectiveTarget.upload PlanPublish.over
  simp only [List.reverse_singleton, List.findSome?_singleton]
  cases hpublish : target.publish with
  | none =>
    rw [hpublish] at h
    cases h
    exact ⟨hkept, hsettled⟩
  | some entry =>
    obtain ⟨spec, path⟩ := entry
    rw [hpublish] at h
    obtain ⟨play, s₁, h₁, hrest⟩ := Run.bind_eq_ok_iff.mp h
    obtain ⟨testflight, s₂, h₂, hrest⟩ := Run.bind_eq_ok_iff.mp hrest
    obtain ⟨appStore, s₃, h₃, hpure⟩ := Run.bind_eq_ok_iff.mp hrest
    cases hpure
    have hplayKept : Option.Rel Eq publish.play right.play := hkept.play ▸ relEq_refl _
    have htestflightKept : Option.Rel Eq publish.testflight right.testflight :=
      hkept.testflight ▸ relEq_refl _
    obtain ⟨hplay, hsettled₁⟩ := orKeep_same
      (fun play s b s' hsettled hrun => resolvePlanned_eq (fun _ => rfl) hsettled hrun)
      hplayKept hsettled h₁
    obtain ⟨htestflight, hsettled₂⟩ := orKeep_same
      (fun testflight s b s' hsettled hrun => resolvePlanned_eq (fun _ => rfl) hsettled hrun)
      htestflightKept hsettled₁ h₂
    obtain ⟨happStore, hsettled₃⟩ := orKeep_same
      (fun appStore s b s' hsettled hrun => publishAppStore_same hsettled hrun)
      hkept.appStore hsettled₂ h₃
    exact ⟨⟨relEq hplay, relEq htestflight, happStore⟩, hsettled₃⟩

theorem publishOf_cons (flavors : List Text) (flavorsPath : Text) (target : EffectiveTarget)
    (rest : List EffectiveTarget) (right : PlanPublish) :
    (publishOf vars flavors flavorsPath (target :: rest)).over right =
      (publishOf vars flavors flavorsPath rest).over
        ((publishOf vars flavors flavorsPath [target]).over right) := by
  simp only [publishOf, PlanPublish.over, lastUpload_cons, lastUpload_nil, Option.or_assoc,
    Option.none_or]

/-- The uploads of a plan are those of its targets. -/
theorem planPublish_same {flavors : List Text} {flavorsPath : Text}
    (targets : List EffectiveTarget) {publish right next : PlanPublish} {s s' : LowerState}
    (hsettled : AllSettled vars s.work) (hkept : SamePublish publish right)
    (h : Run.foldEach (publishTarget vars flavors flavorsPath) publish targets s =
      (.ok next, s')) :
    SamePublish next ((publishOf vars flavors flavorsPath targets).over right) ∧
      AllSettled vars s'.work := by
  induction targets generalizing publish right s with
  | nil =>
    cases h
    exact ⟨hkept, hsettled⟩
  | cons target rest ih =>
    obtain ⟨next₁, s₁, h₁, hrest⟩ := Run.bind_eq_ok_iff.mp h
    obtain ⟨hsame, hsettled'⟩ := publishTarget_same hsettled hkept h₁
    rw [publishOf_cons]
    exact ih hsettled' hsame hrest

end OoreBuild
