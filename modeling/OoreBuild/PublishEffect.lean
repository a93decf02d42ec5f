import OoreBuild.PlanFields

/-!
# What uploads do to a lowering

A problem of an upload is noted in the plan, and ends the lowering only if it reads as a limit
(`planPublish_publishes`).
-/

namespace OoreBuild

open Text

section Uploads

variable {vars : List (Text × Text)}

/-! ## Rules for uploads -/

/-- Where none of these texts is over a limit, the uploads are lowered unless one of these problems
reads as a limit. -/
def Publishes {α : Type} (vars : List (Text × Text)) (fields : List Field) (problems : List Text)
    (x : LowerM α) : Prop :=
  ∀ s, ¬ AnyOver vars fields s.work →
    (problems.any isLimitError = false →
      ∃ a, x s = (.ok a, { s with work := resolveFields vars fields s.work })) ∧
    (problems.any isLimitError = true → ∀ a s', x s ≠ (.ok a, s'))

variable {α β : Type} {fields fields' : List Field} {noted noted' : List Text}

theorem publishes_pure (a : α) : Publishes vars [] [] (pure a) := by
  refine fun s _ => ⟨fun _ => ⟨a, rfl⟩, fun h => ?_⟩
  cases h

theorem Publishes.bind {x : LowerM α} {f : α → LowerM β} (hx : Publishes vars fields noted x)
    (hf : ∀ a, Publishes vars fields' noted' (f a)) :
    Publishes vars (fields ++ fields') (noted ++ noted') (x >>= f) := by
  intro s hover
  rw [anyOver_append, not_or] at hover
  obtain ⟨hfirst, hfails⟩ := hx s hover.1
  cases hnoted : noted.any isLimitError with
  | true =>
    refine ⟨fun h => ?_, fun _ b s' hrun => ?_⟩
    · rw [List.any_append, hnoted] at h
      cases h
    · obtain ⟨a, s₁, h₁, -⟩ := Run.bind_eq_ok_iff.mp hrun
      exact hfails hnoted a s₁ h₁
  | false =>
    obtain ⟨a, ha⟩ := hfirst hnoted
    have hbind : (x >>= f) s = f a { s with work := resolveFields vars fields s.work } :=
      Run.bind_of_ok ha
    obtain ⟨hsecond, hfails'⟩ := hf a { s with work := resolveFields vars fields s.work } hover.2
    rw [List.any_append, hnoted, Bool.false_or, hbind, resolveFields_append]
    exact ⟨hsecond, hfails'⟩

/-- What is made of the uploads is no upload. -/
theorem Publishes.map {x : LowerM α} (hx : Publishes vars fields noted x) (f : α → β) :
    Publishes vars fields noted (x >>= fun a => pure (f a)) := by
  have h := hx.bind fun a => publishes_pure (f a)
  rwa [List.append_nil, List.append_nil] at h

theorem foldEach_publishes {f : β → α → LowerM β} {F : α → List Field} {P : α → List Text}
    (hf : ∀ b a, Publishes vars (F a) (P a) (f b a)) (l : List α) (b : β) :
    Publishes vars (l.flatMap F) (l.flatMap P) (Run.foldEach f b l) := by
  induction l generalizing b with
  | nil => exact publishes_pure b
  | cons a rest ih =>
    rw [List.flatMap_cons, List.flatMap_cons]
    exact (hf b a).bind fun b => ih b

theorem orKeep_publishes {f : α → LowerM β} {F : α → List Field} {P : α → List Text}
    (hf : ∀ a, Publishes vars (F a) (P a) (f a)) (value : Option α) (kept : Option β) :
    Publishes vars (value.toList.flatMap F) (value.toList.flatMap P) (orKeep value f kept) := by
  cases value with
  | none => exact publishes_pure kept
  | some a =>
    rw [Option.toList_some, List.flatMap_singleton, List.flatMap_singleton]
    exact (hf a).map some

/-! ## The uploads of a target -/

/-- A field of an upload. -/
def uploadField (path value field : Text) : Field := ⟨value, .outside, path ++ "." ++ field⟩

theorem resolveUpload_eq {path value field : Text} {s : LowerState}
    (h : ¬ (uploadField path value field).Over vars s.work) :
    resolveUpload vars path value field s = (.ok (uploadText vars path value field),
      { s with work := resolveFields vars [uploadField path value field] s.work }) := by
  have hwalk : (walk vars value .outside (path ++ "." ++ field)).1 =
      (resolve vars value .outside (path ++ "." ++ field) s.work).1 := (resolve_of_not_over h).symm
  rw [resolveUpload_apply, uploadText, hwalk]
  rfl

theorem any_toList (error : Option Text) :
    error.toList.any isLimitError = error.any isLimitError := by
  cases error <;> simp

/-- An upload whose texts come to `c` ends at a limit, or with what is made of them. -/
theorem publishes_of_eq {γ : Type} {x : LowerM γ} {c : γ}
    (hx : ∀ s, ¬ AnyOver vars fields s.work →
      x s = (.ok c, { s with work := resolveFields vars fields s.work }))
    (errorOf : γ → Option Text) (make : γ → β) :
    Publishes vars fields (errorOf c).toList
      (x >>= fun c => endOnLimit (errorOf c) >>= fun _ => pure (make c)) := by
  intro s hover
  have hbind := (Run.bind_of_ok (f := fun c => endOnLimit (errorOf c) >>= fun _ =>
    (pure (make c) : LowerM β)) (hx s hover))
  rw [hbind, any_toList]
  constructor
  · intro hlimit
    exact ⟨make c, Run.bind_of_ok (endOnLimit_of_false hlimit _)⟩
  · intro hlimit b s' hrun
    obtain ⟨⟨⟩, s₁, hend, -⟩ := Run.bind_eq_ok_iff.mp hrun
    rw [(endOnLimit_eq_ok hend).2] at hlimit
    cases hlimit

theorem resolvePlanned_publishes (path value field : Text)
    (errorOf : Except Text Text → Option Text)
    (make : Except Text Text → Option Text → PlannedPublish α) :
    Publishes vars [uploadField path value field]
      (errorOf (uploadText vars path value field)).toList
      (resolvePlanned vars path value field errorOf make) :=
  publishes_of_eq (fun _ hover => resolveUpload_eq fun h => hover (.inl h)) errorOf
    fun resolved => make resolved (errorOf resolved)

/-- A group of an App Store upload. -/
def groupField (path : Text) (group : Text × ℕ) : Field :=
  uploadField path group.1 (atIndex "app_store.groups" group.2)

/-- The groups of an App Store upload, resolved. -/
theorem resolveGroups_eq {path : Text} (groups : List (Text × ℕ)) (found : Groups) {s : LowerState}
    (h : ¬ AnyOver vars (groups.map (groupField path)) s.work) :
    Run.foldEach (resolveGroup vars path) found groups s =
      (.ok (groups.foldl (fun found group => found.push path group.2
          (uploadText vars path group.1 (atIndex "app_store.groups" group.2))) found),
        { s with work := resolveFields vars (groups.map (groupField path)) s.work }) := by
  induction groups generalizing found s with
  | nil => rfl
  | cons group rest ih =>
    obtain ⟨hfirst, hrest⟩ := not_or.mp h
    have hgroup : resolveGroup vars path found group s = (.ok (found.push path group.2
        (uploadText vars path group.1 (atIndex "app_store.groups" group.2))),
        { s with work := resolveFields vars [groupField path group] s.work }) :=
      (Run.bind_of_ok (resolveUpload_eq hfirst)).trans rfl
    exact (Run.foldEach_of_ok hgroup).trans (ih _ hrest)

theorem publishAppStore_publishes (path : Text) (flavorError : Option Text)
    (appStore : AppStorePublishSpec) :
    Publishes vars (appStore.groups.zipIdx.map (groupField path))
      (appStoreUpload vars path flavorError appStore).error.toList
      (publishAppStore vars path flavorError appStore) :=
  publishes_of_eq (x := resolveGroups vars path appStore.groups)
    (fun _ hover => resolveGroups_eq appStore.groups.zipIdx ⟨[], none⟩ hover)
    (fun found : Groups => found.error.or flavorError) _

/-- The texts of the target's uploads. -/
def EffectiveTarget.uploadFields (target : EffectiveTarget) : List Field :=
  target.uploads.map fun upload => ⟨upload.1, .outside, upload.2⟩

/-- What is wrong with the target's uploads. -/
def EffectiveTarget.problems (vars : List (Text × Text)) (flavors : List Text) (flavorsPath : Text)
    (target : EffectiveTarget) : List Text :=
  ((target.upload PublishSpec.play flavors flavorsPath (playUpload vars)).bind (·.error)).toList ++
  (((target.upload PublishSpec.testflight flavors flavorsPath
      (testflightUpload vars)).bind (·.error)).toList ++
    ((target.upload PublishSpec.appStore flavors flavorsPath
      (appStoreUpload vars)).bind (·.error)).toList)

theorem publishTarget_publishes (flavors : List Text) (flavorsPath : Text) (publish : PlanPublish)
    (target : EffectiveTarget) :
    Publishes vars target.uploadFields (target.problems vars flavors flavorsPath)
      (publishTarget vars flavors flavorsPath publish target) := by
  unfold publishTarget EffectiveTarget.problems EffectiveTarget.uploadFields
    EffectiveTarget.uploads EffectiveTarget.upload
  cases target.publish with
  | none => exact publishes_pure publish
  | some entry =>
    obtain ⟨spec, path⟩ := entry
    have hplay : ∀ play, Publishes vars [uploadField path play.track "play.track"]
        (playUpload vars path (flavorError flavors flavorsPath path) play).error.toList
        (publishPlay vars path (flavorError flavors flavorsPath path) play) :=
      fun play => resolvePlanned_publishes path play.track "play.track"
        (playError path (flavorError flavors flavorsPath path)) _
    have htestflight : ∀ testflight,
        Publishes vars [uploadField path testflight.group "testflight.group"]
          (testflightUpload vars path (flavorError flavors flavorsPath path)
            testflight).error.toList
          (publishTestflight vars path (flavorError flavors flavorsPath path) testflight) :=
      fun testflight => resolvePlanned_publishes path testflight.group "testflight.group"
        (testflightError path (flavorError flavors flavorsPath path)) _
    have h := (orKeep_publishes hplay spec.play publish.play).bind fun play =>
      (orKeep_publishes htestflight spec.testflight publish.testflight).bind fun testflight =>
        (orKeep_publishes (publishAppStore_publishes path (flavorError flavors flavorsPath path))
          spec.appStore publish.appStore).map fun appStore =>
            ({ play, testflight, appStore } : PlanPublish)
    obtain ⟨play, testflight, appStore⟩ := spec
    convert h using 1
    · cases play <;> cases testflight <;> cases appStore <;>
        simp [uploadField, groupField, Function.comp_def]
    · cases play <;> cases testflight <;> cases appStore <;> simp

/-- The uploads of the targets. -/
theorem planPublish_publishes (flavors : List Text) (flavorsPath : Text)
    (targets : List EffectiveTarget) :
    Publishes vars (targets.flatMap EffectiveTarget.uploadFields)
      (targets.flatMap (·.problems vars flavors flavorsPath))
      (planPublish vars flavors flavorsPath targets) :=
  foldEach_publishes (publishTarget_publishes flavors flavorsPath) targets .none

end Uploads

end OoreBuild
