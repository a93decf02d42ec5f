import OoreBuild.LowerSim

/-!
# Uploads of some of the targets

Problems with an upload do not fail the lowering unless they are limits. Of the groups of an
App Store upload only the first error counts, so a limit that a later group runs into goes
unnoticed: from there on the first lowering may be past a limit (`Lost`), while the second one,
with more budget left, goes on spending. A Google Play track that comes after it can then be over
the limit for the second alone (`TrackOverLimit`).
-/

namespace OoreBuild

open Text

/-- Two lowerings without errors, the second trailing the first. -/
structure OnTrail (vars : List (Text × Text)) (s t : LowerState) : Prop where
  clean : Clean s
  clean' : Clean t
  work : Trails vars s.work t.work

/-- Two lowerings without errors, the first past a limit. -/
structure Astray (vars : List (Text × Text)) (s t : LowerState) : Prop where
  clean : Clean s
  clean' : Clean t
  work : Lost vars s.work t.work

theorem OnTrail.together {vars : List (Text × Text)} {s t : LowerState} (h : OnTrail vars s t) :
    Together vars s t := ⟨h.clean, h.clean', h.work.follows⟩

theorem Astray.together {vars : List (Text × Text)} {s t : LowerState} (h : Astray vars s t) :
    Together vars s t := ⟨h.clean, h.clean', .inr h.work⟩

/-! ## What only the first does -/

/-- The first moves on and the second stays behind it. -/
structure Ahead (vars : List (Text × Text)) (s s' : LowerState) : Prop where
  trails : ∀ t, OnTrail vars s t → OnTrail vars s' t
  lost : ∀ t, Astray vars s t → Astray vars s' t

section

variable {vars : List (Text × Text)}

instance : Std.Refl (Ahead vars) := ⟨fun _ => ⟨fun _ h => h, fun _ h => h⟩⟩

instance : IsTrans LowerState (Ahead vars) :=
  ⟨fun _ _ _ h h' => ⟨fun t ht => h'.trails t (h.trails t ht), fun t ht => h'.lost t (h.lost t ht)⟩⟩

theorem resolveUpload_apply (path value field : Text) (s : LowerState) :
    resolveUpload vars path value field s =
      (.ok (checkUpload (path ++ "." ++ field)
          (resolve vars value .outside (path ++ "." ++ field) s.work).1),
        { s with work := (resolve vars value .outside (path ++ "." ++ field) s.work).2 }) := rfl

theorem resolveUpload_ahead (vars : List (Text × Text)) (path value field : Text) :
    Run.Moves (Ahead vars) (resolveUpload vars path value field) := by
  intro s
  rw [resolveUpload_apply]
  refine ⟨fun t h => ⟨h.clean, h.clean', ?_⟩, fun t h => ⟨h.clean, h.clean', ?_⟩⟩
  · exact h.work.first outside_live value _
  · exact ⟨h.work.settled.resolves outside_live value _, h.work.settled',
      h.work.exhausted.resolves vars _ value _⟩

theorem endOnLimit_ahead (error : Option Text) : Run.Moves (Ahead vars) (endOnLimit error) := by
  unfold endOnLimit
  split
  · exact Run.moves_fail _
  · exact Run.moves_pure _

theorem resolvePlanned_ahead {α : Type} (path value field : Text)
    (errorOf : Except Text Text → Option Text)
    (make : Except Text Text → Option Text → PlannedPublish α) :
    Run.Moves (Ahead vars) (resolvePlanned vars path value field errorOf make) :=
  (resolveUpload_ahead vars path value field).bind fun _ =>
    (endOnLimit_ahead _).bind fun _ => Run.moves_pure _

theorem resolveGroup_ahead (path : Text) (found : Groups) (group : Text × ℕ) :
    Run.Moves (Ahead vars) (resolveGroup vars path found group) :=
  (resolveUpload_ahead vars path _ _).bind fun _ => Run.moves_pure _

theorem publishAppStore_ahead (path : Text) (flavorError : Option Text)
    (appStore : AppStorePublishSpec) :
    Run.Moves (Ahead vars) (publishAppStore vars path flavorError appStore) :=
  (Run.foldEach_moves (resolveGroup_ahead path) _ _).bind fun _ =>
    (endOnLimit_ahead _).bind fun _ => Run.moves_pure _

theorem orKeep_ahead {α β : Type} (value : Option α) {f : α → LowerM β} (kept : Option β)
    (hf : ∀ a, Run.Moves (Ahead vars) (f a)) : Run.Moves (Ahead vars) (orKeep value f kept) := by
  unfold orKeep
  split
  · exact (hf _).bind fun _ => Run.moves_pure _
  · exact Run.moves_pure _

theorem publishTarget_ahead (flavors : List Text) (flavorsPath : Text) (publish : PlanPublish)
    (target : EffectiveTarget) :
    Run.Moves (Ahead vars) (publishTarget vars flavors flavorsPath publish target) := by
  unfold publishTarget
  split
  · exact Run.moves_pure _
  · refine (orKeep_ahead _ _ fun _ => resolvePlanned_ahead _ _ _ _ _).bind fun _ => ?_
    refine (orKeep_ahead _ _ fun _ => resolvePlanned_ahead _ _ _ _ _).bind fun _ => ?_
    exact (orKeep_ahead _ _ fun _ => publishAppStore_ahead _ _ _).bind fun _ => Run.moves_pure _

/-! ## What both do -/

/-- A field of an upload, for both: they get the same, or the first a limit. -/
theorem resolveUpload_both {s t : LowerState} (h : OnTrail vars s t) (path value field : Text) :
    (∃ t', resolveUpload vars path value field t =
        ((resolveUpload vars path value field s).1, t') ∧
      OnTrail vars (resolveUpload vars path value field s).2 t') ∨
    ∃ error, (resolveUpload vars path value field s).1 = .ok (.error error) ∧
      isLimitError error = true ∧
      Astray vars (resolveUpload vars path value field s).2
        (resolveUpload vars path value field t).2 := by
  rw [resolveUpload_apply, resolveUpload_apply]
  rcases h.work.resolves outside_live value (path ++ "." ++ field) with
    ⟨work, heq, htrails⟩ | ⟨error, herror, hlimit, hexhausted⟩
  · left
    refine ⟨{ t with work }, ?_, h.clean, h.clean', htrails⟩
    rw [heq]
  · right
    refine ⟨error, ?_, hlimit, h.clean, h.clean', ?_, ?_, hexhausted⟩
    · rw [herror]
      rfl
    · exact h.work.settled.resolves outside_live value _
    · exact h.work.settled'.resolves outside_live value _

theorem endOnLimit_eq_ok {error : Option Text} {s s' : LowerState}
    (h : endOnLimit error s = (.ok (), s')) : s' = s ∧ error.any isLimitError = false := by
  unfold endOnLimit at h
  split at h
  · cases h
  · rename_i hlimit
    cases h
    exact ⟨rfl, by simpa using hlimit⟩

theorem endOnLimit_of_false {error : Option Text} (h : error.any isLimitError = false)
    (s : LowerState) : endOnLimit error s = (.ok (), s) := by
  unfold endOnLimit
  rw [if_neg (by simp [h])]
  rfl

/-- An upload with one field, in parts. -/
theorem resolvePlanned_eq_ok {α : Type} {path value field : Text}
    {errorOf : Except Text Text → Option Text}
    {make : Except Text Text → Option Text → PlannedPublish α} {s s' : LowerState}
    {planned : PlannedPublish α} :
    resolvePlanned vars path value field errorOf make s = (.ok planned, s') ↔
      ∃ resolved, resolveUpload vars path value field s = (.ok resolved, s') ∧
        (errorOf resolved).any isLimitError = false ∧ planned = make resolved (errorOf resolved) := by
  constructor
  · intro h
    obtain ⟨resolved, s₁, h₁, hrest⟩ := Run.bind_eq_ok_iff.mp h
    obtain ⟨⟨⟩, s₂, h₂, hpure⟩ := Run.bind_eq_ok_iff.mp hrest
    obtain ⟨rfl, hlimit⟩ := endOnLimit_eq_ok h₂
    cases hpure
    exact ⟨resolved, h₁, hlimit, rfl⟩
  · rintro ⟨resolved, h₁, hlimit, rfl⟩
    exact (Run.bind_of_ok h₁).trans (Run.bind_of_ok (endOnLimit_of_false hlimit s'))

/-- An upload with one field, for both. -/
theorem resolvePlanned_simulates {α : Type} {path value field : Text}
    {errorOf : Except Text Text → Option Text}
    {make : Except Text Text → Option Text → PlannedPublish α}
    (herror : ∀ error, errorOf (.error error) = some error) :
    Run.Simulates (fun _ => True) (OnTrail vars) Eq
      (resolvePlanned vars path value field errorOf make)
      (resolvePlanned vars path value field errorOf make) := by
  intro s t planned s' _ h hrun
  obtain ⟨resolved, hresolved, hlimit, rfl⟩ := resolvePlanned_eq_ok.mp hrun
  rcases resolveUpload_both h path value field with ⟨t', heq, htrail⟩ | ⟨error, hfirst, hover, -⟩
  · rw [hresolved] at heq htrail
    exact ⟨_, t', resolvePlanned_eq_ok.mpr ⟨resolved, heq, hlimit, rfl⟩, htrail, rfl⟩
  · rw [hresolved] at hfirst
    cases hfirst
    rw [herror, Option.any_some, hover] at hlimit
    cases hlimit

/-! ### Groups of an App Store upload -/

/-- Groups that both resolved alike, or of which only the first error is the same, or of which the
first lowering has noted a limit. -/
inductive GroupsAlike (vars : List (Text × Text)) (found found' : Groups) (s t : LowerState) :
    Prop where
  | same (groups : found = found') (trail : OnTrail vars s t)
  | astray (error : Text) (first : found.error = some error) (second : found'.error = some error)
      (astray : Astray vars s t)
  | limit (error : Text) (first : found.error = some error) (over_limit : isLimitError error = true)

theorem push_error_of_some {found : Groups} {error : Text} (h : found.error = some error)
    (path : Text) (index : ℕ) (result : Except Text Text) :
    (found.push path index result).error = some error := by
  unfold Groups.push
  split
  · simp [h]
  · split
    · simp [h]
    · split
      · simp [h]
      · exact h

theorem push_error_of_none {found : Groups} (h : found.error = none) (path : Text) (index : ℕ)
    (error : Text) : (found.push path index (.error error)).error = some error := by
  simp [Groups.push, h]

theorem resolveGroup_apply (vars : List (Text × Text)) (path : Text) (found : Groups) (group : Text × ℕ) (s : LowerState) :
    ∃ result, (resolveUpload vars path group.1 (atIndex "app_store.groups" group.2) s).1 =
        .ok result ∧
      resolveGroup vars path found group s = (.ok (found.push path group.2 result),
        (resolveUpload vars path group.1 (atIndex "app_store.groups" group.2) s).2) :=
  ⟨_, rfl, rfl⟩

theorem resolveGroup_alike (path : Text) {found found' : Groups} (group : Text × ℕ)
    {s t : LowerState} (h : GroupsAlike vars found found' s t) :
    ∃ next next' s' t', resolveGroup vars path found group s = (.ok next, s') ∧
      resolveGroup vars path found' group t = (.ok next', t') ∧
      GroupsAlike vars next next' s' t' := by
  obtain ⟨result, hresult, hrun⟩ := resolveGroup_apply vars path found group s
  obtain ⟨result', hresult', hrun'⟩ := resolveGroup_apply vars path found' group t
  refine ⟨_, _, _, _, hrun, hrun', ?_⟩
  have hahead := resolveUpload_ahead vars path group.1 (atIndex "app_store.groups" group.2)
  cases h with
  | same groups trail =>
    subst groups
    rcases resolveUpload_both trail path group.1 (atIndex "app_store.groups" group.2) with
      ⟨t', heq, htrail⟩ | ⟨error, hfirst, hover, hastray⟩
    · rw [heq] at hresult' ⊢
      have : result' = result := by
        rw [hresult] at hresult'
        exact (Except.ok.inj hresult').symm
      subst this
      exact .same rfl htrail
    · rw [hresult] at hfirst
      have : result = .error error := Except.ok.inj hfirst
      subst this
      cases herror : found.error with
      | none => exact .limit error (push_error_of_none herror _ _ _) hover
      | some first =>
        exact .astray first (push_error_of_some herror _ _ _) (push_error_of_some herror _ _ _)
          hastray
  | astray error first second astray =>
    refine .astray error (push_error_of_some first _ _ _) (push_error_of_some second _ _ _) ?_
    have hsecond := astray.work.settled'.resolves outside_live group.1
      (path ++ "." ++ atIndex "app_store.groups" group.2)
    exact ⟨astray.clean, astray.clean', ((hahead s).lost t astray).work.settled, hsecond,
      ((hahead s).lost t astray).work.exhausted⟩
  | limit error first over_limit =>
    exact .limit error (push_error_of_some first _ _ _) over_limit

theorem resolveGroups_alike (path : Text) (groups : List (Text × ℕ)) {found found' : Groups}
    {s t : LowerState} (h : GroupsAlike vars found found' s t) :
    ∃ next next' s' t', Run.foldEach (resolveGroup vars path) found groups s = (.ok next, s') ∧
      Run.foldEach (resolveGroup vars path) found' groups t = (.ok next', t') ∧
      GroupsAlike vars next next' s' t' := by
  induction groups generalizing found found' s t with
  | nil => exact ⟨found, found', s, t, rfl, rfl, h⟩
  | cons group rest ih =>
    obtain ⟨next, next', s₁, t₁, h₁, h₁', halike⟩ := resolveGroup_alike path group h
    obtain ⟨last, last', s', t', h₂, h₂', halike'⟩ := ih halike
    exact ⟨last, last', s', t', (Run.bind_of_ok h₁).trans h₂, (Run.bind_of_ok h₁').trans h₂',
      halike'⟩

/-- An App Store upload, in parts. -/
theorem publishAppStore_eq_ok {path : Text} {flavorError : Option Text}
    {appStore : AppStorePublishSpec} {s s' : LowerState}
    {planned : PlannedPublish AppStorePublishSpec} :
    publishAppStore vars path flavorError appStore s = (.ok planned, s') ↔
      ∃ found, resolveGroups vars path appStore.groups s = (.ok found, s') ∧
        (found.error.or flavorError).any isLimitError = false ∧
        planned = { spec := { appStore with groups := found.groups }
                    source := path ++ ".app_store", error := found.error.or flavorError } := by
  constructor
  · intro h
    obtain ⟨found, s₁, h₁, hrest⟩ := Run.bind_eq_ok_iff.mp h
    obtain ⟨⟨⟩, s₂, h₂, hpure⟩ := Run.bind_eq_ok_iff.mp hrest
    obtain ⟨rfl, hlimit⟩ := endOnLimit_eq_ok h₂
    cases hpure
    exact ⟨found, h₁, hlimit, rfl⟩
  · rintro ⟨found, h₁, hlimit, rfl⟩
    exact (Run.bind_of_ok h₁).trans (Run.bind_of_ok (endOnLimit_of_false hlimit s'))

/-- An App Store upload, for both: the second succeeds where the first does, but the first may
have passed a limit. -/
theorem publishAppStore_both {path : Text} {flavorError : Option Text}
    {appStore : AppStorePublishSpec} {s t s' : LowerState}
    {planned : PlannedPublish AppStorePublishSpec} (h : OnTrail vars s t)
    (hrun : publishAppStore vars path flavorError appStore s = (.ok planned, s')) :
    ∃ planned' t', publishAppStore vars path flavorError appStore t = (.ok planned', t') ∧
      (OnTrail vars s' t' ∨ Astray vars s' t') := by
  obtain ⟨found, found', s₁, t', hfound, hfound', halike⟩ :=
    resolveGroups_alike path appStore.groups.zipIdx (.same rfl h)
  obtain ⟨found₂, h₂, hlimit, rfl⟩ := publishAppStore_eq_ok.mp hrun
  have hsame := h₂.symm.trans hfound
  cases hsame
  cases halike with
  | same groups trail =>
    subst groups
    exact ⟨_, t', publishAppStore_eq_ok.mpr ⟨_, hfound', hlimit, rfl⟩, .inl trail⟩
  | astray error first second astray =>
    rw [first, ← second] at hlimit
    exact ⟨_, t', publishAppStore_eq_ok.mpr ⟨_, hfound', hlimit, rfl⟩, .inr astray⟩
  | limit error first over_limit =>
    rw [first, Option.some_or, Option.any_some, over_limit] at hlimit
    cases hlimit

/-! ### Targets -/

/-- The target uploads to TestFlight or the App Store. -/
def EffectiveTarget.usesAppStoreConnect (target : EffectiveTarget) : Bool :=
  target.publish.any fun (spec, _) => spec.testflight.isSome || spec.appStore.isSome

/-- The target uploads to the App Store. -/
def EffectiveTarget.usesAppStore (target : EffectiveTarget) : Bool :=
  target.publish.any fun (spec, _) => spec.appStore.isSome

theorem orKeep_simulates {α β : Type} (value : Option α) {f : α → LowerM β} (kept kept' : Option β)
    (hf : ∀ a, Run.Simulates (fun _ => True) (OnTrail vars) Eq (f a) (f a)) :
    Run.Simulates (fun _ => True) (OnTrail vars) (fun _ _ => True) (orKeep value f kept)
      (orKeep value f kept') := by
  unfold orKeep
  cases value with
  | some a =>
    exact (hf a).bind (fun _ _ _ => Run.simulates_pure trivial) fun _ _ _ => trivial
  | none => exact Run.simulates_pure trivial

theorem publishPlay_simulates (path : Text) (flavorError : Option Text) (play : PlayPublishSpec) :
    Run.Simulates (fun _ => True) (OnTrail vars) Eq (publishPlay vars path flavorError play)
      (publishPlay vars path flavorError play) :=
  resolvePlanned_simulates fun _ => rfl

theorem publishTestflight_simulates (path : Text) (flavorError : Option Text)
    (testflight : TestflightPublishSpec) :
    Run.Simulates (fun _ => True) (OnTrail vars) Eq
      (publishTestflight vars path flavorError testflight)
      (publishTestflight vars path flavorError testflight) :=
  resolvePlanned_simulates fun _ => rfl

/-- A target, for both: the second succeeds where the first does, and only an App Store upload
takes the first past a limit. -/
theorem publishTarget_both {flavors : List Text} {flavorsPath : Text}
    {publish publish' next : PlanPublish} {target : EffectiveTarget} {s t s' : LowerState}
    (h : OnTrail vars s t)
    (hrun : publishTarget vars flavors flavorsPath publish target s = (.ok next, s')) :
    ∃ next' t', publishTarget vars flavors flavorsPath publish' target t = (.ok next', t') ∧
      (OnTrail vars s' t' ∨ (Astray vars s' t' ∧ target.usesAppStore = true)) := by
  unfold publishTarget at hrun ⊢
  cases hpublish : target.publish with
  | none =>
    rw [hpublish] at hrun
    cases hrun
    exact ⟨publish', t, rfl, .inl h⟩
  | some entry =>
    obtain ⟨spec, path⟩ := entry
    rw [hpublish] at hrun
    obtain ⟨play, s₁, h₁, hrest⟩ := Run.bind_eq_ok_iff.mp hrun
    obtain ⟨testflight, s₂, h₂, hrest⟩ := Run.bind_eq_ok_iff.mp hrest
    obtain ⟨appStore, s₃, h₃, hpure⟩ := Run.bind_eq_ok_iff.mp hrest
    cases hpure
    obtain ⟨play', t₁, h₁', htrail₁, -⟩ := orKeep_simulates spec.play _ publish'.play
      (fun _ => publishPlay_simulates path _ _) s t play s₁ trivial h h₁
    obtain ⟨testflight', t₂, h₂', htrail₂, -⟩ := orKeep_simulates spec.testflight _
      publish'.testflight (fun _ => publishTestflight_simulates path _ _) s₁ t₁ testflight s₂ trivial
      htrail₁ h₂
    have hthird : ∃ appStore' t₃, orKeep spec.appStore (publishAppStore vars path
        (flavorError flavors flavorsPath path)) publish'.appStore t₂ = (.ok appStore', t₃) ∧
        (OnTrail vars s' t₃ ∨ (Astray vars s' t₃ ∧ target.usesAppStore = true)) := by
      cases happ : spec.appStore with
      | none =>
        rw [happ] at h₃
        cases h₃
        exact ⟨publish'.appStore, t₂, rfl, .inl htrail₂⟩
      | some app =>
        rw [happ] at h₃
        obtain ⟨planned, s₄, h₄, hpure⟩ := Run.bind_eq_ok_iff.mp h₃
        cases hpure
        obtain ⟨planned', t₃, h₄', htrail₃⟩ := publishAppStore_both htrail₂ h₄
        refine ⟨some planned', t₃, (Run.bind_of_ok h₄').trans rfl, htrail₃.imp_right fun h => ⟨h, ?_⟩⟩
        simp [EffectiveTarget.usesAppStore, hpublish, happ]
    obtain ⟨appStore', t₃, h₃', htrail₃⟩ := hthird
    exact ⟨_, t₃, (Run.bind_of_ok h₁').trans ((Run.bind_of_ok h₂').trans
      ((Run.bind_of_ok h₃').trans rfl)), htrail₃⟩

/-- Past a limit of the first, both get the same for a field, or the second a limit. -/
theorem Lost.resolves_or {a b : Work} (h : Lost vars a b) {scope : FlavorScope}
    (hlive : scope ≠ validationScope) {text path : Text}
    (hfirst : ∀ error, (resolve vars text scope path a).1 = .error error →
      isLimitError error = false) :
    (resolve vars text scope path b).1 = (resolve vars text scope path a).1 ∨
      ∃ error, (resolve vars text scope path b).1 = .error error ∧ isLimitError error = true := by
  rcases resolve_agrees text path (h.settled scope hlive) with ⟨hr, -⟩ | ⟨error, hr, ha⟩
  · rcases resolve_agrees text path (h.settled' scope hlive) with ⟨hr', -⟩ | ⟨error, hr', hb⟩
    · exact .inl (hr'.trans hr.symm)
    · exact .inr ⟨error, hr', hb.limit⟩
  · have := hfirst error hr
    rw [ha.limit] at this
    cases this

/-- The texts of the target's uploads, with their paths, in the order in which they resolve. -/
def EffectiveTarget.uploads (target : EffectiveTarget) : List (Text × Text) :=
  match target.publish with
  | none => []
  | some (spec, path) =>
    (spec.play.toList.map fun play => (play.track, path ++ "." ++ "play.track")) ++
    (spec.testflight.toList.map fun testflight =>
      (testflight.group, path ++ "." ++ "testflight.group")) ++
    (spec.appStore.toList.flatMap fun appStore => appStore.groups.zipIdx.map fun (group, index) =>
      (group, path ++ "." ++ atIndex "app_store.groups" index))

/-- The work after these texts. -/
def resolveUploads (vars : List (Text × Text)) (uploads : List (Text × Text)) (s : Work) : Work :=
  uploads.foldl (fun s upload => (resolve vars upload.1 .outside upload.2 s).2) s

/-- After the upload texts of the targets before it, the track of a target that comes after an
App Store upload is over a limit, though nothing else has been resolved. -/
def TrackOverLimit (vars : List (Text × Text)) (targets : List EffectiveTarget) : Prop :=
  ∃ before target after spec path play error,
    targets = before ++ target :: after ∧ before.any EffectiveTarget.usesAppStore = true ∧
    target.publish = some (spec, path) ∧ spec.play = some play ∧
    (resolve vars play.track .outside (path ++ "." ++ "play.track")
      (resolveUploads vars (before.flatMap EffectiveTarget.uploads) ⟨.fresh, []⟩)).1 =
        .error error ∧
    isLimitError error = true

/-! ### The work of the uploads -/

/-- The lowering moves on by these texts and notes no error. -/
def Resolves (vars : List (Text × Text)) (uploads : List (Text × Text)) (s s' : LowerState) :
    Prop :=
  s' = { s with work := resolveUploads vars uploads s.work }

theorem Resolves.append {uploads uploads' : List (Text × Text)} {s s₁ s' : LowerState}
    (h : Resolves vars uploads s s₁) (h' : Resolves vars uploads' s₁ s') :
    Resolves vars (uploads ++ uploads') s s' := by
  unfold Resolves at h h' ⊢
  rw [h', h, resolveUploads, resolveUploads, resolveUploads, List.foldl_append]

theorem resolvePlanned_resolves {α : Type} {path value field : Text}
    {errorOf : Except Text Text → Option Text}
    {make : Except Text Text → Option Text → PlannedPublish α} {s s' : LowerState}
    {planned : PlannedPublish α}
    (h : resolvePlanned vars path value field errorOf make s = (.ok planned, s')) :
    Resolves vars [(value, path ++ "." ++ field)] s s' := by
  obtain ⟨resolved, hresolved, -⟩ := resolvePlanned_eq_ok.mp h
  rw [resolveUpload_apply] at hresolved
  exact (Prod.mk.inj hresolved).2.symm

theorem resolveGroups_resolves {path : Text} (groups : List (Text × ℕ)) {found next : Groups}
    {s s' : LowerState} (h : Run.foldEach (resolveGroup vars path) found groups s = (.ok next, s')) :
    Resolves vars (groups.map fun (group, index) =>
      (group, path ++ "." ++ atIndex "app_store.groups" index)) s s' := by
  induction groups generalizing found s with
  | nil =>
    cases h
    rfl
  | cons group rest ih =>
    obtain ⟨found', s₁, h₁, hrest⟩ := Run.bind_eq_ok_iff.mp h
    obtain ⟨result, -, hgroup⟩ := resolveGroup_apply vars path found group s
    rw [h₁] at hgroup
    have hfirst : Resolves vars [(group.1, path ++ "." ++ atIndex "app_store.groups" group.2)] s s₁ :=
      (Prod.mk.inj hgroup).2
    exact hfirst.append (ih hrest)

theorem publishAppStore_resolves {path : Text} {flavorError : Option Text}
    {appStore : AppStorePublishSpec} {s s' : LowerState}
    {planned : PlannedPublish AppStorePublishSpec}
    (h : publishAppStore vars path flavorError appStore s = (.ok planned, s')) :
    Resolves vars (appStore.groups.zipIdx.map fun (group, index) =>
      (group, path ++ "." ++ atIndex "app_store.groups" index)) s s' := by
  obtain ⟨found, hfound, -⟩ := publishAppStore_eq_ok.mp h
  exact resolveGroups_resolves _ hfound

theorem orKeep_resolves {α β : Type} {value : Option α} {f : α → LowerM β} {kept next : Option β}
    {uploads : α → List (Text × Text)} {s s' : LowerState}
    (hf : ∀ a b s s', f a s = (.ok b, s') → Resolves vars (uploads a) s s')
    (h : orKeep value f kept s = (.ok next, s')) :
    Resolves vars (value.toList.flatMap uploads) s s' := by
  cases value with
  | none =>
    cases h
    rfl
  | some a =>
    obtain ⟨b, s₁, h₁, hpure⟩ := Run.bind_eq_ok_iff.mp h
    cases hpure
    simpa using hf a b s s' h₁

theorem publishTarget_resolves {flavors : List Text} {flavorsPath : Text}
    {publish next : PlanPublish} {target : EffectiveTarget} {s s' : LowerState}
    (h : publishTarget vars flavors flavorsPath publish target s = (.ok next, s')) :
    Resolves vars target.uploads s s' := by
  unfold publishTarget at h
  unfold EffectiveTarget.uploads
  cases hpublish : target.publish with
  | none =>
    rw [hpublish] at h
    cases h
    rfl
  | some entry =>
    obtain ⟨spec, path⟩ := entry
    rw [hpublish] at h
    obtain ⟨play, s₁, h₁, hrest⟩ := Run.bind_eq_ok_iff.mp h
    obtain ⟨testflight, s₂, h₂, hrest⟩ := Run.bind_eq_ok_iff.mp hrest
    obtain ⟨appStore, s₃, h₃, hpure⟩ := Run.bind_eq_ok_iff.mp hrest
    cases hpure
    have hplay := orKeep_resolves (fun _ _ _ _ h => resolvePlanned_resolves h) h₁
    have htestflight := orKeep_resolves (fun _ _ _ _ h => resolvePlanned_resolves h) h₂
    have happStore := orKeep_resolves (fun _ _ _ _ h => publishAppStore_resolves h) h₃
    rw [← List.map_eq_flatMap] at hplay htestflight
    exact (hplay.append htestflight).append happStore

theorem planPublish_resolves {flavors : List Text} {flavorsPath : Text} (targets : List EffectiveTarget)
    {publish next : PlanPublish} {s s' : LowerState}
    (h : Run.foldEach (publishTarget vars flavors flavorsPath) publish targets s = (.ok next, s')) :
    Resolves vars (targets.flatMap EffectiveTarget.uploads) s s' := by
  induction targets generalizing publish s with
  | nil =>
    cases h
    rfl
  | cons target rest ih =>
    obtain ⟨next₁, s₁, h₁, hrest⟩ := Run.bind_eq_ok_iff.mp h
    exact (publishTarget_resolves h₁).append (ih hrest)

/-- A target without an upload to App Store Connect, past a limit of the first. -/
theorem publishTarget_astray {flavors : List Text} {flavorsPath : Text}
    {publish next : PlanPublish} (publish' : PlanPublish) {target : EffectiveTarget} {s t s' : LowerState}
    (h : Astray vars s t) (htarget : target.usesAppStoreConnect = false)
    (htrack : ∀ spec path play, target.publish = some (spec, path) → spec.play = some play →
      ∀ error, (resolve vars play.track .outside (path ++ "." ++ "play.track") t.work).1 =
        .error error → isLimitError error = false)
    (hrun : publishTarget vars flavors flavorsPath publish target s = (.ok next, s')) :
    ∃ next' t', publishTarget vars flavors flavorsPath publish' target t = (.ok next', t') ∧
      Astray vars s' t' := by
  have hahead := (publishTarget_ahead flavors flavorsPath publish target s).lost t h
  rw [hrun] at hahead
  unfold publishTarget at hrun ⊢
  cases hpublish : target.publish with
  | none => exact ⟨publish', t, rfl, hahead⟩
  | some entry =>
    obtain ⟨spec, path⟩ := entry
    rw [hpublish] at hrun
    obtain ⟨htestflight, happStore⟩ : spec.testflight = none ∧ spec.appStore = none := by
      simpa [EffectiveTarget.usesAppStoreConnect, hpublish] using htarget
    dsimp only
    rw [htestflight, happStore]
    cases hplay : spec.play with
    | none => exact ⟨_, t, rfl, hahead⟩
    | some play =>
      obtain ⟨_, s₁, h₁, -⟩ := Run.bind_eq_ok_iff.mp hrun
      rw [hplay] at h₁
      obtain ⟨planned, s₂, h₂, -⟩ := Run.bind_eq_ok_iff.mp h₁
      obtain ⟨resolved, hresolved, hlimit, -⟩ := resolvePlanned_eq_ok.mp h₂
      rw [resolveUpload_apply] at hresolved
      obtain ⟨hresolved, -⟩ := Prod.mk.inj hresolved
      have hfirst : ∀ error, (resolve vars play.track .outside (path ++ "." ++ "play.track")
          s.work).1 = .error error → isLimitError error = false := by
        intro error herror
        rw [herror] at hresolved
        rw [← Except.ok.inj hresolved] at hlimit
        simpa [checkUpload, playError] using hlimit
      have hsame : (resolve vars play.track .outside (path ++ "." ++ "play.track") t.work).1 =
          (resolve vars play.track .outside (path ++ "." ++ "play.track") s.work).1 := by
        rcases h.work.resolves_or outside_live hfirst with hsame | ⟨error, herror, hover⟩
        · exact hsame
        · rw [htrack spec path play hpublish hplay error herror] at hover
          cases hover
      have hplayed : ∃ planned' t', publishPlay vars path (flavorError flavors flavorsPath path) play
          t = (.ok planned', t') ∧ t'.errors = t.errors ∧ AllSettled vars t'.work := by
        refine ⟨_, { t with work := (resolve vars play.track .outside (path ++ "." ++ "play.track")
          t.work).2 }, resolvePlanned_eq_ok.mpr ⟨resolved, ?_, hlimit, rfl⟩, rfl,
          h.work.settled'.resolves outside_live _ _⟩
        rw [resolveUpload_apply, hsame, Except.ok.inj hresolved]
      obtain ⟨planned', t', hplanned', herrors, hsettled⟩ := hplayed
      refine ⟨{ publish' with play := some planned' }, t', ?_, hahead.clean,
        herrors.trans h.clean', hahead.work.settled, hsettled, hahead.work.exhausted⟩
      exact (Run.bind_of_ok ((Run.bind_of_ok hplanned').trans rfl)).trans rfl

/-! ### All targets -/

/-- The second has lowered the uploads of the targets before it and nothing else, and trails the
first, or the first is past a limit and only targets without App Store Connect are left. -/
structure Publishing (vars : List (Text × Text)) (before rest : List EffectiveTarget)
    (s t : LowerState) : Prop where
  work : t.work = resolveUploads vars (before.flatMap EffectiveTarget.uploads) ⟨.fresh, []⟩
  related : OnTrail vars s t ∨ (Astray vars s t ∧
    before.any EffectiveTarget.usesAppStore = true ∧
    ∀ target ∈ rest, target.usesAppStoreConnect = false)

theorem Publishing.together {before rest : List EffectiveTarget} {s t : LowerState}
    (h : Publishing vars before rest s t) : Together vars s t :=
  h.related.elim (·.together) (·.1.together)

/-- A target that only the first lowers. -/
theorem Publishing.first {before rest : List EffectiveTarget} {target : EffectiveTarget}
    {flavors : List Text} {flavorsPath : Text} {publish next : PlanPublish} {s t s' : LowerState}
    (h : Publishing vars before (target :: rest) s t)
    (hrun : publishTarget vars flavors flavorsPath publish target s = (.ok next, s')) :
    Publishing vars before rest s' t := by
  have hahead : Ahead vars s (publishTarget vars flavors flavorsPath publish target s).2 :=
    publishTarget_ahead flavors flavorsPath publish target s
  rw [hrun] at hahead
  refine ⟨h.work, ?_⟩
  rcases h.related with htrail | ⟨hastray, hany, hrest⟩
  · exact .inl (hahead.trails t htrail)
  · exact .inr ⟨hahead.lost t hastray, hany, fun target h => hrest target (List.mem_cons_of_mem _ h)⟩

/-- A target that both lower. -/
theorem Publishing.both {before rest after : List EffectiveTarget} {target : EffectiveTarget}
    {flavors : List Text} {flavorsPath : Text} {publish next : PlanPublish}
    {s t s' : LowerState} (h : Publishing vars before (target :: rest) s t)
    (publish' : PlanPublish)
    (hrest : target.usesAppStore = true → ∀ later ∈ rest, later.usesAppStoreConnect = false)
    (hlimit : ¬ TrackOverLimit vars (before ++ target :: after))
    (hrun : publishTarget vars flavors flavorsPath publish target s = (.ok next, s')) :
    ∃ next' t', publishTarget vars flavors flavorsPath publish' target t = (.ok next', t') ∧
      Publishing vars (before ++ [target]) rest s' t' := by
  have hwork : ∀ {next' t'}, publishTarget vars flavors flavorsPath publish' target t =
      (.ok next', t') → t'.work =
        resolveUploads vars ((before ++ [target]).flatMap EffectiveTarget.uploads) ⟨.fresh, []⟩ := by
    intro next' t' hsecond
    rw [publishTarget_resolves hsecond]
    simp only [h.work, resolveUploads, List.flatMap_append, List.foldl_append,
      List.flatMap_singleton]
  rcases h.related with htrail | ⟨hastray, hany, hnone⟩
  · obtain ⟨next', t', hsecond, hrelated⟩ := publishTarget_both htrail hrun
    refine ⟨next', t', hsecond, hwork hsecond, hrelated.imp_right fun ⟨hastray, huses⟩ => ?_⟩
    exact ⟨hastray, by simp [huses], hrest huses⟩
  · obtain ⟨next', t', hsecond, hastray'⟩ := publishTarget_astray publish' hastray
      (hnone target List.mem_cons_self) (fun spec path play hpublish hplay error herror => by
        by_contra hover
        rw [h.work] at herror
        exact hlimit ⟨before, target, after, spec, path, play, error, rfl, hany, hpublish, hplay,
          herror, by simpa using hover⟩) hrun
    refine ⟨next', t', hsecond, hwork hsecond, .inr ⟨hastray', by simp [hany], ?_⟩⟩
    exact fun later hlater => hnone later (List.mem_cons_of_mem _ hlater)

/-- The uploads of some of the targets, after those of all. -/
theorem planPublish_both {keep : EffectiveTarget → Bool} {targets before : List EffectiveTarget}
    {flavors : List Text} {flavorsPath : Text} {publish next : PlanPublish}
    {s t s' : LowerState} (h : Publishing vars before targets s t) (publish' : PlanPublish)
    (horder : targets.Pairwise fun target later =>
      target.usesAppStore = true → later.usesAppStoreConnect = false)
    (hlimit : ¬ TrackOverLimit vars (before ++ targets.filter keep))
    (hrun : Run.foldEach (publishTarget vars flavors flavorsPath) publish targets s =
      (.ok next, s')) :
    ∃ next' t', Run.foldEach (publishTarget vars flavors flavorsPath) publish'
        (targets.filter keep) t = (.ok next', t') ∧ Together vars s' t' := by
  induction targets generalizing before publish publish' s t with
  | nil =>
    cases hrun
    exact ⟨publish', t, rfl, h.together⟩
  | cons target rest ih =>
    obtain ⟨next₁, s₁, h₁, hrest⟩ := Run.bind_eq_ok_iff.mp hrun
    obtain ⟨hlater, horder⟩ := List.pairwise_cons.mp horder
    cases hkeep : keep target with
    | false =>
      rw [List.filter_cons_of_neg (by simp [hkeep])] at hlimit ⊢
      exact ih (h.first h₁) publish' horder hlimit hrest
    | true =>
      rw [List.filter_cons_of_pos hkeep] at hlimit ⊢
      obtain ⟨next₁', t₁, h₁', hpublishing⟩ := h.both publish'
        (fun huses later hmem => hlater later hmem huses) hlimit h₁
      rw [List.append_cons] at hlimit
      obtain ⟨next', t', hrest', htogether⟩ := ih hpublishing next₁' horder hlimit hrest
      exact ⟨next', t', (Run.bind_of_ok h₁').trans hrest', htogether⟩

/-- A track over a limit ends the lowering. -/
theorem planPublish_not_ok {targets : List EffectiveTarget} (h : TrackOverLimit vars targets)
    {flavors : List Text} {flavorsPath : Text} {next : PlanPublish} {s' : LowerState} :
    planPublish vars flavors flavorsPath targets (LowerState.start .fresh) ≠ (.ok next, s') := by
  obtain ⟨before, target, after, spec, path, play, error, rfl, -, hpublish, hplay, hresolve,
    hover⟩ := h
  intro hrun
  rw [planPublish, Run.foldEach_append] at hrun
  obtain ⟨next₁, s₁, h₁, hrest⟩ := Run.bind_eq_ok_iff.mp hrun
  have hwork := planPublish_resolves before h₁
  obtain ⟨next₂, s₂, h₂, -⟩ := Run.bind_eq_ok_iff.mp hrest
  unfold publishTarget at h₂
  rw [hpublish] at h₂
  obtain ⟨_, s₃, h₃, -⟩ := Run.bind_eq_ok_iff.mp h₂
  rw [hplay] at h₃
  obtain ⟨planned, s₄, h₄, -⟩ := Run.bind_eq_ok_iff.mp h₃
  obtain ⟨resolved, hresolved, hlimit, -⟩ := resolvePlanned_eq_ok.mp h₄
  rw [resolveUpload_apply, hwork] at hresolved
  have herror : resolved = .error error := by
    rw [← Except.ok.inj (Prod.mk.inj hresolved).1]
    exact congrArg _ hresolve
  rw [herror] at hlimit
  simp [playError, hover] at hlimit

end

end OoreBuild
