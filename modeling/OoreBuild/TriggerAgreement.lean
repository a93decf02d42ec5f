import OoreBuild.Trigger

/-!
# Exported triggers against the trigger settings

An `on` written by `mapTriggers` reads its patterns trimmed, while `shouldTrigger` matches the
stored patterns as they are. So the `on` stands for the settings with their patterns trimmed and
their blank patterns dropped (`starts_withTrimmedPatterns`), except that it lets every tag
through as the pattern `*`. `agrees_iff` says exactly when that is what the settings themselves
start.
-/

namespace OoreBuild

open Text

/-- The settings with their patterns trimmed and their blank patterns dropped. -/
def TriggerConfig.withTrimmedPatterns (t : TriggerConfig) : TriggerConfig :=
  { t with
    branches := trimmed t.branches
    tags := trimmed t.tags
    paths := trimmed t.paths
    pathsIgnore := trimmed t.pathsIgnore }

/-- Trigger settings and an `on` start builds for the same pushes, pull requests and tags. -/
def Agrees (t : TriggerConfig) (on : OnSpec) : Prop :=
  ∀ r : Revision, r.fileEvent.isSome → t.starts r = on.toSpec.starts r

/-- The settings let every tag through, which `on` writes as the pattern `*`. -/
def TriggerConfig.LetsEveryTag (t : TriggerConfig) : Prop :=
  t.listed "tag_push" ∧ trimmed t.branches = [] ∧ trimmed t.tags = []

/-- The settings let some push or pull request through. -/
def TriggerConfig.LetsBranches (t : TriggerConfig) : Prop :=
  (t.listed "push" ∧ (trimmed t.branches = [] → trimmed t.tags = [])) ∨
    (t.listed "pull_request" ∧ trimmed t.branches = [] ∧ trimmed t.tags = [])

/-- The whitespace around the patterns of the settings, and their blank patterns, change nothing
that the listed events ask of them. -/
structure TriggerConfig.StandsTrimmed (t : TriggerConfig) : Prop where
  /-- Blank patterns alone do not filter branches. -/
  filters : t.listed "push" ∨ t.listed "pull_request" → trimmed t.branches = [] →
    trimmed t.tags = [] → t.branches = [] ∧ t.tags = []
  branches : t.listed "push" ∨ t.listed "pull_request" → ∀ branch,
    anyGlob t.branches branch = anyGlob (trimmed t.branches) branch
  tags : t.listed "tag_push" → ∀ tag, anyGlob t.tags tag = anyGlob (trimmed t.tags) tag
  /-- Blank patterns alone do not filter paths. -/
  pathFilters : t.LetsBranches → trimmed t.paths = [] → t.paths = [] ∧ t.pathsIgnore = []
  paths : t.LetsBranches → ∀ file,
    (anyPath t.paths file && !anyPath t.pathsIgnore file) = anyPath (trimmed t.paths) file

/-! ## Patterns -/

theorem trim_of_mem_trimmed {l : List Text} {p : Text} (h : p ∈ trimmed l) : trim p = p := by
  obtain ⟨hp, -⟩ := List.mem_filter.mp h
  obtain ⟨q, -, rfl⟩ := List.mem_map.mp hp
  exact trim_trim q

theorem any_trim_eq_anyGlob (l : List Text) (x : Text) :
    ((trimmed l).any fun p => globMatch (trim p) x) = anyGlob (trimmed l) x := by
  unfold anyGlob
  rw [Bool.eq_iff_iff, List.any_eq_true, List.any_eq_true]
  refine exists_congr fun p => and_congr_right fun hp => ?_
  rw [trim_of_mem_trimmed hp]

/-- No byte of a whitespace character is a wildcard or the letter `x`. -/
theorem utf8_whitespace {c : Char} (h : isWhitespace c) :
    ∀ b ∈ String.utf8EncodeChar c, b ≠ Glob.star ∧ b ≠ Glob.question ∧ b ≠ 120 := by
  have hn : c.toNat ∈ [9, 10, 11, 12, 13, 0x20, 0x85, 0xA0, 0x1680, 0x2000, 0x2001, 0x2002, 0x2003,
      0x2004, 0x2005, 0x2006, 0x2007, 0x2008, 0x2009, 0x200A, 0x2028, 0x2029, 0x202F, 0x205F,
      0x3000] := by
    simp only [isWhitespace, Bool.or_eq_true, Bool.and_eq_true, decide_eq_true_eq,
      beq_iff_eq] at h
    simp only [List.mem_cons, List.not_mem_nil, or_false]
    omega
  have hall : ∀ n ∈ [9, 10, 11, 12, 13, 0x20, 0x85, 0xA0, 0x1680, 0x2000, 0x2001, 0x2002, 0x2003,
      0x2004, 0x2005, 0x2006, 0x2007, 0x2008, 0x2009, 0x200A, 0x2028, 0x2029, 0x202F, 0x205F,
      0x3000], ∀ b ∈ String.utf8EncodeChar (Char.ofNat n),
        b ≠ Glob.star ∧ b ≠ Glob.question ∧ b ≠ 120 := by
    decide +kernel
  rw [← Char.ofNat_toNat c]
  exact hall c.toNat hn

/-- A blank pattern does not match `x`. -/
theorem globMatch_blank {p : Text} (h : trim p = []) : globMatch p "x" = false := by
  unfold globMatch Glob.wildcardMatch
  rw [show bytes ("x" : Text) = [120] by decide]
  generalize hf : Glob.matchFuel (bytes p) [120] = fuel
  cases fuel with
  | zero => rfl
  | succ fuel =>
    cases hb : bytes p with
    | nil => rfl
    | cons b rest =>
      have hmem : b ∈ bytes p := by rw [hb]; exact List.mem_cons_self
      obtain ⟨c, hc, hbc⟩ := List.mem_flatMap.mp hmem
      obtain ⟨hstar, hquestion, hx⟩ := utf8_whitespace (trim_eq_nil_iff.mp h c hc) b hbc
      simp [Glob.matchLoop, hstar, hquestion, hx]

theorem anyGlob_blank {l : List Text} (h : trimmed l = []) : anyGlob l "x" = false := by
  rw [anyGlob, List.any_eq_false]
  intro p hp
  have hblank : trim p = [] := by
    by_contra hne
    have : trim p ∈ trimmed l :=
      List.mem_filter.mpr ⟨List.mem_map_of_mem hp, by simpa using hne⟩
    rw [h] at this
    exact List.not_mem_nil this
  rw [globMatch_blank hblank]
  exact Bool.false_ne_true

/-! ## The decisions in closed form -/

/-- The ref part of `shouldTrigger`. -/
def TriggerConfig.refMatches (t : TriggerConfig) (branch tag : Option Text) : Bool :=
  (t.branches.isEmpty && t.tags.isEmpty) ||
    match tag with
    | some tag => anyGlob t.tags tag
    | none => branch.any (anyGlob t.branches)

theorem shouldTrigger_eq (t : TriggerConfig) (event : Text) (branch tag : Option Text) :
    t.shouldTrigger event branch tag =
      (t.listed (normalizeEvent event) && t.refMatches branch tag) := by
  unfold TriggerConfig.shouldTrigger TriggerConfig.listed TriggerConfig.refMatches
  cases t.events.isEmpty <;> cases t.events.any (fun e => normalizeEvent e == normalizeEvent event) <;>
    cases t.branches.isEmpty && t.tags.isEmpty <;> cases tag <;> cases branch <;> simp

theorem starts_eq (t : TriggerConfig) (r : Revision) :
    t.starts r = ((t.listed r.canonicalEvent && t.refMatches r.branch r.tag) &&
      (r.tag.isSome || (!t.hasPathFilters || t.pathsMatch r.changedFiles))) := by
  unfold TriggerConfig.starts
  rw [shouldTrigger_eq]
  rfl

theorem listed_withTrimmedPatterns (t : TriggerConfig) (event : Text) :
    t.withTrimmedPatterns.listed event = t.listed event := rfl

theorem normalizeEvent_tag_push : normalizeEvent "tag_push" = "tag_push" := by decide

/-- What a mapped `on` holds. -/
theorem mapTriggers_ok {t : TriggerConfig} {on : OnSpec} (h : mapTriggers t = .ok on) :
    trimmed t.pathsIgnore = [] ∧
      (t.listed "pull_request" → trimmed t.branches = []) ∧
      on.push = (if t.listed "push" && ((trimmed t.branches).isEmpty && (trimmed t.tags).isEmpty ||
        !(trimmed t.branches).isEmpty) then some (trimmed t.branches) else none) ∧
      on.pullRequest = (t.listed "pull_request" &&
        ((trimmed t.branches).isEmpty && (trimmed t.tags).isEmpty)) ∧
      on.tag = (if !t.listed "tag_push" then []
        else if (trimmed t.branches).isEmpty && (trimmed t.tags).isEmpty then [("*" : Text)]
        else trimmed t.tags) ∧
      on.paths = (if on.push.isSome || on.pullRequest then trimmed t.paths else []) := by
  unfold mapTriggers at h
  dsimp only at h
  split at h
  · cases h
  · rename_i hignore
    split at h
    · cases h
    · rename_i hpull
      cases h
      refine ⟨by simpa using hignore, fun hl => ?_, rfl, rfl, rfl, rfl⟩
      rw [hl] at hpull
      simpa using hpull

/-- The decision of an `on` about the changed files. -/
theorem pathsMatch_toSpec (t : TriggerConfig) (hignore : trimmed t.pathsIgnore = [])
    {spec : TriggerSpec} (hpaths : spec.paths = trimmed t.paths) (files : Option (List Text)) :
    (!t.withTrimmedPatterns.hasPathFilters || t.withTrimmedPatterns.pathsMatch files) =
      (!spec.hasPathFilters || spec.pathsMatch files) := by
  unfold TriggerConfig.hasPathFilters TriggerConfig.pathsMatch TriggerSpec.pathsMatch
    TriggerSpec.hasPathFilters TriggerConfig.withTrimmedPatterns
  rw [hpaths, hignore]
  cases hp : (trimmed t.paths).isEmpty <;> cases files <;> simp [anyPath]

/-- The paths of the `on` are those of the settings as soon as it has a push or a pull request. -/
theorem toSpec_paths {t : TriggerConfig} {on : OnSpec}
    (hpaths : on.paths = if on.push.isSome || on.pullRequest then trimmed t.paths else [])
    (h : on.push.isSome || on.pullRequest) : on.toSpec.paths = trimmed t.paths := by
  have hne : ¬(on.push.isNone && !on.pullRequest && on.tag.isEmpty) = true := by
    cases hp : on.push <;> simp_all
  unfold OnSpec.toSpec
  dsimp only
  rw [if_neg hne, hpaths, if_pos h]

theorem push_toSpec {t : TriggerConfig} {on : OnSpec} (h : mapTriggers t = .ok on) (branch : Text) :
    (on.toSpec.push.any fun push => push.matchesBranch (some branch)) =
      (t.listed "push" && t.withTrimmedPatterns.refMatches (some branch) none) := by
  obtain ⟨-, -, hpush, -, -, -⟩ := mapTriggers_ok h
  unfold OnSpec.toSpec TriggerConfig.refMatches TriggerConfig.withTrimmedPatterns
  rw [hpush]
  generalize t.listed "push" = listed
  have hany := any_trim_eq_anyGlob t.branches branch
  cases listed with
  | false => rfl
  | true =>
    cases hb : trimmed t.branches with
    | nil =>
      cases (trimmed t.tags).isEmpty <;> simp [BranchTrigger.matchesBranch, anyGlob]
    | cons first rest =>
      rw [hb] at hany
      simpa [BranchTrigger.matchesBranch] using hany

theorem pullRequest_toSpec {t : TriggerConfig} {on : OnSpec} (h : mapTriggers t = .ok on)
    (branch target : Option Text) :
    (on.toSpec.pullRequest.any fun pull => pull.matchesBranch target) =
      (t.listed "pull_request" && t.withTrimmedPatterns.refMatches branch none) := by
  obtain ⟨-, hpull, -, hpr, -, -⟩ := mapTriggers_ok h
  unfold OnSpec.toSpec TriggerConfig.refMatches TriggerConfig.withTrimmedPatterns
  rw [hpr]
  generalize t.listed "pull_request" = listed at hpull ⊢
  cases listed with
  | false => simp
  | true =>
    have hb := hpull rfl
    cases hte : (trimmed t.tags).isEmpty <;> cases branch <;>
      simp [hb, BranchTrigger.matchesBranch, anyGlob]

theorem tag_toSpec {t : TriggerConfig} {on : OnSpec} (h : mapTriggers t = .ok on)
    (hevery : ¬ t.LetsEveryTag) (branch : Option Text) (tag : Text) :
    (on.toSpec.tag.any fun pattern => globMatch (trim pattern) tag) =
      (t.listed "tag_push" && t.withTrimmedPatterns.refMatches branch (some tag)) := by
  obtain ⟨-, -, -, -, htag, -⟩ := mapTriggers_ok h
  unfold OnSpec.toSpec TriggerConfig.refMatches TriggerConfig.withTrimmedPatterns
  unfold TriggerConfig.LetsEveryTag at hevery
  dsimp only
  rw [htag]
  generalize t.listed "tag_push" = listed at hevery ⊢
  cases listed with
  | false => rfl
  | true =>
    have hboth : ((trimmed t.branches).isEmpty && (trimmed t.tags).isEmpty) = false := by
      by_contra hboth
      exact hevery ⟨rfl, by simpa using hboth⟩
    simp only [Bool.not_true, Bool.false_eq_true, if_false, hboth, Bool.true_and, Bool.false_or]
    exact any_trim_eq_anyGlob t.tags tag

/-- A revision that an `on` can match is a tag, a push or a pull request. -/
theorem fileEvent_cases {r : Revision} (hr : r.fileEvent.isSome) :
    (∃ tag, r.tag = some tag ∧ r.canonicalEvent = "tag_push" ∧ r.fileEvent = some (.tag tag)) ∨
      (∃ branch, r.tag = none ∧ r.branch = some branch ∧ r.canonicalEvent = "push" ∧
        r.fileEvent = some (.push branch)) ∨
      (r.tag = none ∧ r.canonicalEvent = "pull_request" ∧
        r.fileEvent = some (.pullRequest r.targetBranch)) := by
  cases hrt : r.tag with
  | some tag =>
    refine .inl ⟨tag, rfl, ?_, by simp [Revision.fileEvent, hrt]⟩
    rw [Revision.canonicalEvent, Revision.event, hrt]
    exact normalizeEvent_tag_push
  | none =>
    simp only [Revision.fileEvent, hrt] at hr ⊢
    by_cases hpe : r.canonicalEvent = "push"
    · rw [if_pos hpe] at hr ⊢
      cases hb : r.branch with
      | none => rw [hb] at hr; cases hr
      | some branch => exact .inr (.inl ⟨branch, trivial, rfl, hpe, rfl⟩)
    · rw [if_neg hpe] at hr ⊢
      by_cases hpr : r.canonicalEvent = "pull_request"
      · exact .inr (.inr ⟨trivial, hpr, if_pos hpr⟩)
      · rw [if_neg hpr] at hr
        cases hr

/-- The `on` starts what the settings with trimmed patterns start, unless it is asked about a tag
and lets every tag through. -/
theorem starts_withTrimmedPatterns {t : TriggerConfig} {on : OnSpec} (h : mapTriggers t = .ok on)
    {r : Revision} (hr : r.fileEvent.isSome) (hevery : r.tag.isSome → ¬ t.LetsEveryTag) :
    t.withTrimmedPatterns.starts r = on.toSpec.starts r := by
  obtain ⟨hignore, -, -, -, -, hpaths⟩ := mapTriggers_ok h
  -- the `on` has the paths of the settings wherever it matches the ref
  have hpathsMatch : on.push.isSome || on.pullRequest →
      (!t.withTrimmedPatterns.hasPathFilters ||
        t.withTrimmedPatterns.pathsMatch r.changedFiles) =
      (!on.toSpec.hasPathFilters || on.toSpec.pathsMatch r.changedFiles) := fun hon =>
    pathsMatch_toSpec t hignore (toSpec_paths hpaths hon) r.changedFiles
  rw [starts_eq, listed_withTrimmedPatterns]
  unfold TriggerSpec.starts
  obtain ⟨tag, hrt, hev, hfe⟩ | ⟨branch, hrt, hb, hev, hfe⟩ | ⟨hrt, hev, hfe⟩ := fileEvent_cases hr
  · rw [hev, hfe, hrt, ← tag_toSpec h (hevery (by simp [hrt]))]
    rfl
  · rw [hev, hfe, hrt, hb, ← push_toSpec h branch, Option.any_some, TriggerSpec.matchesRef]
    cases hm : on.toSpec.push.any fun push => push.matchesBranch (some branch) with
    | false => rfl
    | true =>
      have hsome : on.push.isSome := by
        cases hop : on.push with
        | none => simp [OnSpec.toSpec, hop] at hm
        | some branches => rfl
      simp only [Option.isSome_none, Bool.false_or, hpathsMatch (by rw [hsome]; rfl)]
  · rw [hev, hfe, hrt, ← pullRequest_toSpec h r.branch r.targetBranch, Option.any_some,
      TriggerSpec.matchesRef]
    cases hm : on.toSpec.pullRequest.any fun pull => pull.matchesBranch r.targetBranch with
    | false => rfl
    | true =>
      have hsome : on.pullRequest = true := by
        cases hop : on.pullRequest with
        | false => simp [OnSpec.toSpec, hop] at hm
        | true => rfl
      simp only [Option.isSome_none, Bool.false_or, hpathsMatch (by rw [hsome, Bool.or_true])]

/-! ## When the settings and the `on` agree -/

/-- A list of patterns that are not all blank is not empty. -/
theorem isEmpty_of_trimmed {l : List Text} (h : (trimmed l).isEmpty = false) :
    l.isEmpty = false := by
  cases l with
  | nil => cases h
  | cons first rest => rfl

theorem refMatches_branch_eq {t : TriggerConfig} (hs : t.StandsTrimmed)
    (hl : t.listed "push" ∨ t.listed "pull_request") (branch : Option Text) :
    t.refMatches branch none = t.withTrimmedPatterns.refMatches branch none := by
  have hany : branch.any (anyGlob t.branches) = branch.any (anyGlob (trimmed t.branches)) := by
    cases branch with
    | none => rfl
    | some branch => exact hs.branches hl branch
  unfold TriggerConfig.refMatches TriggerConfig.withTrimmedPatterns
  dsimp only
  rw [hany]
  cases hb : (trimmed t.branches).isEmpty with
  | false => rw [isEmpty_of_trimmed hb, Bool.false_and, Bool.false_and]
  | true =>
    cases ht : (trimmed t.tags).isEmpty with
    | false => rw [isEmpty_of_trimmed ht, Bool.and_false, Bool.and_false]
    | true =>
      obtain ⟨hb', ht'⟩ := hs.filters hl (by simpa using hb) (by simpa using ht)
      rw [hb', ht']
      rfl

theorem refMatches_tag_eq {t : TriggerConfig} (hs : t.StandsTrimmed) (hl : t.listed "tag_push")
    (hevery : ¬ t.LetsEveryTag) (branch : Option Text) (tag : Text) :
    t.refMatches branch (some tag) = t.withTrimmedPatterns.refMatches branch (some tag) := by
  have hboth : ((trimmed t.branches).isEmpty && (trimmed t.tags).isEmpty) = false := by
    by_contra hboth
    exact hevery ⟨hl, by simpa using hboth⟩
  have hraw : (t.branches.isEmpty && t.tags.isEmpty) = false := by
    rw [Bool.and_eq_false_iff] at hboth ⊢
    exact hboth.imp isEmpty_of_trimmed isEmpty_of_trimmed
  unfold TriggerConfig.refMatches TriggerConfig.withTrimmedPatterns
  dsimp only
  rw [hboth, hraw, hs.tags hl tag]

theorem pathsMatch_withTrimmedPatterns {t : TriggerConfig}
    (hfilters : trimmed t.paths = [] → t.paths = [] ∧ t.pathsIgnore = [])
    (hpaths : ∀ file, (anyPath t.paths file && !anyPath t.pathsIgnore file) =
      anyPath (trimmed t.paths) file)
    (hignore : trimmed t.pathsIgnore = []) (files : Option (List Text)) :
    (!t.hasPathFilters || t.pathsMatch files) =
      (!t.withTrimmedPatterns.hasPathFilters || t.withTrimmedPatterns.pathsMatch files) := by
  unfold TriggerConfig.hasPathFilters TriggerConfig.pathsMatch TriggerConfig.withTrimmedPatterns
  dsimp only
  rw [hignore]
  cases hp : (trimmed t.paths).isEmpty with
  | false =>
    cases files with
    | none => simp
    | some files =>
      simp only [isEmpty_of_trimmed hp, Bool.false_and, Bool.false_or, Bool.not_false, Bool.true_or,
        Bool.not_true, Bool.false_eq_true, if_false, hpaths]
      simp [anyPath]
  | true =>
    obtain ⟨hp', hi'⟩ := hfilters (by simpa using hp)
    simp [hp', hi']

/-- Where a push or a pull request is let through, the settings let branches through. -/
theorem letsBranches_of_refMatches {t : TriggerConfig} {on : OnSpec} (h : mapTriggers t = .ok on)
    {branch : Option Text} (hm : t.withTrimmedPatterns.refMatches branch none)
    (hl : t.listed "push" ∨ t.listed "pull_request") : t.LetsBranches := by
  obtain ⟨-, hpull, -, -, -, -⟩ := mapTriggers_ok h
  have hempty : trimmed t.branches = [] → trimmed t.tags = [] := by
    intro hb
    simp only [TriggerConfig.refMatches, TriggerConfig.withTrimmedPatterns, hb] at hm
    cases branch <;> simpa [anyGlob] using hm
  obtain hl | hl := hl
  · exact .inl ⟨hl, hempty⟩
  · exact .inr ⟨hl, hpull hl, hempty (hpull hl)⟩

/-- Settings that stand trimmed start what they start with their patterns trimmed. -/
theorem starts_of_standsTrimmed {t : TriggerConfig} {on : OnSpec} (h : mapTriggers t = .ok on)
    (hs : t.StandsTrimmed) (hevery : ¬ t.LetsEveryTag) {r : Revision} (hr : r.fileEvent.isSome) :
    t.starts r = t.withTrimmedPatterns.starts r := by
  obtain ⟨hignore, -, -, -, -, -⟩ := mapTriggers_ok h
  have hbranches : (t.listed "push" ∨ t.listed "pull_request") → r.tag = none →
      t.listed r.canonicalEvent → t.starts r = t.withTrimmedPatterns.starts r := by
    intro hl hrt hlisted
    rw [starts_eq, starts_eq, listed_withTrimmedPatterns, hlisted, hrt,
      refMatches_branch_eq hs hl r.branch]
    cases hm : t.withTrimmedPatterns.refMatches r.branch none with
    | false => rfl
    | true =>
      have hlets := letsBranches_of_refMatches h hm hl
      rw [pathsMatch_withTrimmedPatterns (hs.pathFilters hlets) (hs.paths hlets) hignore]
  cases hlisted : t.listed r.canonicalEvent with
  | false => rw [starts_eq, starts_eq, listed_withTrimmedPatterns, hlisted]; rfl
  | true =>
    obtain ⟨tag, hrt, hev, -⟩ | ⟨branch, hrt, -, hev, -⟩ | ⟨hrt, hev, -⟩ := fileEvent_cases hr
    · rw [starts_eq, starts_eq, listed_withTrimmedPatterns, hlisted, hrt,
        refMatches_tag_eq hs (hev ▸ hlisted) hevery]
      rfl
    · exact hbranches (.inl (hev ▸ hlisted)) hrt hlisted
    · exact hbranches (.inr (hev ▸ hlisted)) hrt hlisted

/-! The revisions that tell the settings from the `on`. -/

/-- A push to a branch. -/
def Revision.ofPush (branch : Text) (files : Option (List Text)) : Revision :=
  { eventType := "push", branch := some branch, tag := none, targetBranch := none,
    changedFiles := files }

/-- A pull request from a branch. -/
def Revision.ofPullRequest (source : Text) (files : Option (List Text)) : Revision :=
  { eventType := "pull_request", branch := some source, tag := none, targetBranch := none,
    changedFiles := files }

/-- A pushed tag. -/
def Revision.ofTag (tag : Text) : Revision :=
  { eventType := "push", branch := none, tag := some tag, targetBranch := none,
    changedFiles := none }

theorem canonicalEvent_ofPush (branch : Text) (files : Option (List Text)) :
    (Revision.ofPush branch files).canonicalEvent = "push" := by
  have : normalizeEvent "push" = "push" := by decide
  exact this

theorem canonicalEvent_ofPullRequest (source : Text) (files : Option (List Text)) :
    (Revision.ofPullRequest source files).canonicalEvent = "pull_request" := by
  have : normalizeEvent "pull_request" = "pull_request" := by decide
  exact this

theorem starts_ofPush (t : TriggerConfig) (branch : Text) (files : Option (List Text)) :
    t.starts (.ofPush branch files) = ((t.listed "push" && t.refMatches (some branch) none) &&
      (!t.hasPathFilters || t.pathsMatch files)) := by
  rw [starts_eq, canonicalEvent_ofPush]
  rfl

theorem starts_ofPullRequest (t : TriggerConfig) (source : Text) (files : Option (List Text)) :
    t.starts (.ofPullRequest source files) =
      ((t.listed "pull_request" && t.refMatches (some source) none) &&
        (!t.hasPathFilters || t.pathsMatch files)) := by
  rw [starts_eq, canonicalEvent_ofPullRequest]
  rfl

theorem starts_ofTag (t : TriggerConfig) (tag : Text) :
    t.starts (.ofTag tag) = (t.listed "tag_push" && t.refMatches none (some tag)) := by
  rw [starts_eq]
  exact Bool.and_true _

theorem fileEvent_ofPush (branch : Text) (files : Option (List Text)) :
    (Revision.ofPush branch files).fileEvent = some (.push branch) := by
  simp only [Revision.fileEvent, Revision.ofPush]
  exact if_pos (canonicalEvent_ofPush branch files)

theorem fileEvent_ofPullRequest (source : Text) (files : Option (List Text)) :
    (Revision.ofPullRequest source files).fileEvent = some (.pullRequest none) := by
  have hne : (Revision.ofPullRequest source files).canonicalEvent ≠ ("push" : Text) := by
    rw [canonicalEvent_ofPullRequest]
    decide
  simp only [Revision.fileEvent]
  exact (if_neg hne).trans (if_pos (canonicalEvent_ofPullRequest source files))

theorem hasPathFilters_none (t : TriggerConfig) :
    (!t.hasPathFilters || t.pathsMatch none) = true := by
  simp [TriggerConfig.pathsMatch]

section Necessary

variable {t : TriggerConfig} {on : OnSpec} (h : mapTriggers t = .ok on) (ha : Agrees t on)

include h ha

/-- Settings that let every tag through differ from the `on`: either they let `*x` through, which
the pattern `*` does not match, or they have only blank patterns and start nothing for `x`. -/
theorem not_letsEveryTag : ¬ t.LetsEveryTag := by
  rintro ⟨hl, hb, ht⟩
  obtain ⟨-, -, -, -, htag, -⟩ := mapTriggers_ok h
  have hstar : on.toSpec.tag = [("*" : Text)] := by
    change on.tag = _
    rw [htag, hl, hb, ht]
    rfl
  have hon (tag : Text) : on.toSpec.starts (.ofTag tag) = globMatch "*" tag := by
    unfold TriggerSpec.starts
    change ((on.toSpec.tag.any fun pattern => globMatch (trim pattern) tag) && true) = _
    rw [hstar]
    simp only [List.any_cons, List.any_nil, Bool.or_false, Bool.and_true]
    rfl
  have hag (tag : Text) : t.refMatches none (some tag) = globMatch "*" tag := by
    have := ha (.ofTag tag) rfl
    rwa [starts_ofTag, hl, hon] at this
  cases hraw : t.branches.isEmpty && t.tags.isEmpty with
  | true =>
    have := hag "*x"
    rw [TriggerConfig.refMatches, hraw, show globMatch "*" "*x" = false by decide] at this
    cases this
  | false =>
    have := hag "x"
    simp only [TriggerConfig.refMatches] at this
    rw [hraw, anyGlob_blank ht, show globMatch "*" "x" = true by decide] at this
    cases this

/-- Settings that agree with the `on` start what they start with their patterns trimmed. -/
theorem starts_eq_of_agrees {r : Revision} (hr : r.fileEvent.isSome) :
    t.starts r = t.withTrimmedPatterns.starts r :=
  (ha r hr).trans (starts_withTrimmedPatterns h hr fun _ => not_letsEveryTag h ha).symm

theorem refMatches_branch_of_agrees (hl : t.listed "push" ∨ t.listed "pull_request")
    (branch : Text) : t.refMatches (some branch) none =
      t.withTrimmedPatterns.refMatches (some branch) none := by
  obtain hl | hl := hl
  · have hfe := congrArg Option.isSome (fileEvent_ofPush branch none)
    have := starts_eq_of_agrees h ha hfe
    rwa [starts_ofPush, starts_ofPush, hasPathFilters_none, hasPathFilters_none,
      listed_withTrimmedPatterns, hl, Bool.and_true, Bool.and_true] at this
  · have hfe := congrArg Option.isSome (fileEvent_ofPullRequest branch none)
    have := starts_eq_of_agrees h ha hfe
    rwa [starts_ofPullRequest, starts_ofPullRequest, hasPathFilters_none, hasPathFilters_none,
      listed_withTrimmedPatterns, hl, Bool.and_true, Bool.and_true] at this

theorem filters_of_agrees (hl : t.listed "push" ∨ t.listed "pull_request")
    (hb : trimmed t.branches = []) (ht : trimmed t.tags = []) : t.branches = [] ∧ t.tags = [] := by
  have := refMatches_branch_of_agrees h ha hl "x"
  simp only [TriggerConfig.refMatches, TriggerConfig.withTrimmedPatterns] at this
  rw [hb, ht, Option.any_some, anyGlob_blank hb] at this
  simpa using this

theorem branches_of_agrees (hl : t.listed "push" ∨ t.listed "pull_request") (branch : Text) :
    anyGlob t.branches branch = anyGlob (trimmed t.branches) branch := by
  by_cases hboth : trimmed t.branches = [] ∧ trimmed t.tags = []
  · obtain ⟨hb, -⟩ := filters_of_agrees h ha hl hboth.1 hboth.2
    rw [hb]
    rfl
  · have hraw : ¬(t.branches = [] ∧ t.tags = []) := fun hraw => hboth (by simp [hraw, trimmed])
    have := refMatches_branch_of_agrees h ha hl branch
    simp only [TriggerConfig.refMatches, TriggerConfig.withTrimmedPatterns, Option.any_some,
      ← List.isEmpty_iff, ← Bool.and_eq_true, Bool.not_eq_true] at this hboth hraw
    rwa [hboth, hraw, Bool.false_or, Bool.false_or] at this

theorem tags_of_agrees (hl : t.listed "tag_push") (tag : Text) :
    anyGlob t.tags tag = anyGlob (trimmed t.tags) tag := by
  have hboth : ¬(trimmed t.branches = [] ∧ trimmed t.tags = []) :=
    fun hboth => not_letsEveryTag h ha ⟨hl, hboth⟩
  have hraw : ¬(t.branches = [] ∧ t.tags = []) := fun hraw => hboth (by simp [hraw, trimmed])
  have := starts_eq_of_agrees h ha (r := .ofTag tag) rfl
  rw [starts_ofTag, starts_ofTag, listed_withTrimmedPatterns, hl] at this
  simp only [TriggerConfig.refMatches, TriggerConfig.withTrimmedPatterns, Bool.true_and,
    ← List.isEmpty_iff, ← Bool.and_eq_true, Bool.not_eq_true] at this hboth hraw
  rwa [hboth, hraw, Bool.false_or, Bool.false_or] at this

/-- Settings that let branches through start a build for some branch, so what they ask of the
changed files can be seen. -/
theorem pathsMatch_of_agrees (hlets : t.LetsBranches) (files : Option (List Text)) :
    (!t.hasPathFilters || t.pathsMatch files) =
      (!t.withTrimmedPatterns.hasPathFilters || t.withTrimmedPatterns.pathsMatch files) := by
  have hl : t.listed "push" ∨ t.listed "pull_request" := hlets.imp And.left And.left
  obtain ⟨branch, hbranch⟩ : ∃ branch, t.withTrimmedPatterns.refMatches (some branch) none = true := by
    simp only [TriggerConfig.refMatches, TriggerConfig.withTrimmedPatterns, Option.any_some]
    cases hb : trimmed t.branches with
    | nil =>
      have ht : trimmed t.tags = [] := hlets.elim (fun hp => hp.2 hb) (fun hp => hp.2.2)
      exact ⟨[], by rw [ht]; rfl⟩
    | cons pattern rest =>
      refine ⟨pattern, ?_⟩
      simp [anyGlob, globMatch, Glob.wildcardMatch_self]
  have hraw : t.refMatches (some branch) none = true :=
    (refMatches_branch_of_agrees h ha hl branch).trans hbranch
  obtain hl | hl := hl
  · have hfe := congrArg Option.isSome (fileEvent_ofPush branch files)
    have := starts_eq_of_agrees h ha hfe
    rwa [starts_ofPush, starts_ofPush, listed_withTrimmedPatterns, hl, hraw, hbranch] at this
  · have hfe := congrArg Option.isSome (fileEvent_ofPullRequest branch files)
    have := starts_eq_of_agrees h ha hfe
    rwa [starts_ofPullRequest, starts_ofPullRequest, listed_withTrimmedPatterns, hl, hraw,
      hbranch] at this

theorem pathFilters_of_agrees (hlets : t.LetsBranches) (hp : trimmed t.paths = []) :
    t.paths = [] ∧ t.pathsIgnore = [] := by
  obtain ⟨hignore, -, -, -, -, -⟩ := mapTriggers_ok h
  have := pathsMatch_of_agrees h ha hlets (some [])
  simpa [TriggerConfig.hasPathFilters, TriggerConfig.pathsMatch,
    TriggerConfig.withTrimmedPatterns, hp, hignore] using this

theorem standsTrimmed_of_agrees : t.StandsTrimmed where
  filters := filters_of_agrees h ha
  branches := branches_of_agrees h ha
  tags := tags_of_agrees h ha
  pathFilters := pathFilters_of_agrees h ha
  paths hlets file := by
    obtain ⟨hignore, -, -, -, -, -⟩ := mapTriggers_ok h
    have hfile := pathsMatch_of_agrees h ha hlets (some [file])
    cases hp : (trimmed t.paths).isEmpty with
    | false =>
      simpa [TriggerConfig.hasPathFilters, TriggerConfig.pathsMatch,
        TriggerConfig.withTrimmedPatterns, hp, hignore, isEmpty_of_trimmed hp, anyPath] using hfile
    | true =>
      obtain ⟨hraw, -⟩ := pathFilters_of_agrees h ha hlets (by simpa using hp)
      rw [hraw]
      rfl

end Necessary

theorem agrees_iff {t : TriggerConfig} {on : OnSpec} (h : mapTriggers t = .ok on) :
    Agrees t on ↔ t.StandsTrimmed ∧ ¬ t.LetsEveryTag := by
  refine ⟨fun ha => ⟨standsTrimmed_of_agrees h ha, not_letsEveryTag h ha⟩, ?_⟩
  rintro ⟨hs, hevery⟩ r hr
  rw [starts_of_standsTrimmed h hs hevery hr]
  exact starts_withTrimmedPatterns h hr fun _ => hevery

/-! ## Settings read back from an `on` -/

/-- Settings that `unmapTriggers` writes itself differ from the `on` only where it lists the tag
pattern `*` and no branches: the settings then let every tag through. -/
def OnSpec.StarAsEveryTag (on : OnSpec) : Prop := on.tag = [("*" : Text)] ∧ on.push.getD [] = []

/-- When the settings that `unmapTriggers` returns trigger on what the `on` does. -/
def UnmapsExactly (on : OnSpec) (base : TriggerConfig) : Prop :=
  if mapTriggers base = .ok on then base.StandsTrimmed ∧ ¬ base.LetsEveryTag
  else ¬ on.StarAsEveryTag

/-- What `unmapTriggers` returns maps to the `on`. -/
theorem unmapTriggers_cases {on : OnSpec} {base c : TriggerConfig}
    (h : unmapTriggers on base = .ok c) : mapTriggers c = .ok on ∧
      ((mapTriggers base = .ok on ∧ c = base) ∨
        (mapTriggers base ≠ .ok on ∧ ∃ events branches tags,
          plainestTriggers on = .ok (events, branches, tags) ∧
          c = { events, branches, tags, paths := on.paths, pathsIgnore := [],
                schedules := base.schedules })) := by
  unfold unmapTriggers at h
  split at h
  · rename_i hbase
    cases h
    exact ⟨hbase, .inl ⟨hbase, rfl⟩⟩
  · rename_i hbase
    split at h
    · cases h
    · rename_i events branches tags hplain
      dsimp only at h
      split at h
      · rename_i hmaps
        cases h
        exact ⟨hmaps, .inr ⟨hbase, events, branches, tags, hplain, rfl⟩⟩
      · cases h

/-- The plainest settings list the branches and the tags of the `on`, or no tags where it has none
or lists no branches and the tag pattern `*`. -/
theorem plainestTriggers_ok {on : OnSpec} {events branches tags : List Text}
    (h : plainestTriggers on = .ok (events, branches, tags)) :
    branches = on.push.getD [] ∧ (tags = on.tag ∨ tags = []) ∧ (on.StarAsEveryTag → tags = []) := by
  unfold OnSpec.StarAsEveryTag
  unfold plainestTriggers at h
  dsimp only at h
  split at h
  · split at h
    · cases h
    · rename_i hpush
      split at h
      · cases h
      · cases h
        refine ⟨?_, .inr rfl, fun _ => rfl⟩
        cases hp : on.push <;> simp_all
  · split at h
    · rename_i first rest hpush
      split at h
      · rename_i htag
        cases h
        exact ⟨by rw [hpush]; rfl, .inr rfl, fun _ => rfl⟩
      · cases h
        refine ⟨by rw [hpush]; rfl, .inl rfl, fun hstar => ?_⟩
        simp [hpush] at hstar
    · rename_i hpush
      split at h
      · cases h
      · cases h
        exact ⟨by rw [hpush]; rfl, .inr rfl, fun _ => rfl⟩
    · rename_i hpush
      split at h
      · cases h
      · cases h
        refine ⟨by rw [hpush]; rfl, ?_, fun hstar => by simp [hstar.1]⟩
        split
        · exact .inr rfl
        · exact .inl rfl

/-- Settings whose patterns are trimmed stand trimmed. -/
theorem standsTrimmed_of_trimmed {t : TriggerConfig} (hb : trimmed t.branches = t.branches)
    (ht : trimmed t.tags = t.tags) (hp : trimmed t.paths = t.paths) (hi : t.pathsIgnore = []) :
    t.StandsTrimmed where
  filters _ hb' ht' := ⟨hb ▸ hb', ht ▸ ht'⟩
  branches _ branch := by rw [hb]
  tags _ tag := by rw [ht]
  pathFilters _ hp' := ⟨hp ▸ hp', hi⟩
  paths _ file := by rw [hp, hi]; exact Bool.and_true _

theorem agrees_unmapTriggers_iff {on : OnSpec} {base c : TriggerConfig}
    (h : unmapTriggers on base = .ok c) : Agrees c on ↔ UnmapsExactly on base := by
  obtain ⟨hmaps, ⟨hbase, rfl⟩ | ⟨hbase, events, branches, tags, hplain, hc⟩⟩ := unmapTriggers_cases h
  · rw [agrees_iff hmaps, UnmapsExactly, if_pos hbase]
  · obtain ⟨-, -, hpush, -, htag, hpaths⟩ := mapTriggers_ok hmaps
    obtain ⟨hbranches, htags, hstar⟩ := plainestTriggers_ok hplain
    have hcb : c.branches = branches := by rw [hc]
    have hct : c.tags = tags := by rw [hc]
    have hcp : c.paths = on.paths := by rw [hc]
    -- the lists come from the `on`, which the settings map to again with trimmed lists
    have hb : trimmed c.branches = c.branches := by
      cases hop : on.push with
      | none =>
        rw [hcb, hbranches, hop]
        rfl
      | some patterns =>
        rw [hop] at hpush
        have : some patterns = some (trimmed c.branches) := by
          split at hpush
          · exact hpush
          · cases hpush
        rw [hcb, hbranches, hop] at this ⊢
        exact (Option.some.inj this).symm
    have ht : trimmed c.tags = c.tags := by
      rw [hct] at htag ⊢
      obtain rfl | rfl := htags
      · split at htag
        · rw [htag]
          rfl
        · split at htag
          · rw [htag]
            decide
          · exact htag.symm
      · rfl
    have hp : trimmed c.paths = c.paths := by
      rw [hcp] at hpaths ⊢
      split at hpaths
      · exact hpaths.symm
      · rw [hpaths]
        rfl
    have hs : c.StandsTrimmed := standsTrimmed_of_trimmed hb ht hp (by rw [hc])
    have hevery : c.LetsEveryTag ↔ on.StarAsEveryTag := by
      constructor
      · rintro ⟨hl, hb', ht'⟩
        refine ⟨by rw [htag, hl, hb', ht']; rfl, ?_⟩
        rw [← hbranches, ← hcb, ← hb, hb']
      · intro hst
        have hl : c.listed "tag_push" = true := by
          by_contra hl
          rw [hst.1, Bool.eq_false_of_not_eq_true hl] at htag
          cases htag
        exact ⟨hl, by rw [hb, hcb, hbranches, hst.2], by rw [ht, hct, hstar hst]⟩
    rw [agrees_iff hmaps, UnmapsExactly, if_neg hbase, hevery]
    exact and_iff_right hs

/-- An `on` written for trigger settings, and trigger settings read from an `on`, start builds for
the same webhooks exactly when the patterns stand trimmed and no `*` stands for every tag. -/
theorem triggers_agree_iff (t base c : TriggerConfig) (on : OnSpec) :
    (mapTriggers t = .ok on → (Agrees t on ↔ t.StandsTrimmed ∧ ¬ t.LetsEveryTag)) ∧
      (unmapTriggers on base = .ok c → (Agrees c on ↔ UnmapsExactly on base)) :=
  ⟨fun h => agrees_iff h, fun h => agrees_unmapTriggers_iff h⟩

/-- Settings that start builds for pushes to a branch. -/
def pushTo (branch : Text) : TriggerConfig :=
  { events := [("push" : Text)], branches := [branch], tags := [], paths := [], pathsIgnore := [],
    schedules := [] }

/-- The `on` of a push to a branch. -/
def onPushTo (branch : Text) : OnSpec :=
  { push := some [branch], pullRequest := false, tag := [], paths := [] }

theorem triggers_agree_iff_main :
    mapTriggers (pushTo "main") = .ok (onPushTo "main") ∧ Agrees (pushTo "main") (onPushTo "main") := by
  have h : mapTriggers (pushTo "main") = .ok (onPushTo "main") := by decide
  refine ⟨h, ((triggers_agree_iff _ (pushTo "main") (pushTo "main") _).1 h).2 ⟨?_, ?_⟩⟩
  · exact standsTrimmed_of_trimmed (by decide) rfl rfl rfl
  · rintro ⟨hl, -, -⟩
    exact absurd hl (by decide)

/-- A branch listed with a leading space is matched as written by the settings and trimmed by
the `on`. -/
theorem triggers_disagree_untrimmed :
    mapTriggers (pushTo " main") = .ok (onPushTo "main") ∧
      (pushTo " main").starts (.ofPush "main" none) = false ∧
      (onPushTo "main").toSpec.starts (.ofPush "main" none) = true ∧
      ¬ Agrees (pushTo " main") (onPushTo "main") := by
  have hc : (pushTo " main").starts (.ofPush "main" none) = false := by decide
  have hon : (onPushTo "main").toSpec.starts (.ofPush "main" none) = true := by decide
  refine ⟨by decide, hc, hon, fun ha => ?_⟩
  have := ha (.ofPush "main" none) (by decide)
  rw [hc, hon] at this
  cases this

end OoreBuild
