import OoreBuild.Lib.Text

/-!
# How the runner recognises build commands

A Flutter or an iOS build is recognised by the words of the command, wherever they stand; an Android
build by how the command begins. A command that only the words give away is built and not signed.
`recognisersAgree_iff` says when the recognisers do agree, and when that is enough for every Android
artifact to get the managed signature.
-/

namespace OoreBuild

open Text

/-! ## Recognisers -/

/-- The words occur one after the other. -/
def hasWords (command : Text) (words : List Text) : Bool :=
  decide (words <:+: splitWhitespace command)

def isFlutterBuildCommand (command : Text) : Bool :=
  hasWords command ["flutter".toList, "build".toList]

def isIosFlutterBuildCommand (command : Text) : Bool :=
  hasWords command ["flutter".toList, "build".toList, "ios".toList] ||
    hasWords command ["flutter".toList, "build".toList, "ipa".toList]

def isAndroidFlutterBuildCommand (command : Text) : Bool :=
  let trimmed := trimStart command
  startsWith trimmed "flutter build apk" || startsWith trimmed "flutter build appbundle"

inductive AndroidSigningBuildType where
  | debug
  | release
  deriving DecidableEq, Repr

def androidSigningVariantForCommand (command : Text) : Option AndroidSigningBuildType :=
  if !isAndroidFlutterBuildCommand command then none
  else if contains command "--debug" then some .debug
  else some .release

def mixedVariants : Text :=
  ("mixed Android build variants detected in one build (debug and release). " ++
    "Use one variant per pipeline run.").toList

/-- The loop over the commands, from the variant seen so far. -/
def determineVariantFrom :
    Option AndroidSigningBuildType → List Text → Except Text (Option AndroidSigningBuildType)
  | current, [] => .ok current
  | current, command :: rest =>
    match androidSigningVariantForCommand command, current with
    | none, _ => determineVariantFrom current rest
    | some variant, none => determineVariantFrom (some variant) rest
    | some variant, some existing =>
      if existing = variant then determineVariantFrom current rest else .error mixedVariants

def determineAndroidSigningVariant (buildCommands : List Text) :
    Except Text (Option AndroidSigningBuildType) := determineVariantFrom none buildCommands

inductive AndroidArtifact where
  | apk
  | aab
  deriving DecidableEq, Repr

def androidArtifactExtension (command : Text) : Option AndroidArtifact :=
  if !isAndroidFlutterBuildCommand command then none
  else if (splitWhitespace command).any (· = "appbundle".toList) then some .aab
  else some .apk

/-! ## Signing -/

/-- The managed profiles that the server has for the build. -/
structure RunnerAndroidSigningResponse (Profile : Type) where
  debug : Option Profile
  release : Option Profile

variable {Profile : Type}

def selectRunnerSigningProfile (response : RunnerAndroidSigningResponse Profile) :
    AndroidSigningBuildType → Option Profile
  | .debug => response.debug
  | .release => response.release

/-- The profile that the build signs with, loaded before its first step. -/
def signingInputs (response : RunnerAndroidSigningResponse Profile) (buildCommands : List Text) :
    Except Text (Option Profile) :=
  match determineAndroidSigningVariant buildCommands with
  | .error e => .error e
  | .ok none => .ok none
  | .ok (some variant) => .ok (selectRunnerSigningProfile response variant)

/-- The kind of artifact that the `android-sign` step after a successful build command checks and
signs, among all that the workspace holds then. -/
def androidSignStep (inputs : Option Profile) (command : Text) : Option AndroidArtifact :=
  if inputs.isSome then androidArtifactExtension command else none

/-! ## What the recognisers owe each other -/

/-- The Flutter target of a kind of artifact. -/
def AndroidArtifact.target : AndroidArtifact → Text
  | apk => "apk"
  | aab => "appbundle"

/-- `flutter build` of the target occurs as consecutive words. -/
def Builds (command : Text) (artifact : AndroidArtifact) : Prop :=
  hasWords command ["flutter".toList, "build".toList, artifact.target] = true

theorem hasWords_of_append {command : Text} {words rest : List Text}
    (h : hasWords command (words ++ rest) = true) : hasWords command words = true :=
  decide_eq_true ((List.prefix_append words rest).isInfix.trans (of_decide_eq_true h))

/-- A command that builds an Android artifact is a Flutter build. -/
theorem Builds.isFlutterBuildCommand {command : Text} {artifact : AndroidArtifact}
    (h : Builds command artifact) : isFlutterBuildCommand command = true := by
  apply hasWords_of_append
  exact h

/-- So is one that builds an iOS app. -/
theorem isFlutterBuildCommand_of_ios {command : Text}
    (h : isIosFlutterBuildCommand command = true) : isFlutterBuildCommand command = true := by
  rcases Bool.or_eq_true_iff.mp h with hios | hipa
  · apply hasWords_of_append
    exact hios
  · apply hasWords_of_append
    exact hipa

/-- The variant a command asks for. -/
def variantOf (command : Text) : AndroidSigningBuildType :=
  if contains command "--debug" then .debug else .release

/-- The recognisers agree on the commands: each Android build is recognised, none of its artifacts
is left unsigned by a build that has a managed profile for it, and two variants are an error. -/
structure RecognisersAgree (buildCommands : List Text) : Prop where
  recognised : ∀ command ∈ buildCommands, ∀ artifact, Builds command artifact →
    (androidSigningVariantForCommand command).isSome = true ∧
      (androidArtifactExtension command).isSome = true
  signed : ∀ (Profile : Type) (response : RunnerAndroidSigningResponse Profile)
    (inputs : Option Profile), signingInputs response buildCommands = .ok inputs →
    ∀ before command after artifact, buildCommands = before ++ command :: after →
      Builds command artifact →
      (selectRunnerSigningProfile response (variantOf command)).isSome = true →
      ∃ later ∈ command :: after, androidSignStep inputs later = some artifact
  mixed : ∀ first ∈ buildCommands, ∀ second ∈ buildCommands, ∀ artifact artifact',
    Builds first artifact → Builds second artifact' → variantOf first ≠ variantOf second →
    determineAndroidSigningVariant buildCommands = .error mixedVariants

/-- After leading whitespace the command begins with `flutter build apk` or
`flutter build appbundle`. -/
def BeginsWithBuild (command : Text) : Prop :=
  "flutter build apk".toList <+: command.dropWhile isWhitespace ∨
    "flutter build appbundle".toList <+: command.dropWhile isWhitespace

/-- Commands that begin with an Android build ask for both variants. -/
def Mixed (buildCommands : List Text) : Prop :=
  ∃ first ∈ buildCommands, ∃ second ∈ buildCommands, BeginsWithBuild first ∧
    BeginsWithBuild second ∧ variantOf first = .debug ∧ variantOf second = .release

/-- From each command that builds an APK on, some command begins with an Android build and does not
name the app bundle. -/
def ApksCovered (buildCommands : List Text) : Prop :=
  ∀ before command after, buildCommands = before ++ command :: after → Builds command .apk →
    ∃ later ∈ command :: after, BeginsWithBuild later ∧
      "appbundle".toList ∉ splitWhitespace later

/-! ## The recognisers on one command -/

section Command

variable {command : Text}

theorem isAndroidFlutterBuildCommand_iff :
    isAndroidFlutterBuildCommand command = true ↔ BeginsWithBuild command := by
  have hstarts : ∀ t needle : Text, startsWith t needle = true ↔ needle <+: t := by
    intro t needle
    unfold startsWith
    rw [Option.isSome_iff_exists]
    simp only [stripPrefix_eq_some_iff]
    exact ⟨fun ⟨rest, h⟩ => ⟨rest, h.symm⟩, fun ⟨rest, h⟩ => ⟨rest, h.symm⟩⟩
  unfold isAndroidFlutterBuildCommand BeginsWithBuild
  dsimp only
  rw [Bool.or_eq_true, hstarts, hstarts]
  rfl

theorem androidSigningVariantForCommand_eq :
    androidSigningVariantForCommand command =
      if isAndroidFlutterBuildCommand command then some (variantOf command) else none := by
  unfold androidSigningVariantForCommand variantOf
  cases isAndroidFlutterBuildCommand command with
  | false => rfl
  | true =>
    simp only [Bool.not_true, Bool.false_eq_true, if_false, if_true]
    split <;> rfl

theorem androidArtifactExtension_eq_apk :
    androidArtifactExtension command = some .apk ↔
      BeginsWithBuild command ∧ "appbundle".toList ∉ splitWhitespace command := by
  have hword : (splitWhitespace command).any (· = "appbundle".toList) = true ↔
      "appbundle".toList ∈ splitWhitespace command := by
    rw [List.any_eq_true]
    constructor
    · rintro ⟨word, hword, heq⟩
      exact of_decide_eq_true heq ▸ hword
    · exact fun h => ⟨_, h, decide_eq_true rfl⟩
  rw [← isAndroidFlutterBuildCommand_iff, ← hword]
  unfold androidArtifactExtension
  generalize (splitWhitespace command).any (· = "appbundle".toList) = word
  generalize isAndroidFlutterBuildCommand command = recognised
  revert word recognised
  decide

theorem androidArtifactExtension_eq_aab (h : BeginsWithBuild command)
    (hbuilds : Builds command .aab) : androidArtifactExtension command = some .aab := by
  have hword : "appbundle".toList ∈ splitWhitespace command := by
    have hinfix : ["flutter".toList, "build".toList, "appbundle".toList] <:+:
        splitWhitespace command := of_decide_eq_true hbuilds
    exact hinfix.subset (by simp)
  rw [← isAndroidFlutterBuildCommand_iff] at h
  unfold androidArtifactExtension
  rw [h, Bool.not_true, if_neg Bool.false_ne_true, if_pos]
  rw [List.any_eq_true]
  exact ⟨_, hword, decide_eq_true rfl⟩

theorem recognised_of_begins (h : BeginsWithBuild command) :
    (androidSigningVariantForCommand command).isSome = true ∧
      (androidArtifactExtension command).isSome = true := by
  rw [← isAndroidFlutterBuildCommand_iff] at h
  constructor
  · rw [androidSigningVariantForCommand_eq, if_pos h]
    rfl
  · unfold androidArtifactExtension
    rw [h, Bool.not_true, if_neg Bool.false_ne_true]
    split <;> rfl

end Command

/-! ## The variant of a build -/

/-- What the loop makes of the variants that it meets. -/
def commonVariant : List AndroidSigningBuildType → Except Text (Option AndroidSigningBuildType)
  | [] => .ok none
  | variant :: rest =>
    if ∀ other ∈ rest, other = variant then .ok (some variant) else .error mixedVariants

theorem determineVariantFrom_eq (current : Option AndroidSigningBuildType) (commands : List Text) :
    determineVariantFrom current commands =
      commonVariant (current.toList ++ commands.filterMap androidSigningVariantForCommand) := by
  induction commands generalizing current with
  | nil =>
    cases current with
    | none => rfl
    | some variant => rfl
  | cons command rest ih =>
    unfold determineVariantFrom
    cases hvariant : androidSigningVariantForCommand command with
    | none =>
      rw [List.filterMap_cons_none hvariant]
      exact ih current
    | some variant =>
      rw [List.filterMap_cons_some hvariant]
      cases current with
      | none => exact ih (some variant)
      | some existing =>
        dsimp only
        by_cases hsame : existing = variant
        · rw [if_pos hsame, ih, ← hsame, Option.toList_some, List.singleton_append,
            List.singleton_append]
          unfold commonVariant
          simp only [List.forall_mem_cons, true_and]
        · rw [if_neg hsame]
          symm
          exact if_neg fun hall => hsame (hall variant List.mem_cons_self).symm

section Variant

variable {commands : List Text}

theorem mem_variants_iff {variant : AndroidSigningBuildType} :
    variant ∈ commands.filterMap androidSigningVariantForCommand ↔
      ∃ command ∈ commands, BeginsWithBuild command ∧ variantOf command = variant := by
  rw [List.mem_filterMap]
  simp only [androidSigningVariantForCommand_eq, ← isAndroidFlutterBuildCommand_iff,
    Option.ite_none_right_eq_some, Option.some.injEq]

/-- Both variants among the commands are an error. -/
theorem determine_of_mixed (h : Mixed commands) :
    determineAndroidSigningVariant commands = .error mixedVariants := by
  obtain ⟨first, hfirst, second, hsecond, hbegins, hbegins', hdebug, hrelease⟩ := h
  have hone := mem_variants_iff.mpr ⟨first, hfirst, hbegins, hdebug⟩
  have htwo := mem_variants_iff.mpr ⟨second, hsecond, hbegins', hrelease⟩
  unfold determineAndroidSigningVariant
  rw [determineVariantFrom_eq, Option.toList_none, List.nil_append]
  generalize commands.filterMap androidSigningVariantForCommand = variants at hone htwo
  cases variants with
  | nil => cases hone
  | cons variant rest =>
    refine if_neg fun hall => ?_
    have hsame : ∀ other ∈ variant :: rest, other = variant := by
      intro other hother
      rcases List.mem_cons.mp hother with rfl | hrest
      · rfl
      · exact hall other hrest
    have hclash := (hsame _ hone).trans (hsame _ htwo).symm
    cases hclash

/-- Without both variants, the build takes that of every command. -/
theorem determine_of_not_mixed (h : ¬ Mixed commands) {command : Text} (hmem : command ∈ commands)
    (hbegins : BeginsWithBuild command) :
    determineAndroidSigningVariant commands = .ok (some (variantOf command)) := by
  have hin := mem_variants_iff.mpr ⟨command, hmem, hbegins, rfl⟩
  have hsame : ∀ variant ∈ commands.filterMap androidSigningVariantForCommand,
      variant = variantOf command := by
    intro variant hvariant
    obtain ⟨other, hother, hbegins', rfl⟩ := mem_variants_iff.mp hvariant
    cases hone : variantOf other <;> cases htwo : variantOf command
    · rfl
    · exact absurd ⟨other, hother, command, hmem, hbegins', hbegins, hone, htwo⟩ h
    · exact absurd ⟨command, hmem, other, hother, hbegins, hbegins', htwo, hone⟩ h
    · rfl
  unfold determineAndroidSigningVariant
  rw [determineVariantFrom_eq, Option.toList_none, List.nil_append]
  generalize commands.filterMap androidSigningVariantForCommand = variants at hin hsame
  cases variants with
  | nil => cases hin
  | cons variant rest =>
    rw [← hsame variant List.mem_cons_self]
    refine if_pos fun other hother => ?_
    rw [hsame other (List.mem_cons_of_mem _ hother), hsame variant List.mem_cons_self]

theorem mixed_of_error (h : determineAndroidSigningVariant commands = .error mixedVariants) :
    Mixed commands := by
  by_contra hmixed
  cases hvariants : commands.filterMap androidSigningVariantForCommand with
  | nil =>
    unfold determineAndroidSigningVariant at h
    rw [determineVariantFrom_eq, Option.toList_none, hvariants] at h
    cases h
  | cons variant rest =>
    obtain ⟨command, hmem, hbegins, -⟩ :=
      mem_variants_iff.mp (hvariants ▸ List.mem_cons_self : variant ∈ _)
    rw [determine_of_not_mixed hmixed hmem hbegins] at h
    cases h

theorem exists_ok_of_not_mixed (h : ¬ Mixed commands) :
    ∃ variant, determineAndroidSigningVariant commands = .ok variant := by
  cases hvariant : determineAndroidSigningVariant commands with
  | ok variant => exact ⟨variant, rfl⟩
  | error message =>
    refine absurd (mixed_of_error ?_) h
    unfold determineAndroidSigningVariant at hvariant ⊢
    rw [determineVariantFrom_eq] at hvariant ⊢
    unfold commonVariant at hvariant ⊢
    split at hvariant
    · cases hvariant
    · split at hvariant
      · cases hvariant
      · rename_i hall
        rw [if_neg hall]

end Variant

/-- The recognisers agree exactly when every command with an Android build begins with one, and,
unless the build is refused for its two variants, a command that signs APKs comes with or after
each one that builds them. -/
theorem recognisersAgree_iff (buildCommands : List Text) : RecognisersAgree buildCommands ↔
    (∀ command ∈ buildCommands, ∀ artifact, Builds command artifact → BeginsWithBuild command) ∧
      (Mixed buildCommands ∨ ApksCovered buildCommands) := by
  constructor
  · intro h
    refine ⟨fun command hmem artifact hbuilds => ?_, ?_⟩
    · have hsome := (h.recognised command hmem artifact hbuilds).1
      rw [androidSigningVariantForCommand_eq] at hsome
      rw [← isAndroidFlutterBuildCommand_iff]
      by_contra hnot
      rw [if_neg hnot] at hsome
      cases hsome
    · by_cases hmixed : Mixed buildCommands
      · exact .inl hmixed
      · refine .inr fun before command after hsplit hbuilds => ?_
        obtain ⟨variant, hvariant⟩ := exists_ok_of_not_mixed hmixed
        let response : RunnerAndroidSigningResponse Unit := ⟨some (), some ()⟩
        obtain ⟨inputs, hinputs⟩ : ∃ inputs, signingInputs response buildCommands = .ok inputs := by
          unfold signingInputs
          rw [hvariant]
          cases variant <;> exact ⟨_, rfl⟩
        obtain ⟨later, hlater, hsigned⟩ := h.signed Unit response inputs hinputs before command
          after .apk hsplit hbuilds (by cases variantOf command <;> rfl)
        unfold androidSignStep at hsigned
        split at hsigned
        · exact ⟨later, hlater, androidArtifactExtension_eq_apk.mp hsigned⟩
        · cases hsigned
  · rintro ⟨hbegins, hcovered⟩
    refine ⟨fun command hmem artifact hbuilds =>
      recognised_of_begins (hbegins command hmem artifact hbuilds), ?_, ?_⟩
    · intro Profile response inputs hinputs before command after artifact hsplit hbuilds hprofile
      have hmem : command ∈ buildCommands := by
        rw [hsplit]
        exact List.mem_append_right _ List.mem_cons_self
      have hbegin := hbegins command hmem artifact hbuilds
      have hmixed : ¬ Mixed buildCommands := by
        intro hmixed
        unfold signingInputs at hinputs
        rw [determine_of_mixed hmixed] at hinputs
        cases hinputs
      have hsome : inputs.isSome = true := by
        unfold signingInputs at hinputs
        rw [determine_of_not_mixed hmixed hmem hbegin] at hinputs
        cases hinputs
        exact hprofile
      unfold androidSignStep
      simp only [hsome, if_true]
      cases artifact with
      | apk =>
        obtain ⟨later, hlater, hsigns⟩ :=
          hcovered.resolve_left hmixed before command after hsplit hbuilds
        exact ⟨later, hlater, androidArtifactExtension_eq_apk.mpr hsigns⟩
      | aab => exact ⟨command, List.mem_cons_self, androidArtifactExtension_eq_aab hbegin hbuilds⟩
    · intro first hfirst second hsecond artifact artifact' hbuilds hbuilds' hne
      have hbegin := hbegins first hfirst artifact hbuilds
      have hbegin' := hbegins second hsecond artifact' hbuilds'
      apply determine_of_mixed
      cases hone : variantOf first <;> cases htwo : variantOf second
      · exact absurd (hone.trans htwo.symm) hne
      · exact ⟨first, hfirst, second, hsecond, hbegin, hbegin', hone, htwo⟩
      · exact ⟨second, hsecond, first, hfirst, hbegin', hbegin, htwo, hone⟩
      · exact absurd (hone.trans htwo.symm) hne

/-- A command that changes the directory first is built and not signed. -/
theorem not_recognisersAgree_changedDirectory :
    ¬ RecognisersAgree ["cd app && flutter build apk --release".toList] := by
  intro h
  have hbuilds : Builds "cd app && flutter build apk --release".toList .apk := by
    unfold Builds
    decide
  have hrecognised := (h.recognised _ List.mem_cons_self .apk hbuilds).1
  revert hrecognised
  decide

end OoreBuild
