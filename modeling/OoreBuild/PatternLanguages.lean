import OoreBuild.Lib.GlobLanguage
import OoreBuild.Trigger

/-!
# What the patterns describe

Branch, tag and file patterns are matched byte by byte, where `*` stands for any bytes and `?` for
one, and a pattern with `/` segment by segment, where `**` stands for any number of segments. Both
matchers compare the bytes before they look for a `*`, so a `*` of the pattern that meets a `*` of
the name takes only that.
-/

namespace OoreBuild

open Text

/-- The matcher for branches and tags. -/
def globMatchInner (pattern value : List UInt8) : Bool := Glob.wildcardMatch pattern value

/-- The matcher for a segment of a path. -/
def segmentMatches (pattern value : List UInt8) : Bool := Glob.wildcardMatch pattern value

/-- A matcher's loop ends with its answer, which is whether the pattern describes the value. -/
def Decides (matcher : List UInt8 → List UInt8 → Bool) (pattern value : List UInt8) : Prop :=
  (∃ turns, Glob.answerWithin turns (pattern, value, none) = some (matcher pattern value)) ∧
    (matcher pattern value = true ↔ value ∈ Glob.language pattern)

/-- The path's segments can be split among the pattern's. -/
def PathDescribed (pattern path : Text) : Prop :=
  Glob.Splits ("**" : Text) (fun segment name => segmentMatches (bytes segment) (bytes name))
    (split (· = '/') (trim pattern)) (split (· = '/') path)

theorem answerWithin_wildcardMatch (pattern value : List UInt8) :
    ∃ turns, Glob.answerWithin turns (pattern, value, none) =
      some (Glob.wildcardMatch pattern value) := by
  obtain ⟨answer, hanswer⟩ :=
    Option.isSome_iff_exists.mp (Glob.answerWithin_matchFuel pattern value)
  have heq := Glob.matchLoop_eq (Glob.matchFuel pattern value) (pattern, value, none)
  rw [hanswer] at heq
  refine ⟨_, hanswer.trans ?_⟩
  rw [Glob.wildcardMatch, heq]
  rfl

theorem artifactPatternMatches_iff {pattern path : Text} (h : '/' ∈ pattern) :
    artifactPatternMatches pattern path = true ↔ PathDescribed pattern path := by
  have htrim : '/' ∈ trim pattern := by
    obtain ⟨before, after, hbefore, hafter, heq⟩ := exists_trim pattern
    rw [heq] at h
    rcases List.mem_append.mp h with h | h
    · rcases List.mem_append.mp h with h | h
      · exact absurd (hbefore _ h) (by decide)
      · exact h
    · exact absurd (hafter _ h) (by decide)
  unfold artifactPatternMatches
  rw [if_neg (not_not_intro htrim), Glob.pathMatches_iff]
  rfl

/-- The matchers decide the language of a pattern exactly for the values that also have a split in
which each `*` before a `*` takes only that; and paths are split as described. -/
theorem matchers_decide_iff (pattern value : List UInt8) :
    (Decides globMatchInner pattern value ∧ Decides segmentMatches pattern value ∧
      ∀ glob path, '/' ∈ glob →
        (artifactPatternMatches glob path = true ↔ PathDescribed glob path)) ↔
      (value ∈ Glob.language pattern → Glob.Literally pattern value) := by
  have hiff : (Glob.wildcardMatch pattern value = true ↔ value ∈ Glob.language pattern) ↔
      (value ∈ Glob.language pattern → Glob.Literally pattern value) := by
    rw [Glob.wildcardMatch_iff]
    exact ⟨fun h => h.mpr, fun h => ⟨Glob.Literally.mem_language, h⟩⟩
  constructor
  · rintro ⟨⟨-, h⟩, -, -⟩
    exact hiff.mp h
  · intro h
    have hends := answerWithin_wildcardMatch pattern value
    exact ⟨⟨hends, hiff.mpr h⟩, ⟨hends, hiff.mpr h⟩,
      fun glob path hslash => artifactPatternMatches_iff hslash⟩

/-- A file whose name begins with `*`. -/
theorem not_decides_starFile :
    ¬ (Decides globMatchInner (bytes "*.ipa") (bytes "*app.ipa") ∧
      Decides segmentMatches (bytes "*.ipa") (bytes "*app.ipa") ∧
      ∀ glob path, '/' ∈ glob →
        (artifactPatternMatches glob path = true ↔ PathDescribed glob path)) := by
  rintro ⟨-, ⟨-, h⟩, -⟩
  have hcode : segmentMatches (bytes "*.ipa") (bytes "*app.ipa") = false := by decide +kernel
  have hdescribed : bytes "*app.ipa" ∈ Glob.language (bytes "*.ipa") := by
    have hsuffix : bytes ".ipa" <:+ bytes "*app.ipa" := by decide +kernel
    exact Glob.mem_language_star.mpr ⟨_, hsuffix, (Glob.Literally.self _).mem_language⟩
  rw [h.mpr hdescribed] at hcode
  cases hcode

end OoreBuild
