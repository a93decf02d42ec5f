import OoreBuild.ReportMasking

/-!
# Secrets that a step prints

The masker keeps its word about its patterns: none of them is left in a masked text, a text without
them stays as it is, and masking twice is masking once. A value of several lines is printed line by
line, though, and then only the lines that have eight bytes without the whitespace around them are
patterns of their own. `masks_iff` says which secrets that is enough for.
-/

namespace OoreBuild

namespace Reports

open Text

/-! ## Patterns -/

section Patterns

variable {values : List Text} {secret text : Text}

theorem mem_patterns_iff : secret ∈ (secretMasker values).patterns ↔
    ∃ value ∈ values, value ≠ [] ∧ (secret = value ∨ secret ∈ maskedLines value) := by
  simp only [secretMasker, List.mem_mergeSort, List.mem_dedup, List.mem_flatMap, List.mem_filter,
    decide_eq_true_eq, List.mem_cons, and_assoc]

theorem mem_maskedLines_iff {value : Text} : secret ∈ maskedLines value ↔
    '\n' ∈ value ∧ ∃ line ∈ lines value, trim line = secret ∧ 8 ≤ byteLen secret := by
  unfold maskedLines
  split
  · rename_i hbreak
    simp only [List.mem_filter, List.mem_map, decide_eq_true_eq, hbreak, true_and]
    constructor
    · rintro ⟨⟨line, hline, htrim⟩, hlen⟩
      exact ⟨line, hline, htrim, hlen⟩
    · rintro ⟨line, hline, htrim, hlen⟩
      exact ⟨⟨line, hline, htrim⟩, hlen⟩
  · rename_i hbreak
    simp only [List.not_mem_nil, hbreak, false_and]

theorem mem_of_mem_trim {t : Text} {c : Char} (h : c ∈ trim t) : c ∈ t := by
  obtain ⟨a, b, -, -, ht⟩ := exists_trim t
  rw [ht]
  exact List.mem_append_left _ (List.mem_append_right _ h)

theorem isInfix_trim (t : Text) : trim t <:+: t := by
  obtain ⟨a, b, -, -, ht⟩ := exists_trim t
  exact ⟨a, b, ht.symm⟩

theorem mem_of_mem_split {p : Char → Bool} {t part : Text} {c : Char} (hpart : part ∈ split p t)
    (hc : c ∈ part) : c ∈ t := by
  induction t generalizing part with
  | nil =>
    rw [split, List.mem_singleton] at hpart
    rw [hpart] at hc
    exact hc
  | cons d t ih =>
    rw [split] at hpart
    cases hsplit : split p t with
    | nil => exact absurd hsplit (split_ne_nil p t)
    | cons first rest =>
      rw [hsplit] at hpart ih
      dsimp only at hpart
      split at hpart
      · rcases List.mem_cons.mp hpart with rfl | hrest
        · cases hc
        · exact List.mem_cons_of_mem _ (ih hrest hc)
      · rcases List.mem_cons.mp hpart with rfl | hrest
        · rcases List.mem_cons.mp hc with rfl | hc
          · exact List.mem_cons_self
          · exact List.mem_cons_of_mem _ (ih List.mem_cons_self hc)
        · exact List.mem_cons_of_mem _ (ih (List.mem_cons_of_mem _ hrest) hc)

/-- Every character of a line is one of the text. -/
theorem mem_of_mem_lines {t line : Text} {c : Char} (hline : line ∈ lines t) (hc : c ∈ line) :
    c ∈ t := by
  unfold lines at hline
  rcases List.mem_append.mp hline with hline | hline
  · obtain ⟨part, hpart, rfl⟩ := List.mem_map.mp hline
    refine mem_of_mem_split (List.mem_of_mem_dropLast hpart) (c := c) ?_
    unfold stripCr at hc
    split at hc
    · exact List.mem_of_mem_dropLast hc
    · exact hc
  · split at hline
    · cases hline
    · cases hline
    · rename_i last hlast
      obtain rfl := List.mem_singleton.mp hline
      exact mem_of_mem_split (List.mem_of_getLast? hlast) hc

/-- A text without a line feed is its only line. -/
theorem lines_of_notMem {t : Text} (h : '\n' ∉ t) (hne : t ≠ []) : lines t = [t] := by
  have hsplit : split (· = '\n') t = [t] := by
    refine split_of_forall fun c hc => decide_eq_false ?_
    rintro rfl
    exact h hc
  unfold lines
  rw [hsplit]
  cases t with
  | nil => exact absurd rfl hne
  | cons c cs => rfl

end Patterns

/-! ## Masking -/

section Masking

variable {values : List Text}

/-- Secrets without an asterisk give patterns without one. -/
theorem notMem_pattern (hstar : ∀ value ∈ values, '*' ∉ value) {secret : Text}
    (h : secret ∈ (secretMasker values).patterns) : '*' ∉ secret := by
  obtain ⟨value, hvalue, -, heq | hmasked⟩ := mem_patterns_iff.mp h
  · exact heq ▸ hstar value hvalue
  · obtain ⟨-, line, hline, rfl, -⟩ := mem_maskedLines_iff.mp hmasked
    exact fun hmem => hstar value hvalue (mem_of_mem_lines hline (mem_of_mem_trim hmem))

/-- A masked text has none of the patterns. -/
theorem mask_hides (hstar : ∀ value ∈ values, '*' ∉ value) (text : Text) :
    ∀ secret ∈ (secretMasker values).patterns, ¬ secret <:+: (secretMasker values).mask text :=
  fun _ hsecret => not_infix_mask hsecret (ne_nil_of_mem_secretMasker hsecret)
    (notMem_pattern hstar hsecret)

/-- A text without patterns stays as it is. -/
theorem mask_eq_self {masker : SecretMasker} {text : Text}
    (h : ∀ secret ∈ masker.patterns, ¬ secret <:+: text) : masker.mask text = text := by
  show masker.patterns.foldl maskPattern text = text
  generalize masker.patterns = patterns at h
  induction patterns with
  | nil => rfl
  | cons secret rest ih =>
    have hsame : maskPattern text secret = text := by
      unfold maskPattern
      rw [if_neg]
      rw [contains_iff]
      exact h secret List.mem_cons_self
    rw [List.foldl_cons, hsame]
    exact ih fun other hother => h other (List.mem_cons_of_mem _ hother)

theorem mask_mask (hstar : ∀ value ∈ values, '*' ∉ value) (text : Text) :
    (secretMasker values).mask ((secretMasker values).mask text) =
      (secretMasker values).mask text :=
  mask_eq_self (mask_hides hstar text)

end Masking

/-! ## Printing line by line -/

/-- A line of a secret value that a log must not show: a long one, or the only one between line
breaks. -/
def Guarded (value line : Text) : Prop :=
  line ∈ lines value ∧ (8 ≤ byteLen line ∨
    '\n' ∈ value ∧ (lines value).filter (· ≠ []) = [line])

/-- A secret value, or a line that is masked by itself, occurs in the line. -/
def Covered (values : List Text) (line : Text) : Prop :=
  ∃ value ∈ values, value ≠ [] ∧ (value <:+: line ∨
    '\n' ∈ value ∧ ∃ other ∈ lines value, 8 ≤ byteLen (trim other) ∧ trim other <:+: line)

/-- What the masker does for the log: of any text, and of a secret that a step prints line by
line. -/
structure Masks (values : List Text) : Prop where
  hides : ∀ text, ∀ secret ∈ (secretMasker values).patterns,
    ¬ secret <:+: (secretMasker values).mask text
  keeps : ∀ text, (∀ secret ∈ (secretMasker values).patterns, ¬ secret <:+: text) →
    (secretMasker values).mask text = text
  idempotent : ∀ text, (secretMasker values).mask ((secretMasker values).mask text) =
    (secretMasker values).mask text
  printed : ∀ value ∈ values, ∀ line, Guarded value line → ∀ printed ∈ lines value,
    ¬ line <:+: (secretMasker values).mask printed

section Printing

variable {values : List Text} {value line : Text}

/-- A line is covered when some pattern occurs in it. -/
theorem covered_iff :
    Covered values line ↔ ∃ secret ∈ (secretMasker values).patterns, secret <:+: line := by
  constructor
  · rintro ⟨value, hvalue, hne, hin | ⟨hbreak, other, hother, hlen, hin⟩⟩
    · exact ⟨value, mem_patterns_iff.mpr ⟨value, hvalue, hne, .inl rfl⟩, hin⟩
    · have hmasked := mem_maskedLines_iff.mpr ⟨hbreak, other, hother, rfl, hlen⟩
      exact ⟨trim other, mem_patterns_iff.mpr ⟨value, hvalue, hne, .inr hmasked⟩, hin⟩
  · rintro ⟨secret, hsecret, hin⟩
    obtain ⟨value, hvalue, hne, rfl | hmasked⟩ := mem_patterns_iff.mp hsecret
    · exact ⟨secret, hvalue, hne, .inl hin⟩
    · obtain ⟨hbreak, other, hother, rfl, hlen⟩ := mem_maskedLines_iff.mp hmasked
      exact ⟨value, hvalue, hne, .inr ⟨hbreak, other, hother, hlen, hin⟩⟩

/-- A covered line shows in no masked text at all. -/
theorem not_infix_mask_of_covered (hstar : ∀ value ∈ values, '*' ∉ value)
    (h : Covered values line) (text : Text) : ¬ line <:+: (secretMasker values).mask text := by
  obtain ⟨secret, hsecret, hin⟩ := covered_iff.mp h
  exact fun hshown => mask_hides hstar text secret hsecret (hin.trans hshown)

/-- Only the lines of a value with line breaks that are short without the whitespace around them
need a pattern from elsewhere. -/
theorem covered_of_guarded (hvalue : value ∈ values) (hguarded : Guarded value line)
    (hlong : '\n' ∈ value → 8 ≤ byteLen (trim line)) : Covered values line := by
  obtain ⟨hline, hguard⟩ := hguarded
  have hne : value ≠ [] := by
    rintro rfl
    cases hline
  by_cases hbreak : '\n' ∈ value
  · exact ⟨value, hvalue, hne, .inr ⟨hbreak, line, hline, hlong hbreak, isInfix_trim line⟩⟩
  · rw [lines_of_notMem hbreak hne, List.mem_singleton] at hline
    exact ⟨value, hvalue, hne, .inl (hline ▸ List.infix_refl _)⟩

end Printing

/-- For secrets without an asterisk: the masker does what the log needs exactly when each guarded
line of a value with line breaks that has less than eight bytes without the whitespace around it
contains a secret value or a line that is masked by itself. -/
theorem masks_iff (values : List Text) (hstar : ∀ value ∈ values, '*' ∉ value) :
    Masks values ↔ ∀ value ∈ values, ∀ line, Guarded value line → '\n' ∈ value →
      byteLen (trim line) < 8 → Covered values line := by
  constructor
  · intro h value hvalue line hguarded _ _
    by_contra hcovered
    -- the printed line itself stays as it is
    refine h.printed value hvalue line hguarded line hguarded.1 ?_
    rw [h.keeps line fun secret hsecret hin => hcovered (covered_iff.mpr ⟨secret, hsecret, hin⟩)]
  · intro h
    refine ⟨mask_hides hstar, fun text => mask_eq_self, mask_mask hstar, ?_⟩
    intro value hvalue line hguarded printed _
    refine not_infix_mask_of_covered hstar ?_ printed
    by_cases hshort : '\n' ∈ value ∧ byteLen (trim line) < 8
    · exact h value hvalue line hguarded hshort.1 hshort.2
    · exact covered_of_guarded hvalue hguarded fun hbreak =>
        Nat.le_of_not_lt fun hlt => hshort ⟨hbreak, hlt⟩

/-- A private key with a line break at its end. -/
theorem masks_key : Masks ["-----BEGIN KEY-----\nabcdefgh\n".toList] := by
  refine (masks_iff _ (by decide)).mpr fun value hvalue line hguarded _ hshort => ?_
  obtain rfl := List.mem_singleton.mp hvalue
  have hlong : ∀ line ∈ lines "-----BEGIN KEY-----\nabcdefgh\n".toList,
      ¬ byteLen (trim line) < 8 := by decide
  exact absurd hshort (hlong line hguarded.1)

/-- A password that was stored with the line break at its end shows when a step prints it. -/
theorem not_masks_password : ¬ Masks ["hunter2\n".toList] := by
  intro h
  refine h.printed _ List.mem_cons_self "hunter2".toList ⟨by decide, .inr ⟨by decide, by decide⟩⟩
    "hunter2".toList (by decide) ?_
  rw [mask_eq_self]
  intro secret hsecret
  obtain ⟨value, hvalue, -, hpattern⟩ := mem_patterns_iff.mp hsecret
  obtain rfl := List.mem_singleton.mp hvalue
  rcases hpattern with rfl | hmasked
  · decide
  · rw [show maskedLines "hunter2\n".toList = [] by decide] at hmasked
    cases hmasked

end Reports

end OoreBuild
