import OoreBuild.Reports

/-!
# What the reports hide

The masker hides every secret that has no asterisk of its own, and a cut shows none that has no
ellipsis. Only the messages and stack traces go through the masker, though: the names of suites and
tests and an analyzer's files and codes do not (`reports_hide_secrets_iff`).
-/

namespace OoreBuild

namespace Reports

open Text

/-! ## Occurrences beside a mark -/

/-- An occurrence without the character is on one side of it. -/
theorem infix_append_cons {c : Char} {q before after : Text} (hc : c ∉ q)
    (h : q <:+: before ++ c :: after) : q <:+: before ∨ q <:+: after := by
  have hstart : ∀ before : Text, q <+: before ++ c :: after → q <+: before := by
    intro before hpre
    obtain hq | ⟨rest, rfl⟩ :=
      List.prefix_or_prefix_of_prefix hpre (List.prefix_append before (c :: after))
    · exact hq
    · rw [List.prefix_append_right_inj, List.prefix_cons_iff] at hpre
      obtain rfl | ⟨rest', rfl, -⟩ := hpre
      · rw [List.append_nil]
      · exact absurd (List.mem_append_right before List.mem_cons_self) hc
  induction before with
  | nil =>
    obtain hpre | hafter := List.infix_cons_iff.mp h
    · exact .inl (hstart [] hpre).isInfix
    · exact .inr hafter
  | cons d before ih =>
    obtain hpre | hrest := List.infix_cons_iff.mp h
    · exact .inl (hstart (d :: before) hpre).isInfix
    · obtain hbefore | hafter := ih hrest
      · exact .inl (hbefore.trans (List.suffix_cons d before).isInfix)
      · exact .inr hafter

theorem infix_of_cons {c : Char} {q after : Text} (hc : c ∉ q) (h : q <:+: c :: after) :
    q <:+: after := by
  obtain hnil | hafter := infix_append_cons hc ((List.nil_append (c :: after)).symm ▸ h)
  · exact hnil.trans List.nil_infix
  · exact hafter

theorem infix_append_mark {q before after : Text} (hq : '*' ∉ q)
    (h : q <:+: before ++ ("***".toList ++ after)) : q <:+: before ∨ q <:+: after := by
  obtain hbefore | hrest := infix_append_cons hq h
  · exact .inl hbefore
  · exact .inr (infix_of_cons hq (infix_of_cons hq hrest))

/-! ## The masker -/

/-- Replacing text with the mark brings out nothing new that has no asterisk. -/
theorem not_infix_replaceAll {p q text : Text} {fuel : ℕ} (hq : '*' ∉ q) (h : ¬ q <:+: text) :
    ¬ q <:+: replaceAll p "***" fuel text := by
  induction fuel generalizing text with
  | zero => exact h
  | succ fuel ih =>
    unfold replaceAll
    cases hsplit : splitFirst p text with
    | none => exact h
    | some parts =>
      obtain ⟨before, after⟩ := parts
      have htext := splitFirst_eq_some hsplit
      have hbefore : before <:+: text := by
        rw [htext, List.append_assoc]
        exact (List.prefix_append before _).isInfix
      have hafter : after <:+: text := by
        rw [htext]
        exact (List.suffix_append _ after).isInfix
      intro hfound
      dsimp only at hfound
      rw [List.append_assoc] at hfound
      obtain hleft | hright := infix_append_mark hq hfound
      · exact h (hleft.trans hbefore)
      · exact ih (fun hin => h (hin.trans hafter)) hright

/-- The text before the first occurrence has none. -/
theorem not_infix_before {p text before after : Text} (hp : p ≠ [])
    (h : splitFirst p text = some (before, after)) : ¬ p <:+: before := by
  intro hin
  obtain ⟨⟨first, rest⟩, hfirst⟩ : ∃ parts, splitFirst p before = some parts := by
    rw [← Option.ne_none_iff_exists', ne_eq, splitFirst_eq_none_iff, not_not]
    exact hin
  have hagain := splitFirst_append hfirst (p ++ after)
  rw [← List.append_assoc, ← splitFirst_eq_some h, h, Option.some.injEq] at hagain
  have hsame : before = first := congrArg Prod.fst hagain
  have hlength := length_of_splitFirst hfirst
  have hpos := List.length_pos_iff.mpr hp
  rw [hsame] at hlength
  omega

theorem not_infix_replaceAll_self {p text : Text} {fuel : ℕ} (hp : p ≠ []) (hmark : '*' ∉ p)
    (hfuel : text.length ≤ fuel) : ¬ p <:+: replaceAll p "***" fuel text := by
  induction fuel generalizing text with
  | zero =>
    obtain rfl := List.eq_nil_of_length_eq_zero (Nat.le_zero.mp hfuel)
    exact fun h => hp (List.infix_nil.mp h)
  | succ fuel ih =>
    unfold replaceAll
    cases hsplit : splitFirst p text with
    | none => exact splitFirst_eq_none_iff.mp hsplit
    | some parts =>
      obtain ⟨before, after⟩ := parts
      have hlength := length_of_splitFirst hsplit
      have hpos := List.length_pos_iff.mpr hp
      intro hfound
      dsimp only at hfound
      rw [List.append_assoc] at hfound
      obtain hleft | hright := infix_append_mark hmark hfound
      · exact not_infix_before hp hsplit hleft
      · exact ih (by omega) hright

/-- The masker's step for one pattern. -/
def maskPattern (text pattern : Text) : Text :=
  if contains text pattern then replaceAll pattern "***" text.length text else text

theorem not_infix_maskPattern {q pattern text : Text} (hq : '*' ∉ q) (h : ¬ q <:+: text) :
    ¬ q <:+: maskPattern text pattern := by
  unfold maskPattern
  split
  · exact not_infix_replaceAll hq h
  · exact h

theorem not_infix_maskPattern_self {p text : Text} (hp : p ≠ []) (hmark : '*' ∉ p) :
    ¬ p <:+: maskPattern text p := by
  unfold maskPattern
  split
  · exact not_infix_replaceAll_self hp hmark le_rfl
  · rename_i hnot
    rwa [contains_iff] at hnot

/-- No secret without an asterisk shows in a masked text. -/
theorem not_infix_mask {masker : SecretMasker} {secret text : Text}
    (hsecret : secret ∈ masker.patterns) (hne : secret ≠ []) (hmark : '*' ∉ secret) :
    ¬ secret <:+: masker.mask text := by
  have hkeep : ∀ (patterns : List Text) (text : Text), ¬ secret <:+: text →
      ¬ secret <:+: patterns.foldl maskPattern text := by
    intro patterns
    induction patterns with
    | nil => exact fun _ h => h
    | cons pattern rest ih => exact fun text h => ih _ (not_infix_maskPattern hmark h)
  obtain ⟨before, after, hpatterns⟩ := List.append_of_mem hsecret
  have hmask : masker.mask text =
      after.foldl maskPattern (maskPattern (before.foldl maskPattern text) secret) := by
    show masker.patterns.foldl maskPattern text = _
    rw [hpatterns, List.foldl_append, List.foldl_cons]
  rw [hmask]
  exact hkeep after _ (not_infix_maskPattern_self hne hmark)

theorem ne_nil_of_mem_secretMasker {values : List Text} {secret : Text}
    (h : secret ∈ (secretMasker values).patterns) : secret ≠ [] := by
  simp only [secretMasker, List.mem_mergeSort, List.mem_dedup, List.mem_flatMap,
    List.mem_filter, decide_eq_true_eq] at h
  obtain ⟨value, ⟨-, hvalue⟩, hsecret⟩ := h
  obtain rfl | hline := List.mem_cons.mp hsecret
  · exact hvalue
  · unfold maskedLines at hline
    split at hline
    · have hlen := (List.mem_filter.mp hline).2
      rintro rfl
      simp [byteLen] at hlen
    · cases hline

/-! ## The cut -/

theorem not_infix_truncate {q text : Text} {maxBytes : ℕ} (hq : ellipsis ∉ q)
    (h : ¬ q <:+: text) : ¬ q <:+: truncate text maxBytes := by
  unfold truncate
  split
  · exact h
  · intro hfound
    obtain hcut | hnil := infix_append_cons hq hfound
    · exact h (hcut.trans (isPrefix_truncateUtf8Bytes text maxBytes).isInfix)
    · exact h (hnil.trans List.nil_infix)

/-! ## What is sent -/

/-- No secret of the build shows in the text. -/
def Hides (values : List Text) (text : Text) : Prop :=
  ∀ secret ∈ (secretMasker values).patterns, contains text secret = false

/-- The masked text, cut to size, shows none of the secrets that have an asterisk or an ellipsis
themselves: the characters that masking and cutting put in. -/
def HidesMarked (values : List Text) (text : Text) (maxBytes : ℕ) : Prop :=
  ∀ secret ∈ (secretMasker values).patterns, '*' ∈ secret ∨ ellipsis ∈ secret →
    contains (truncate ((secretMasker values).mask text) maxBytes) secret = false

/-- Text that went through the masker hides every other secret. -/
theorem hides_masked_iff {values : List Text} {text : Text} {maxBytes : ℕ} :
    Hides values (truncate ((secretMasker values).mask text) maxBytes) ↔
      HidesMarked values text maxBytes := by
  constructor
  · exact fun h secret hsecret _ => h secret hsecret
  · intro h secret hsecret
    by_cases hmarked : '*' ∈ secret ∨ ellipsis ∈ secret
    · exact h secret hsecret hmarked
    · obtain ⟨hstar, hellipsis⟩ := not_or.mp hmarked
      rw [← Bool.not_eq_true, contains_iff]
      exact not_infix_truncate hellipsis
        (not_infix_mask hsecret (ne_nil_of_mem_secretMasker hsecret) hstar)

/-- The texts of a failure that come from the report's file. -/
def RunnerTestFailure.texts (failure : RunnerTestFailure) : List Text :=
  failure.suite :: failure.name :: (failure.message.toList ++ failure.stackTrace.toList)

def RunnerTestReport.texts (report : RunnerTestReport) : List Text :=
  report.failures.flatMap (·.texts)

def AnalyzerDiagnostic.texts (diagnostic : AnalyzerDiagnostic) : List Text :=
  [diagnostic.file, diagnostic.code, diagnostic.message]

def RunnerAnalyzerReport.texts (report : RunnerAnalyzerReport) : List Text :=
  report.diagnostics.flatMap (·.texts)

/-- What a build leaves for the collectors, and what they are told about it. -/
structure ReportInput where
  values : List Text
  files : List ReportFile
  workspaces : List Workspace
  step : Text
  stdout : Text

/-- The test report and the analyzer report that are sent for it. -/
def ReportInput.testReport (input : ReportInput) (parsers : ReportParsers) :
    Option RunnerTestReport :=
  collectTestReports parsers input.files input.workspaces input.step
    (secretMasker input.values).mask

def ReportInput.analyzerReport (input : ReportInput) (parsers : ReportParsers) :
    Except Text RunnerAnalyzerReport :=
  parseAnalyzerOutput parsers input.stdout input.workspaces (secretMasker input.values).mask

/-- No text that is sent in a report shows a secret. -/
def ReportInput.HidesSecrets (input : ReportInput) (parsers : ReportParsers) : Prop :=
  (∀ report, input.testReport parsers = some report →
    ∀ text ∈ report.texts, Hides input.values text) ∧
  ∀ report, input.analyzerReport parsers = .ok report →
    ∀ text ∈ report.texts, Hides input.values text

/-- The failure's suite and name show no secret once the paths of the workspace are taken off. -/
def RunnerTestFailure.Plain (failure : RunnerTestFailure) (values prefixes : List Text) : Prop :=
  Hides values (stripPrefixes failure.suite prefixes) ∧
  Hides values (stripPrefixes failure.name prefixes) ∧
  (∀ message ∈ failure.message, HidesMarked values message maxFailureMessageBytes) ∧
  ∀ stack ∈ failure.stackTrace, HidesMarked values stack maxStackTraceBytes

/-- The diagnostic's file and code show no secret. -/
def AnalyzerDiagnostic.Plain (diagnostic : AnalyzerDiagnostic) (values prefixes : List Text) :
    Prop :=
  Hides values
    (truncate ((stripPrefixes diagnostic.file prefixes).dropWhile (· = '/')) maxFileBytes) ∧
  Hides values (truncate diagnostic.code maxCodeBytes) ∧
  HidesMarked values diagnostic.message maxDiagnosticMessageBytes

theorem RunnerTestFailure.hides_prepared_iff {failure : RunnerTestFailure}
    {values prefixes : List Text} :
    (∀ text ∈ (failure.prepared prefixes (secretMasker values).mask).texts, Hides values text) ↔
      failure.Plain values prefixes := by
  have hmasked : ∀ (text : Option Text) (maxBytes : ℕ),
      (∀ cut ∈ (text.map fun text => truncate ((secretMasker values).mask text) maxBytes).toList,
        Hides values cut) ↔ ∀ full ∈ text, HidesMarked values full maxBytes := by
    intro text maxBytes
    cases text with
    | none => simp
    | some text => simp [hides_masked_iff]
  unfold RunnerTestFailure.texts RunnerTestFailure.Plain
  rw [List.forall_mem_cons, List.forall_mem_cons, List.forall_mem_append]
  exact and_congr Iff.rfl (and_congr Iff.rfl (and_congr (hmasked _ _) (hmasked _ _)))

theorem AnalyzerDiagnostic.hides_prepared_iff {diagnostic : AnalyzerDiagnostic}
    {values prefixes : List Text} :
    (∀ text ∈ (diagnostic.prepared prefixes (secretMasker values).mask).texts,
      Hides values text) ↔ diagnostic.Plain values prefixes := by
  unfold AnalyzerDiagnostic.texts AnalyzerDiagnostic.Plain
  rw [List.forall_mem_cons, List.forall_mem_cons, List.forall_mem_singleton]
  exact and_congr Iff.rfl (and_congr Iff.rfl hides_masked_iff)

/-- The failures of a report are those that the files hold. -/
theorem failures_of_collect {parsers : ReportParsers} {files : List ReportFile}
    {workspaces : List Workspace} {step : Text} {mask : Text → Text} {report : RunnerTestReport}
    (h : collectTestReports parsers files workspaces step mask = some report) :
    report.failures = (readFailures parsers files).map
      (·.prepared (workspaces.flatMap workspacePrefixes) mask) := by
  have hfold : ∀ (parsed : List RunnerTestReport) (start : RunnerTestReport),
      (parsed.foldl RunnerTestReport.add start).failures =
        start.failures ++ parsed.flatMap (·.failures) := by
    intro parsed
    induction parsed with
    | nil => simp
    | cons first rest ih =>
      intro start
      rw [List.foldl_cons, ih, List.flatMap_cons, ← List.append_assoc]
      rfl
  unfold collectTestReports at h
  dsimp only at h
  split at h
  · cases h
  · cases h
    rw [readFailures, hfold, List.nil_append]

/-- A report is sent wherever there is a failure to report. -/
theorem exists_collect {parsers : ReportParsers} {files : List ReportFile}
    {failure : RunnerTestFailure} (h : failure ∈ readFailures parsers files)
    (workspaces : List Workspace) (step : Text) (mask : Text → Text) :
    ∃ report, collectTestReports parsers files workspaces step mask = some report := by
  unfold collectTestReports
  dsimp only
  rw [if_neg]
  · exact ⟨_, rfl⟩
  · intro hnil
    rw [readFailures, hnil] at h
    cases h

/-- The reports hide the secrets where none shows in the names, files and codes that are sent as
they are, nor in masked text by the marks that masking puts in. -/
theorem reports_hide_secrets_iff (parsers : ReportParsers) (input : ReportInput) :
    input.HidesSecrets parsers ↔
      (∀ failure ∈ readFailures parsers input.files,
        failure.Plain input.values (input.workspaces.flatMap workspacePrefixes)) ∧
      ∀ raw, analyzerOutput parsers input.stdout = some raw →
        ∀ diagnostic ∈ sentDiagnostics raw,
          diagnostic.Plain input.values (input.workspaces.flatMap workspacePrefixes) := by
  refine and_congr ⟨fun h failure hfailure => ?_, fun h report hreport => ?_⟩
    ⟨fun h raw hraw diagnostic hdiagnostic => ?_, fun h report hreport => ?_⟩
  · obtain ⟨report, hreport⟩ := exists_collect hfailure input.workspaces input.step
      (secretMasker input.values).mask
    refine RunnerTestFailure.hides_prepared_iff.mp fun text htext => h report hreport text ?_
    rw [RunnerTestReport.texts, failures_of_collect hreport]
    exact List.mem_flatMap.mpr ⟨_, List.mem_map_of_mem hfailure, htext⟩
  · intro text htext
    rw [RunnerTestReport.texts, failures_of_collect hreport] at htext
    obtain ⟨prepared, hprepared, htext⟩ := List.mem_flatMap.mp htext
    obtain ⟨failure, hfailure, rfl⟩ := List.mem_map.mp hprepared
    exact RunnerTestFailure.hides_prepared_iff.mpr (h failure hfailure) text htext
  · have hreport : ∃ counts, input.analyzerReport parsers = .ok
        { counts, diagnostics := (sentDiagnostics raw).map
            (·.prepared (input.workspaces.flatMap workspacePrefixes)
              (secretMasker input.values).mask) } := by
      unfold ReportInput.analyzerReport parseAnalyzerOutput
      rw [hraw]
      exact ⟨_, rfl⟩
    obtain ⟨counts, hreport⟩ := hreport
    refine AnalyzerDiagnostic.hides_prepared_iff.mp fun text htext => h _ hreport text ?_
    exact List.mem_flatMap.mpr ⟨_, List.mem_map_of_mem hdiagnostic, htext⟩
  · intro text htext
    unfold ReportInput.analyzerReport parseAnalyzerOutput at hreport
    dsimp only at hreport
    split at hreport
    · cases hreport
    · rename_i raw hraw
      cases hreport
      obtain ⟨prepared, hprepared, htext⟩ := List.mem_flatMap.mp htext
      obtain ⟨diagnostic, hdiagnostic, rfl⟩ := List.mem_map.mp hprepared
      exact AnalyzerDiagnostic.hides_prepared_iff.mpr (h raw hraw diagnostic hdiagnostic) text htext

/-- A JUnit report with one failed test, named after the token that it tried. -/
def tokenReport : ReportInput where
  values := ["s3cr3t-token"]
  files := [⟨some "xml", 120, some "<testsuite name=\"login\">"⟩]
  workspaces := []
  step := "build-1"
  stdout := []

def tokenParsers : ReportParsers where
  json _ := none
  xml _ := [.elementStart "testsuite", .attribute "name" "login", .endOpen,
    .elementStart "testcase", .attribute "name" "accepts s3cr3t-token", .endOpen,
    .elementStart "failure", .attribute "message" "no session for s3cr3t-token", .endEmpty,
    .endClose "testcase", .endClose "testsuite"]
  float _ := none
  diagnostics _ := none

/-- The message is masked and the test's name is not. -/
theorem test_name_shows_secret : ¬ ∀ (parsers : ReportParsers) (input : ReportInput),
    input.HidesSecrets parsers := by
  intro h
  have hshown : (tokenReport.testReport tokenParsers).any (fun report =>
      report.texts.any fun text => contains text "s3cr3t-token") = true := by decide +kernel
  obtain ⟨report, hreport, hany⟩ := Option.any_eq_true _ _ |>.mp hshown
  obtain ⟨text, htext, hcontains⟩ := List.any_eq_true.mp hany
  have hsecret : "s3cr3t-token".toList ∈ (secretMasker tokenReport.values).patterns := by
    decide +kernel
  have hhidden := (h tokenParsers tokenReport).1 report hreport text htext _ hsecret
  rw [hcontains] at hhidden
  cases hhidden

end Reports

end OoreBuild
