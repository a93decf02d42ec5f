import OoreBuild.Validate

/-!
# Names of migrated steps

A version 1 command has no name, so the migration and the export derive one from it: the words of
its first line, cut after `derivedNameLength` characters, and a number where the name is taken. The
version 2 checks limit the bytes of a name and refuse control characters.
-/

namespace OoreBuild

open Text

/-! ## Deriving names -/

def knownStepNames : List (Text × Text) :=
  [("flutter pub get", "Get packages"), ("flutter analyze", "Analyze"),
    ("flutter test", "Run tests")]

/-- Longest step name derived from a command, before `...`. -/
def derivedNameLength : ℕ := 60

/-- The words of the first line. -/
def collapsed (run : Text) : Text := join " " (splitWhitespace ((lines run).head?.getD []))

def stepName (run : Text) : Text :=
  match knownStepNames.find? fun known => known.1 = run with
  | some known => known.2
  | none =>
    let name := (collapsed run).take derivedNameLength
    let name := if byteLen name < byteLen (collapsed run) || (lines run)[1]?.isSome then
      name ++ "..." else name
    if name = [] then "Step" else name

/-- What a counter adds to a name. -/
def counterSuffix (counter : ℕ) : Text := (" (" : Text) ++ ofNat counter ++ ")"

/-- The loop over counters; `none` where the turns run out. -/
def uniqueFrom (names : Finset Text) (base : Text) : ℕ → ℕ → Text → Option Text
  | 0, _, _ => none
  | fuel + 1, counter, name =>
    if name ∉ names then some name
    else uniqueFrom names base fuel (counter + 1) (base ++ counterSuffix counter)

/-- A name that is not taken. -/
def uniqueName (names : Finset Text) (base : Text) : Option Text :=
  uniqueFrom names base (names.card + 1) 2 base

/-- The names of commands one after another. -/
def assignNames : Finset Text → List Text → Option (List Text)
  | _, [] => some []
  | names, command :: commands =>
    (uniqueName names (stepName (trim command))).bind fun name =>
      (assignNames (insert name names) commands).map (name :: ·)

/-! ## The search for a name -/

/-- What is tried one after another: no suffix, then the counters from 2 on. -/
def suffix : ℕ → Text
  | 0 => []
  | k + 1 => counterSuffix (k + 2)

/-- The first of the names that are tried which is not taken. -/
def FirstFree (names : Finset Text) (base : Text) (k : ℕ) : Prop :=
  base ++ suffix k ∉ names ∧ ∀ j < k, base ++ suffix j ∈ names

theorem FirstFree.unique {names : Finset Text} {base : Text} {k k' : ℕ}
    (h : FirstFree names base k) (h' : FirstFree names base k') : k = k' := by
  rcases lt_trichotomy k k' with hlt | heq | hgt
  · exact absurd (h'.2 k hlt) h.1
  · exact heq
  · exact absurd (h.2 k' hgt) h'.1

theorem suffix_injective : Function.Injective suffix := by
  intro j k h
  cases j with
  | zero => cases k with
    | zero => rfl
    | succ k => cases h
  | succ j => cases k with
    | zero => cases h
    | succ k =>
      have hnumbers : ofNat (j + 2) = ofNat (k + 2) :=
        List.append_cancel_left (List.append_cancel_right h)
      have heq := ofNat_injective hnumbers
      omega

/-- With more names to try than are taken, one is found. -/
theorem uniqueFrom_eq (names : Finset Text) (base : Text) (fuel tried : ℕ)
    (hfuel : names.card < tried + fuel) (htaken : ∀ j < tried, base ++ suffix j ∈ names) :
    ∃ k, FirstFree names base k ∧
      uniqueFrom names base fuel (tried + 2) (base ++ suffix tried) = some (base ++ suffix k) := by
  induction fuel generalizing tried with
  | zero =>
    have hinj : Set.InjOn (fun j => base ++ suffix j) (Finset.range tried : Set ℕ) :=
      fun j _ k _ h => suffix_injective (List.append_cancel_left h)
    have hcard := Finset.card_le_card_of_injOn (fun j => base ++ suffix j)
      (fun j hj => htaken j (Finset.mem_range.mp hj)) hinj
    rw [Finset.card_range] at hcard
    omega
  | succ fuel ih =>
    unfold uniqueFrom
    by_cases hmem : base ++ suffix tried ∈ names
    · rw [if_neg (not_not_intro hmem)]
      refine ih (tried + 1) (by omega) fun j hj => ?_
      rcases Nat.lt_succ_iff_lt_or_eq.mp hj with hlt | rfl
      · exact htaken j hlt
      · exact hmem
    · rw [if_pos hmem]
      exact ⟨tried, ⟨hmem, htaken⟩, rfl⟩

theorem uniqueName_eq (names : Finset Text) (base : Text) :
    ∃ k, FirstFree names base k ∧ uniqueName names base = some (base ++ suffix k) := by
  have h := uniqueFrom_eq names base (names.card + 1) 0 (by omega) (by nofun)
  rwa [show suffix 0 = [] from rfl, List.append_nil] at h

/-! ## What names are made of -/

theorem byteLen_pos_of_ne_nil {t : Text} (h : t ≠ []) : 0 < byteLen t := by
  cases t with
  | nil => exact absurd rfl h
  | cons c t =>
    have hcons : byteLen (c :: t) = c.utf8Size + byteLen t := rfl
    have := c.utf8Size_pos
    omega

theorem byteLen_take_lt {t : Text} {n : ℕ} : byteLen (t.take n) < byteLen t ↔ n < t.length := by
  have hsplit : byteLen t = byteLen (t.take n) + byteLen (t.drop n) := by
    rw [← byteLen_append, List.take_append_drop]
  constructor
  · intro h
    by_contra hle
    rw [List.drop_eq_nil_of_le (not_lt.mp hle), byteLen_nil] at hsplit
    omega
  · intro h
    have hpos : 0 < byteLen (t.drop n) := byteLen_pos_of_ne_nil (by simpa using h)
    omega

theorem join_cons (separator part : Text) (parts : List Text) :
    ∃ rest, join separator (part :: parts) = part ++ rest := by
  cases parts with
  | nil => exact ⟨[], by simp [join, List.intercalate]⟩
  | cons next parts =>
    exact ⟨separator ++ join separator (next :: parts), by simp [join, List.intercalate]⟩

/-- A text that begins and ends like a word. -/
def Trimmed (t : Text) : Prop :=
  (∀ c ∈ t.head?, isWhitespace c = false) ∧ ∀ c ∈ t.getLast?, isWhitespace c = false

theorem trimmed_of_check {t : Text}
    (h : (t.head?.all (fun c => !isWhitespace c) &&
      t.getLast?.all fun c => !isWhitespace c) = true) : Trimmed t := by
  rw [Bool.and_eq_true, Option.all_eq_true, Option.all_eq_true] at h
  exact ⟨fun c hc => by simpa using h.1 c hc, fun c hc => by simpa using h.2 c hc⟩

theorem plain_of_check {t : Text} (h : (t.all fun c => !isControl c) = true) :
    ∀ c ∈ t, isControl c = false :=
  fun c hc => by simpa using List.all_eq_true.mp h c hc

/-- Words joined by blanks begin and end like words. -/
theorem trimmed_join {parts : List Text}
    (h : ∀ part ∈ parts, part ≠ [] ∧ ∀ c ∈ part, isWhitespace c = false) :
    Trimmed (join " " parts) := by
  induction parts with
  | nil => exact ⟨nofun, nofun⟩
  | cons part parts ih =>
    obtain ⟨⟨hne, hpart⟩, hparts⟩ := List.forall_mem_cons.mp h
    cases parts with
    | nil =>
      have hjoin : join " " [part] = part := by simp [join, List.intercalate]
      rw [hjoin]
      exact ⟨fun c hc => hpart c (List.mem_of_mem_head? hc),
        fun c hc => hpart c (List.mem_of_mem_getLast? hc)⟩
    | cons next parts =>
      have hjoin : join " " (part :: next :: parts) =
          part ++ (" " ++ join " " (next :: parts)) := by simp [join, List.intercalate]
      have hrest : join " " (next :: parts) ≠ [] := by
        obtain ⟨rest, hrest⟩ := join_cons " " next parts
        rw [hrest]
        simp [(List.forall_mem_cons.mp hparts).1.1]
      rw [hjoin]
      refine ⟨fun c hc => ?_, fun c hc => ?_⟩
      · rw [List.head?_append_of_ne_nil _ hne] at hc
        exact hpart c (List.mem_of_mem_head? hc)
      · rw [List.getLast?_append_of_ne_nil _ (by simp),
          List.getLast?_append_of_ne_nil _ hrest] at hc
        exact (ih hparts).2 c hc

theorem not_of_mem_split {p : Char → Bool} {t part : Text} (hpart : part ∈ split p t) :
    ∀ c ∈ part, p c = false := by
  induction t generalizing part with
  | nil =>
    rw [split, List.mem_singleton] at hpart
    rw [hpart]
    simp
  | cons d t ih =>
    rw [split] at hpart
    cases hsplit : split p t with
    | nil => exact absurd hsplit (split_ne_nil p t)
    | cons first rest =>
      rw [hsplit] at hpart ih
      dsimp only at hpart
      by_cases hd : p d = true
      · rw [if_pos hd] at hpart
        rcases List.mem_cons.mp hpart with rfl | hpart
        · simp
        · exact ih hpart
      · rw [if_neg hd] at hpart
        rcases List.mem_cons.mp hpart with rfl | hpart
        · exact List.forall_mem_cons.mpr ⟨by simpa using hd, ih List.mem_cons_self⟩
        · exact ih (List.mem_cons_of_mem _ hpart)

theorem trimmed_collapsed (run : Text) : Trimmed (collapsed run) := by
  refine trimmed_join fun part hpart => ?_
  obtain ⟨hsplit, hne⟩ := List.mem_filter.mp hpart
  exact ⟨by simpa using hne, not_of_mem_split hsplit⟩

/-! ## Names of commands -/

/-- Whether a name is cut, or stands for more lines than one. -/
def isCut (run : Text) : Bool :=
  decide (derivedNameLength < (collapsed run).length) || (lines run)[1]?.isSome

/-- The name of a command without a name of its own. -/
theorem stepName_of_none {run : Text}
    (h : (knownStepNames.find? fun known => known.1 = run) = none) :
    stepName run =
      if isCut run then (collapsed run).take derivedNameLength ++ "..."
      else if collapsed run = [] then "Step" else collapsed run := by
  have hlength : decide (byteLen ((collapsed run).take derivedNameLength) <
      byteLen (collapsed run)) = decide (derivedNameLength < (collapsed run).length) :=
    decide_eq_decide.mpr byteLen_take_lt
  unfold stepName isCut
  rw [h]
  dsimp only
  rw [hlength]
  by_cases hcut : (decide (derivedNameLength < (collapsed run).length) ||
      (lines run)[1]?.isSome) = true
  · rw [if_pos hcut, if_pos hcut, if_neg (by simp)]
  · have hshort : (collapsed run).length ≤ derivedNameLength := by
      simp only [Bool.or_eq_true, decide_eq_true_eq, not_or, not_lt] at hcut
      exact hcut.1
    rw [if_neg hcut, if_neg hcut, List.take_of_length_le hshort]

theorem stepName_of_some {run : Text} {known : Text × Text}
    (h : (knownStepNames.find? fun known => known.1 = run) = some known) :
    stepName run = known.2 := by
  unfold stepName
  rw [h]

/-- The characters of the command that its name shows; none, where it is known by another. -/
def shown (run : Text) : Text :=
  match knownStepNames.find? fun known => known.1 = run with
  | some _ => []
  | none => (collapsed run).take derivedNameLength

/-- The bytes of the name: of the name the command is known by, or of the words shown, with dots
where there is more. -/
def labelBytes (run : Text) : ℕ :=
  match knownStepNames.find? fun known => known.1 = run with
  | some known => byteLen known.2
  | none =>
    if isCut run then byteLen ((collapsed run).take derivedNameLength) + 3
    else if collapsed run = [] then 4 else byteLen (collapsed run)

theorem byteLen_stepName (run : Text) : byteLen (stepName run) = labelBytes run := by
  unfold labelBytes
  cases h : knownStepNames.find? fun known => known.1 = run with
  | some known => rw [stepName_of_some h]
  | none =>
    rw [stepName_of_none h]
    dsimp only
    split
    · exact byteLen_append _ _
    · split <;> rfl

theorem trimmed_known {known : Text × Text} (h : known ∈ knownStepNames) :
    known.2 ≠ [] ∧ Trimmed known.2 ∧ ∀ c ∈ known.2, isControl c = false := by
  simp only [knownStepNames, List.mem_cons, List.not_mem_nil, or_false] at h
  rcases h with rfl | rfl | rfl <;> exact ⟨nofun, trimmed_of_check rfl, plain_of_check rfl⟩

/-- A name is not empty, it begins and ends like a word, and a control character in it is one of
the command's. -/
theorem stepName_spec (run : Text) :
    stepName run ≠ [] ∧ Trimmed (stepName run) ∧
      ((∀ c ∈ stepName run, isControl c = false) ↔ ∀ c ∈ shown run, isControl c = false) := by
  unfold shown
  cases h : knownStepNames.find? fun known => known.1 = run with
  | some known =>
    obtain ⟨hne, htrimmed, hplain⟩ := trimmed_known (List.mem_of_find?_eq_some h)
    rw [stepName_of_some h]
    exact ⟨hne, htrimmed, iff_of_true hplain nofun⟩
  | none =>
    have hcollapsed := trimmed_collapsed run
    rw [stepName_of_none h]
    dsimp only
    by_cases hcut : isCut run = true
    · rw [if_pos hcut]
      have hdots : Trimmed ("..." : Text) := trimmed_of_check rfl
      refine ⟨by simp, ⟨fun c hc => ?_, fun c hc => ?_⟩, ?_⟩
      · rcases htake : (collapsed run).take derivedNameLength with _ | ⟨first, rest⟩
        · rw [htake, List.nil_append] at hc
          exact hdots.1 c hc
        · have hhead : (collapsed run).head? = some first := by
            have htaken := List.head?_take (l := collapsed run) (i := derivedNameLength)
            rw [htake, if_neg (by decide)] at htaken
            exact htaken.symm
          rw [htake] at hc
          exact hcollapsed.1 c (hhead ▸ hc)
      · rw [List.getLast?_append_of_ne_nil _ (by simp)] at hc
        exact hdots.2 c hc
      · rw [List.forall_mem_append]
        exact and_iff_left (plain_of_check rfl)
    · have hshort : (collapsed run).length ≤ derivedNameLength := by
        simp only [isCut, Bool.or_eq_true, decide_eq_true_eq, not_or, not_lt] at hcut
        exact hcut.1
      rw [if_neg hcut, List.take_of_length_le hshort]
      by_cases hempty : collapsed run = []
      · rw [if_pos hempty, hempty]
        exact ⟨nofun, trimmed_of_check rfl, iff_of_true (plain_of_check rfl) nofun⟩
      · rw [if_neg hempty]
        exact ⟨hempty, hcollapsed, Iff.rfl⟩

/-! ## Suffixes -/

theorem plain_suffix (k : ℕ) : ∀ c ∈ suffix k, isControl c = false := by
  cases k with
  | zero => nofun
  | succ k =>
    intro c hc
    rcases List.mem_append.mp hc with hc | hc
    · rcases List.mem_append.mp hc with hc | hc
      · exact plain_of_check (t := " (") rfl c hc
      · by_contra hcontrol
        have hdigit : c.isDigit = false := by
          by_contra hdigit
          simp only [Bool.not_eq_false, Char.isDigit, Bool.and_eq_true, decide_eq_true_eq,
            UInt32.le_iff_toNat_le, ge_iff_le] at hdigit
          simp only [isControl, Bool.not_eq_false, Bool.or_eq_true, Bool.and_eq_true,
            decide_eq_true_eq] at hcontrol
          have hval : c.toNat = c.val.toNat := rfl
          have hzero : '0'.val.toNat = 48 := rfl
          have hnine : '9'.val.toNat = 57 := rfl
          omega
        exact notMem_ofNat hdigit _ hc
    · exact plain_of_check (t := ")") rfl c hc

theorem trimmed_append_suffix {base : Text} (hne : base ≠ []) (h : Trimmed base) (k : ℕ) :
    Trimmed (base ++ suffix k) := by
  cases k with
  | zero => rwa [show suffix 0 = [] from rfl, List.append_nil]
  | succ k =>
    have hlast : Trimmed (")" : Text) := trimmed_of_check rfl
    refine ⟨fun c hc => ?_, fun c hc => ?_⟩
    · rw [List.head?_append_of_ne_nil _ hne] at hc
      exact h.1 c hc
    · rw [suffix, counterSuffix, ← List.append_assoc,
        List.getLast?_append_of_ne_nil _ (by simp)] at hc
      exact hlast.2 c hc

/-! ## What passes the checks -/

/-- What the version 2 checks ask of a name on its own. -/
def PassesNameChecks (name : Text) : Prop := ∀ path, stepNameError path (trim name) = none

theorem passesNameChecks_iff {name : Text} (hne : name ≠ []) (h : Trimmed name) :
    PassesNameChecks name ↔
      byteLen name ≤ maxStepNameLength ∧ ∀ c ∈ name, isControl c = false := by
  unfold PassesNameChecks stepNameError
  rw [trim_eq_self h.1 h.2]
  have hempty : name.isEmpty = false := by simpa using hne
  simp only [hempty, Bool.false_eq_true, if_false]
  by_cases hlong : maxStepNameLength < byteLen name
  · simp only [if_pos hlong, reduceCtorEq, forall_const, false_iff]
    omega
  · simp only [if_neg hlong]
    by_cases hcontrol : name.any isControl = true
    · simp only [if_pos hcontrol, reduceCtorEq, forall_const, false_iff]
      obtain ⟨c, hc, hcc⟩ := List.any_eq_true.mp hcontrol
      rintro ⟨-, hplain⟩
      rw [hplain c hc] at hcc
      cases hcc
    · simp only [if_neg hcontrol, forall_const, true_iff]
      refine ⟨by omega, fun c hc => ?_⟩
      simpa using fun h => hcontrol (List.any_eq_true.mpr ⟨c, hc, h⟩)

/-- A command whose name passes: it shows no control character, and its bytes leave room for the
first suffix that makes it new. -/
structure Fits (names : Finset Text) (run : Text) : Prop where
  plain : ∀ c ∈ shown run, isControl c = false
  short : ∀ k, FirstFree names (stepName run) k →
    labelBytes run + byteLen (suffix k) ≤ maxStepNameLength

/-- Each command fits after the names of those before it. -/
def AllFit : Finset Text → List Text → Prop
  | _, [] => True
  | names, command :: commands =>
    Fits names (trim command) ∧ ∀ k, FirstFree names (stepName (trim command)) k →
      AllFit (insert (stepName (trim command) ++ suffix k) names) commands

theorem passes_iff_fits {names : Finset Text} {run : Text} {k : ℕ}
    (hk : FirstFree names (stepName run) k) :
    PassesNameChecks (stepName run ++ suffix k) ↔ Fits names run := by
  obtain ⟨hne, htrimmed, hplain⟩ := stepName_spec run
  rw [passesNameChecks_iff (by simp [hne]) (trimmed_append_suffix hne htrimmed k),
    byteLen_append, byteLen_stepName, List.forall_mem_append, hplain,
    and_iff_left (plain_suffix k)]
  constructor
  · rintro ⟨hshort, hplain⟩
    refine ⟨hplain, fun k' hk' => ?_⟩
    rwa [← hk.unique hk']
  · rintro ⟨hplain, hshort⟩
    exact ⟨hshort k hk, hplain⟩

/-- The names are new, and all pass exactly when every command fits. -/
theorem assignNames_spec (names : Finset Text) (commands : List Text) :
    ∃ assigned, assignNames names commands = some assigned ∧ assigned.Nodup ∧
      (∀ name ∈ assigned, name ∉ names) ∧
      ((∀ name ∈ assigned, PassesNameChecks name) ↔ AllFit names commands) := by
  induction commands generalizing names with
  | nil => exact ⟨[], rfl, .nil, nofun, iff_of_true nofun trivial⟩
  | cons command commands ih =>
    obtain ⟨k, hk, hname⟩ := uniqueName_eq names (stepName (trim command))
    obtain ⟨rest, hrest, hnodup, hfresh, hpass⟩ :=
      ih (insert (stepName (trim command) ++ suffix k) names)
    refine ⟨(stepName (trim command) ++ suffix k) :: rest, ?_,
      List.nodup_cons.mpr ⟨fun hmem => ?_, hnodup⟩, ?_, ?_⟩
    · rw [assignNames, hname, Option.bind_some, hrest]
      rfl
    · exact hfresh _ hmem (Finset.mem_insert_self _ _)
    · refine List.forall_mem_cons.mpr ⟨hk.1, fun name hmem hnames => ?_⟩
      exact hfresh name hmem (Finset.mem_insert_of_mem hnames)
    · rw [List.forall_mem_cons, passes_iff_fits hk, hpass, AllFit]
      refine and_congr_right fun _ => ⟨fun hall k' hk' => ?_, fun hall => hall k hk⟩
      rwa [← hk.unique hk']

/-- The assigned names are distinct and new, and each passes the checks exactly when every command
shows no control character and leaves room for its suffix. -/
theorem assigned_names_iff (taken : Finset Text) (commands : List Text) :
    (∃ assigned, assignNames taken commands = some assigned ∧ assigned.Nodup ∧
      (∀ name ∈ assigned, name ∉ taken) ∧ ∀ name ∈ assigned, PassesNameChecks name) ↔
      AllFit taken commands := by
  obtain ⟨assigned, hassigned, hnodup, hfresh, hpass⟩ := assignNames_spec taken commands
  rw [← hpass]
  constructor
  · rintro ⟨assigned', hassigned', -, -, hall⟩
    rw [hassigned] at hassigned'
    cases hassigned'
    exact hall
  · exact fun hall => ⟨assigned, hassigned, hnodup, hfresh, hall⟩

/-- A command with 55 characters that take two bytes each. -/
theorem not_assigned_umlauts :
    ¬ ∃ assigned, assignNames ∅ [("echo " : Text) ++ List.replicate 55 'ä'] = some assigned ∧
      assigned.Nodup ∧ (∀ name ∈ assigned, name ∉ (∅ : Finset Text)) ∧
      ∀ name ∈ assigned, PassesNameChecks name := by
  rintro ⟨assigned, hassigned, -, -, hall⟩
  obtain ⟨assigned', hassigned', -, -, hpass⟩ :=
    assignNames_spec ∅ [("echo " : Text) ++ List.replicate 55 'ä']
  rw [hassigned] at hassigned'
  cases hassigned'
  have hshort := (hpass.mp hall).1.short 0 ⟨Finset.notMem_empty _, nofun⟩
  have hlong : ¬ labelBytes (trim (("echo " : Text) ++ List.replicate 55 'ä')) +
      byteLen (suffix 0) ≤ maxStepNameLength := by decide +kernel
  exact hlong hshort

end OoreBuild
