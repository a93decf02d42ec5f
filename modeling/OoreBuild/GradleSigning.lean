import OoreBuild.Lib.Properties

/-!
# Gradle signing

An Android build is signed by four properties that the runner appends to the workspace's
`android/gradle.properties` for the build step and takes out again afterwards. Gradle reads the
file as a Java property file: in Latin-1, while the runner writes UTF-8, and with lines that go on
after a backslash, while the runner appends after whatever the file ends with.
-/

namespace OoreBuild.GradleSigning

open Properties

structure AndroidSigningInputs where
  keystorePassword : Text
  keyAlias : Text
  keyPassword : Text

/-- The names under `android.injected.signing` with their values. -/
def signingValues (keystorePath : Text) (inputs : AndroidSigningInputs) : List (Text × Text) :=
  [("store.file", keystorePath), ("store.password", inputs.keystorePassword),
    ("key.alias", inputs.keyAlias), ("key.password", inputs.keyPassword)]

def escapeCharacter (index : ℕ) (character : Char) : Text :=
  if character = '\\' then ['\\', '\\']
  else if character = '\n' then ['\\', 'n']
  else if character = '\r' then ['\\', 'r']
  else if character = '\t' then ['\\', 't']
  else if character = '\x0c' then ['\\', 'f']
  else if character = ' ' && index == 0 then ['\\', ' ']
  else [character]

def escapePropertiesValue (value : Text) : Text :=
  value.zipIdx.flatMap fun (character, index) => escapeCharacter index character

def propertyKey (name : Text) : Text := ("android.injected.signing." : Text) ++ name

/-- The comment above the properties, without its line break. -/
def comment : Text := "# Added by Oore for this build step: managed Android signing"

/-- What the comment says after its mark. -/
def added : Text := "Added by Oore for this build step: managed Android signing"

def gradleInjectedSigningProperties (keystorePath : Text) (inputs : AndroidSigningInputs) : Text :=
  '\n' :: comment ++ ['\n'] ++ (signingValues keystorePath inputs).flatMap fun (name, value) =>
    propertyKey name ++ '=' :: escapePropertiesValue value ++ ['\n']

/-! ## The file -/

/-- What the file system says of a path without following links. -/
inductive Stat
  | missing
  | directory
  | file (content : List UInt8)
  /-- A symbolic link, for one. -/
  | other
  | failed
  deriving DecidableEq

/-- The folder `android` of a workspace, and `gradle.properties` in it. -/
structure Workspace where
  android : Stat
  properties : Stat

/-- Whether there is a file to write the properties to. -/
def gradlePropertiesForInjection (w : Workspace) : Bool :=
  w.android = .directory && match w.properties with
    | .file _ | .missing => true
    | .directory | .other | .failed => false

/-- How the other steps go: the path of the keystore as it is printed, once it is written; whether
the original is readable; and what a write that fails leaves. -/
structure Host where
  keystorePath : Option Text
  readable : Bool
  broken : Option Stat

structure GradleSigningInjection where
  original : Option (List UInt8)

inductive Applied
  | skipped
  | failed
  | injected (injection : GradleSigningInjection)

/-- Dropping an injection; what a write that fails leaves stays. -/
def GradleSigningInjection.drop (injection : GradleSigningInjection) (broken : Option Stat)
    (w : Workspace) : Workspace :=
  match broken, injection.original with
  | some left, _ => { w with properties := left }
  | none, some content => { w with properties := .file content }
  | none, none => { w with properties := .missing }

def readOriginal (host : Host) (w : Workspace) : Option (Option (List UInt8)) :=
  match w.properties with
  | .file content => if host.readable then some (some content) else none
  | .missing => some none
  | .directory | .other | .failed => none

/-- Adding the properties; an injection that is not handed out is dropped at once. -/
def GradleSigningInjection.apply (host : Host) (restoring : Option Stat)
    (inputs : AndroidSigningInputs) (w : Workspace) : Applied × Workspace :=
  if !gradlePropertiesForInjection w then (.skipped, w)
  else
    match host.keystorePath, readOriginal host w with
    | some keystorePath, some original =>
      let injection : GradleSigningInjection := ⟨original⟩
      let block := gradleInjectedSigningProperties keystorePath inputs
      let content := original.getD [] ++ Text.bytes block
      match host.broken with
      | none => (.injected injection, { w with properties := .file content })
      | some left => (.failed, injection.drop restoring { w with properties := left })
    | _, _ => (.failed, w)

/-! ## What Gradle reads -/

/-- The values as the entries that the file shall have. -/
def givenEntries (keystorePath : Text) (inputs : AndroidSigningInputs) : List (Units × Units) :=
  (signingValues keystorePath inputs).map fun (name, value) =>
    (ofText (propertyKey name), ofText value)

/-- The same with what is read for each value: its bytes as characters. -/
def writtenEntries (keystorePath : Text) (inputs : AndroidSigningInputs) : List (Units × Units) :=
  (signingValues keystorePath inputs).map fun (name, value) =>
    (ofText (propertyKey name), (Text.bytes value).map UInt8.toNat)

def workspaceOf (original : Option (List UInt8)) : Workspace where
  android := .directory
  properties := (original.map Stat.file).getD .missing

/-- The entries of the original file are kept and the given ones are set, and the end of the build
step brings the original back. -/
def Injects (original : Option (List UInt8)) (keystorePath : Text) (inputs : AndroidSigningInputs) :
    Prop :=
  ∃ injection content,
    GradleSigningInjection.apply ⟨some keystorePath, true, none⟩ none inputs
        (workspaceOf original) =
      (.injected injection, { workspaceOf original with properties := .file content }) ∧
    (∀ entries, load (original.getD []) = some entries → ∃ written, load content = some written ∧
      ofEntries written = put (ofEntries entries) (givenEntries keystorePath inputs)) ∧
    ∀ left, injection.drop none { workspaceOf original with properties := left } =
      workspaceOf original

/-- The keys that are set. -/
def signingKeys : List Units :=
  [ofText (propertyKey "store.file"), ofText (propertyKey "store.password"),
    ofText (propertyKey "key.alias"), ofText (propertyKey "key.password")]

/-- The entry of the line that the comment is joined to is one that is set anyway; or all of the
line is a key, and what the file says of it, and of it with the comment's mark, stays the same. -/
def Unseen (before : List (Units × Units)) (line : Text) (key : Units) : Prop :=
  if (splitKey false line).2 = [] then
    (key ∈ signingKeys ∨ ofEntries before key = some []) ∧
      ofEntries before (key ++ ofText "#") = some (ofText added)
  else key ∈ signingKeys

/-- The file does not end in an escaped line break that is still open, or nobody can tell. -/
def EndsWell (original : List UInt8) : Prop :=
  ∀ line, carried (run begin (latin1 original)) = some line →
    ∀ before e, (run begin (latin1 original)).lines.mapM entry = some before → entry line = some e →
      Unseen before line e.1

/-! ## The values -/

/-- A character is escaped or stays, and a blank at the beginning does not stay. -/
theorem escapeCharacter_cases (index : ℕ) (c : Char) :
    (∃ d, escapeCharacter index c = ['\\', d] ∧ d.toNat < 128 ∧ isBreak d = false ∧ d ≠ 'u' ∧
      String.utf8EncodeChar c = [UInt8.ofNat (escapedUnit d)]) ∨
    escapeCharacter index c = [c] ∧ c ≠ '\\' ∧ isBreak c = false ∧
      (index = 0 → isBlank c = false) := by
  unfold escapeCharacter
  split
  · next hc => subst hc; exact .inl ⟨'\\', rfl, by decide⟩
  split
  · next hc => subst hc; exact .inl ⟨'n', rfl, by decide⟩
  split
  · next hc => subst hc; exact .inl ⟨'r', rfl, by decide⟩
  split
  · next hc => subst hc; exact .inl ⟨'t', rfl, by decide⟩
  split
  · next hc => subst hc; exact .inl ⟨'f', rfl, by decide⟩
  split
  · next hc =>
    obtain ⟨rfl, -⟩ : c = ' ' ∧ index = 0 := by simpa using hc
    exact .inl ⟨' ', rfl, by decide⟩
  next hback hfeed hreturn htab hform hspace =>
  refine .inr ⟨rfl, hback, by simp [isBreak, hfeed, hreturn], ?_⟩
  rintro rfl
  have hne : c ≠ ' ' := by simpa using hspace
  simp [isBlank, htab, hform, hne]

theorem bytes_append (a b : Text) : Text.bytes (a ++ b) = Text.bytes a ++ Text.bytes b :=
  List.flatMap_append

theorem bytes_singleton (c : Char) : Text.bytes [c] = String.utf8EncodeChar c := List.append_nil _

/-- The bytes of a character, escaped, stand for its bytes. -/
theorem reads_escapeCharacter (index : ℕ) (c : Char) :
    Reads (latin1 (Text.bytes (escapeCharacter index c)))
      ((String.utf8EncodeChar c).map UInt8.toNat) := by
  rcases escapeCharacter_cases index c with
    ⟨d, heq, hd, hbreak, hu, hbytes⟩ | ⟨heq, hback, hbreak, -⟩
  · have hunit : escapedUnit d < 256 := by
      unfold escapedUnit
      split_ifs <;> omega
    have hascii : ∀ e ∈ ['\\', d], e.toNat < 128 := by
      intro e he
      rcases List.mem_cons.mp he with rfl | he
      · decide
      · rw [List.mem_singleton.mp he]
        exact hd
    rw [heq, latin1_bytes hascii, hbytes, List.map_singleton, UInt8.toNat_ofNat',
      Nat.mod_eq_of_lt hunit]
    exact .escaped hbreak hu
  · rw [heq, bytes_singleton, ← map_toNat_latin1]
    refine .plain fun d hd => ?_
    rcases mem_latin1_encodeChar hd with rfl | hwide
    · exact ⟨hback, hbreak⟩
    · have hne : ∀ e : Char, e.toNat < 128 → d ≠ e := by
        rintro e he rfl
        omega
      exact ⟨hne '\\' (by decide), by
        simp [isBreak, hne '\n' (by decide), hne '\r' (by decide)]⟩

theorem reads_escapePropertiesValue (value : Text) :
    Reads (latin1 (Text.bytes (escapePropertiesValue value)))
      ((Text.bytes value).map UInt8.toNat) := by
  have hfrom : ∀ (value : Text) (index : ℕ),
      Reads (latin1 (Text.bytes ((value.zipIdx index).flatMap fun (character, index) =>
        escapeCharacter index character))) ((Text.bytes value).map UInt8.toNat) := by
    intro value
    induction value with
    | nil => exact fun _ => .nil
    | cons c value ih =>
      intro index
      have hbytes : Text.bytes (c :: value) = String.utf8EncodeChar c ++ Text.bytes value := rfl
      rw [List.zipIdx_cons, List.flatMap_cons, bytes_append, latin1_append, hbytes, List.map_append]
      exact (reads_escapeCharacter index c).append (ih (index + 1))
  exact hfrom value 0

/-- An escaped value does not begin with a blank. -/
theorem head_escapePropertiesValue (value : Text) :
    ∀ c ∈ (latin1 (Text.bytes (escapePropertiesValue value))).head?, isBlank c = false := by
  cases value with
  | nil => nofun
  | cons c value =>
    have hcons : escapePropertiesValue (c :: value) = escapeCharacter 0 c ++
        (value.zipIdx 1).flatMap fun (character, index) => escapeCharacter index character := by
      rw [escapePropertiesValue, List.zipIdx_cons, List.flatMap_cons]
    rw [hcons, bytes_append, latin1_append]
    rcases escapeCharacter_cases 0 c with ⟨d, heq, -⟩ | ⟨heq, -, -, hblank⟩
    · rw [heq]
      rintro e ⟨⟩
      rfl
    · rw [heq, bytes_singleton]
      obtain ⟨first, rest, hfirst⟩ := List.exists_cons_of_length_pos (Utf8.length_encodeChar_pos c)
      have hmem : Char.ofNat first.toNat ∈ latin1 (String.utf8EncodeChar c) :=
        List.mem_map.mpr ⟨first, by simp [hfirst], rfl⟩
      rw [hfirst]
      rintro e ⟨⟩
      show isBlank (Char.ofNat first.toNat) = false
      rcases mem_latin1_encodeChar hmem with heq | hwide
      · rw [heq]
        exact hblank rfl
      · have hne : ∀ d : Char, d.toNat < 128 → Char.ofNat first.toNat ≠ d := by
          intro d hd heq
          rw [heq] at hwide
          omega
        simp [isBlank, hne ' ' (by decide), hne '\t' (by decide), hne '\x0c' (by decide)]

/-! ## The block -/

theorem splitKey_comment : splitKey false comment = (['#'], ' ' :: added) := rfl

theorem dropSeparator_added : dropSeparator (' ' :: added) = added := rfl

theorem comment_eq : comment = '#' :: ' ' :: added := rfl

theorem plain_added : ∀ c ∈ added, c.toNat < 128 ∧ c ≠ '\\' ∧ isBreak c = false := by
  have hall : added.all (fun c => c.toNat < 128 && (c ≠ '\\' && !isBreak c)) = true := rfl
  simpa using List.all_eq_true.mp hall

theorem plain_comment : ∀ c ∈ comment, c.toNat < 128 ∧ c ≠ '\\' ∧ isBreak c = false := by
  rw [comment_eq]
  exact List.forall_mem_cons.mpr ⟨by decide, List.forall_mem_cons.mpr ⟨by decide, plain_added⟩⟩

/-- A property as Gradle's reader sees it. -/
def assignment (name value : Text) : Text :=
  propertyKey name ++ '=' :: latin1 (Text.bytes (escapePropertiesValue value))

/-- Whether a character can stand in a key as it is. -/
def isPlain (c : Char) : Bool := c.toNat < 128 && !endsKey c && c ≠ '\\' && !isBreak c

def PlainName (name : Text) : Prop :=
  ∀ c ∈ propertyKey name, c.toNat < 128 ∧ endsKey c = false ∧ c ≠ '\\' ∧ isBreak c = false

theorem plainName_of_all {name : Text} (h : (propertyKey name).all isPlain = true) :
    PlainName name := by
  intro c hc
  have hplain := List.all_eq_true.mp h c hc
  simpa [isPlain, and_assoc] using hplain

theorem plainName_of_mem {keystorePath : Text} {inputs : AndroidSigningInputs}
    {pair : Text × Text} (h : pair ∈ signingValues keystorePath inputs) : PlainName pair.1 := by
  simp only [signingValues, List.mem_cons, List.not_mem_nil, or_false] at h
  rcases h with rfl | rfl | rfl | rfl <;> exact plainName_of_all rfl

theorem entry_of_assignment {name : Text} (h : PlainName name) (value : Text) :
    entry (assignment name value) =
      some (ofText (propertyKey name), (Text.bytes value).map UInt8.toNat) := by
  rw [ofText_ascii fun c hc => (h c hc).1]
  exact entry_assignment (fun c hc => ⟨(h c hc).2.1, (h c hc).2.2.1⟩)
    (reads_escapePropertiesValue value) (head_escapePropertiesValue value)

/-- Each property is one logical line. -/
theorem run_assignment {name : Text} (h : PlainName name) (value : Text) (lines : List Text) :
    run ⟨lines, .start⟩ (assignment name value ++ ['\n']) =
      ⟨lines ++ [assignment name value], .start⟩ := by
  have hclosed : Closed (assignment name value) :=
    (Closed.of_plain fun c hc => (h c hc).2.2).append
      (.plain (by decide) rfl (reads_escapePropertiesValue value).closed)
  exact run_whole hclosed (by decide) rfl lines

theorem run_assignments {pairs : List (Text × Text)} (h : ∀ pair ∈ pairs, PlainName pair.1)
    (lines : List Text) :
    run ⟨lines, .start⟩ (pairs.flatMap fun pair => assignment pair.1 pair.2 ++ ['\n']) =
      ⟨lines ++ pairs.map fun pair => assignment pair.1 pair.2, .start⟩ := by
  induction pairs generalizing lines with
  | nil => simp [run]
  | cons pair pairs ih =>
    obtain ⟨hpair, hpairs⟩ := List.forall_mem_cons.mp h
    rw [List.flatMap_cons, run_append, run_assignment hpair, ih hpairs, List.map_cons,
      List.append_assoc, List.singleton_append]

/-- The appended text as Gradle's reader sees it. -/
theorem latin1_block (keystorePath : Text) (inputs : AndroidSigningInputs) :
    latin1 (Text.bytes (gradleInjectedSigningProperties keystorePath inputs)) =
      '\n' :: (comment ++ ['\n']) ++ (signingValues keystorePath inputs).flatMap fun pair =>
        assignment pair.1 pair.2 ++ ['\n'] := by
  have hlines : ∀ pairs : List (Text × Text), (∀ pair ∈ pairs, PlainName pair.1) →
      latin1 (Text.bytes (pairs.flatMap fun (name, value) =>
        propertyKey name ++ '=' :: escapePropertiesValue value ++ ['\n'])) =
      pairs.flatMap fun pair => assignment pair.1 pair.2 ++ ['\n'] := by
    intro pairs h
    induction pairs with
    | nil => rfl
    | cons pair pairs ih =>
      obtain ⟨hpair, hpairs⟩ := List.forall_mem_cons.mp h
      have hequals : latin1 (String.utf8EncodeChar '=') = ['='] := latin1_encodeChar (by decide)
      have hfeed : latin1 (String.utf8EncodeChar '\n') = ['\n'] := latin1_encodeChar (by decide)
      rw [List.flatMap_cons, List.flatMap_cons, bytes_append, latin1_append, ih hpairs]
      refine congrArg (· ++ _) ?_
      have hequal : propertyKey pair.1 ++ '=' :: escapePropertiesValue pair.2 ++ ['\n'] =
          propertyKey pair.1 ++ (['='] ++ escapePropertiesValue pair.2) ++ ['\n'] := rfl
      show latin1 (Text.bytes (propertyKey pair.1 ++ '=' :: escapePropertiesValue pair.2 ++
        ['\n'])) = _
      rw [hequal, bytes_append, bytes_append, bytes_append, bytes_singleton,
        bytes_singleton, latin1_append, latin1_append, latin1_append, hequals, hfeed,
        latin1_bytes fun c hc => (hpair c hc).1]
      rfl
  have hascii : ∀ c ∈ '\n' :: comment ++ ['\n'], c.toNat < 128 := by
    intro c hc
    rcases List.mem_append.mp hc with hc | hc
    · rcases List.mem_cons.mp hc with rfl | hc
      · decide
      · exact (plain_comment c hc).1
    · rw [List.mem_singleton.mp hc]
      decide
  have hhead : latin1 (Text.bytes ('\n' :: comment ++ ['\n'])) = '\n' :: (comment ++ ['\n']) := by
    rw [latin1_bytes hascii, List.cons_append]
  rw [gradleInjectedSigningProperties, bytes_append, latin1_append, hhead,
    hlines _ fun pair hpair => plainName_of_mem hpair]

theorem mapM_assignments {pairs : List (Text × Text)} (h : ∀ pair ∈ pairs, PlainName pair.1) :
    (pairs.map fun pair => assignment pair.1 pair.2).mapM entry =
      some (pairs.map fun (name, value) =>
        (ofText (propertyKey name), (Text.bytes value).map UInt8.toNat)) := by
  induction pairs with
  | nil => rfl
  | cons pair pairs ih =>
    obtain ⟨hpair, hpairs⟩ := List.forall_mem_cons.mp h
    rw [List.map_cons, List.mapM_cons, entry_of_assignment hpair, ih hpairs]
    rfl

/-! ## After the original -/

section After

variable {r : Reader} {line : Text} (keystorePath : Text) (inputs : AndroidSigningInputs)

theorem run_block_of_none (h : carried r = none) :
    finish (run r (latin1 (Text.bytes (gradleInjectedSigningProperties keystorePath inputs)))) =
      finish r ++ (signingValues keystorePath inputs).map fun pair => assignment pair.1 pair.2 := by
  have hcomment : run ⟨finish r, .start⟩ (comment ++ ['\n']) = ⟨finish r, .start⟩ :=
    run_comment (fun c hc => (plain_comment c (List.mem_cons_of_mem _ hc)).2.2) _
  rw [latin1_block, List.cons_append, run_cons, step_of_not_carried h, run_append, hcomment,
    run_assignments fun pair hpair => plainName_of_mem hpair, finish_start]

theorem run_block_of_some (h : carried r = some line) :
    finish (run r (latin1 (Text.bytes (gradleInjectedSigningProperties keystorePath inputs)))) =
      r.lines ++ [line ++ comment] ++
        (signingValues keystorePath inputs).map fun pair => assignment pair.1 pair.2 := by
  have hclosed : Closed comment := .of_plain fun c hc => (plain_comment c hc).2
  have hcomment : run ⟨r.lines, .continued line false⟩ (comment ++ ['\n']) =
      ⟨r.lines ++ [line ++ comment], .start⟩ :=
    run_continued hclosed (by decide) rfl _ _
  rw [latin1_block, List.cons_append, run_cons, (step_of_carried h).1, run_append, hcomment,
    run_assignments fun pair hpair => plainName_of_mem hpair, finish_start]

end After

/-- The entry of a line that the comment is joined to. -/
def joined (line : Text) (e : Units × Units) : Units × Units :=
  if (splitKey false line).2 = [] then (e.1 ++ ofText "#", ofText added)
  else (e.1, e.2 ++ ofText comment)

theorem convert_added : convert added = some (ofText added) := by
  rw [ofText_ascii fun c hc => (plain_added c hc).1]
  exact (Reads.plain fun c hc => (plain_added c hc).2).convert

theorem entry_joined {line : Text} (hclosed : Closed line) {e : Units × Units}
    (he : entry line = some e) : entry (line ++ comment) = some (joined line e) := by
  obtain ⟨key, hkey, he⟩ := Option.bind_eq_some_iff.mp he
  obtain ⟨element, helement, rfl⟩ := Option.map_eq_some_iff.mp he
  unfold entry joined
  by_cases hrest : (splitKey false line).2 = []
  · -- The comment's mark goes to the key, which ends at the blank after it.
    have hall := splitKey_of_closed hclosed hrest []
    rw [List.append_nil] at hall
    rw [hall] at hkey
    have hmark : convert (line ++ ['#']) = some (key ++ ofText "#") :=
      convert_append hclosed (by simp) (by simpa [splitKey] using hkey)
    rw [if_pos hrest, splitKey_of_closed hclosed hrest comment, splitKey_comment]
    simp only [hmark, dropSeparator_added, convert_added, Option.bind_some, Option.map_some]
  · have happend : dropSeparator ((splitKey false line).2 ++ comment) =
        dropSeparator (splitKey false line).2 ++ comment := by
      rw [comment_eq]
      exact dropSeparator_append rfl rfl _ _
    rw [if_neg hrest, splitKey_of_rest hrest, hkey, happend,
      convert_append hclosed.splitKey_rest.dropSeparator (fun c hc => (plain_comment c hc).2.1)
        helement, ← ofText_ascii fun c hc => (plain_comment c hc).1]
    rfl

theorem mark_notMem (key : Units) : key ++ ofText "#" ∉ signingKeys := by
  intro hkey
  have hlast : ∀ key ∈ signingKeys, key.getLast? ≠ some 35 := by decide +kernel
  exact hlast _ hkey List.getLast?_concat

/-- What the joined line changes cannot be seen exactly when the lines before say the same. -/
theorem unseen_iff {before : List (Units × Units)} {line : Text} {e : Units × Units}
    (he : entry line = some e) :
    (∀ key ∉ signingKeys, put (ofEntries before) [joined line e] key =
      put (ofEntries before) [e] key) ↔ Unseen before line e.1 := by
  have hcomment : ofText comment ≠ [] := by
    rw [comment_eq]
    simp [ofText, utf16]
  have hmark : ofText "#" ≠ [] := by decide
  obtain ⟨key, element⟩ := e
  have hnotMem := mark_notMem key
  unfold joined Unseen
  -- What the texts are does not matter from here on.
  generalize ofText comment = comment at *
  generalize ofText added = added
  generalize ofText "#" = mark at *
  by_cases hrest : (splitKey false line).2 = []
  · obtain rfl : element = [] := by
      obtain ⟨_, -, he⟩ := Option.bind_eq_some_iff.mp he
      rw [hrest] at he
      cases he
      rfl
    have hne : key ++ mark ≠ key := by simpa using hmark
    rw [if_pos hrest, if_pos hrest]
    refine (update_key_iff hne).trans ?_
    rw [or_iff_right hnotMem, and_comm]
  · have hne : element ++ comment ≠ element := by simpa using hcomment
    rw [if_neg hrest, if_neg hrest]
    exact update_element_iff hne

/-! ## The injection -/

theorem apply_workspaceOf (original : Option (List UInt8)) (keystorePath : Text)
    (inputs : AndroidSigningInputs) :
    GradleSigningInjection.apply ⟨some keystorePath, true, none⟩ none inputs
        (workspaceOf original) =
      (.injected ⟨original⟩, { workspaceOf original with
        properties := .file (original.getD [] ++
          Text.bytes (gradleInjectedSigningProperties keystorePath inputs)) }) := by
  cases original <;> rfl

theorem drop_workspaceOf (original : Option (List UInt8)) (left : Stat) :
    GradleSigningInjection.drop ⟨original⟩ none { workspaceOf original with properties := left } =
      workspaceOf original := by
  cases original <;> rfl

theorem written_eq_given_iff (keystorePath : Text) (inputs : AndroidSigningInputs) :
    writtenEntries keystorePath inputs = givenEntries keystorePath inputs ↔
      ∀ pair ∈ signingValues keystorePath inputs, ∀ c ∈ pair.2, c.toNat < 128 := by
  rw [writtenEntries, givenEntries, List.map_inj_left]
  refine forall₂_congr fun pair _ => ?_
  rw [← bytes_eq_ofText_iff, Prod.mk.injEq]
  exact and_iff_right rfl

theorem nodup_signingKeys : signingKeys.Nodup := by
  have hlengths : (signingKeys.map List.length).Nodup := by decide +kernel
  exact hlengths.of_map

section Loading

variable {bytes : List UInt8} {entries : List (Units × Units)} (keystorePath : Text)
  (inputs : AndroidSigningInputs)

theorem load_of_none (h : carried (run begin (latin1 bytes)) = none)
    (hload : load bytes = some entries) :
    load (bytes ++ Text.bytes (gradleInjectedSigningProperties keystorePath inputs)) =
      some (entries ++ writtenEntries keystorePath inputs) := by
  unfold load at hload ⊢
  rw [latin1_append, run_append, run_block_of_none keystorePath inputs h, List.mapM_append, hload,
    mapM_assignments fun pair hpair => plainName_of_mem hpair]
  rfl

/-- An open line is the last one, and the comment is joined to it. -/
theorem load_of_some {line : Text} (h : carried (run begin (latin1 bytes)) = some line)
    (hload : load bytes = some entries) :
    ∃ before e, (run begin (latin1 bytes)).lines.mapM entry = some before ∧
      entry line = some e ∧ entries = before ++ [e] ∧
      load (bytes ++ Text.bytes (gradleInjectedSigningProperties keystorePath inputs)) =
        some (before ++ [joined line e] ++ writtenEntries keystorePath inputs) := by
  unfold load at hload ⊢
  rw [(step_of_carried h).2, List.mapM_append] at hload
  obtain ⟨before, hbefore, hlast⟩ := Option.bind_eq_some_iff.mp hload
  obtain ⟨last, hlast, hentries⟩ := Option.bind_eq_some_iff.mp hlast
  rw [List.mapM_cons, List.mapM_nil] at hlast
  obtain ⟨e, he, hnil⟩ := Option.bind_eq_some_iff.mp hlast
  cases hnil
  cases hentries
  refine ⟨before, e, hbefore, he, rfl, ?_⟩
  rw [latin1_append, run_append, run_block_of_some keystorePath inputs h, List.mapM_append,
    List.mapM_append, hbefore, List.mapM_cons, entry_joined (closed_of_carried h) he,
    mapM_assignments fun pair hpair => plainName_of_mem hpair]
  rfl

/-- Setting what is written is setting what is given when both are the same on what is not set. -/
theorem put_written_iff {p q : Units → Option Units} :
    put p (writtenEntries keystorePath inputs) = put q (givenEntries keystorePath inputs) ↔
      (∀ pair ∈ signingValues keystorePath inputs, ∀ c ∈ pair.2, c.toNat < 128) ∧
        ∀ key ∉ signingKeys, p key = q key := by
  have hkeys : (writtenEntries keystorePath inputs).map Prod.fst = signingKeys := rfl
  have hgiven : (givenEntries keystorePath inputs).map Prod.fst = signingKeys := rfl
  rw [put_eq_put_iff (hkeys.trans hgiven.symm) (hkeys ▸ nodup_signingKeys), hkeys,
    written_eq_given_iff]

end Loading

/-- The properties are read as given and the others as before exactly when the values are ASCII
text and the file does not end in the middle of a line. -/
theorem injects_iff (original : Option (List UInt8)) (keystorePath : Text)
    (inputs : AndroidSigningInputs) :
    Injects original keystorePath inputs ↔
      load (original.getD []) = none ∨
      (∀ pair ∈ signingValues keystorePath inputs, ∀ c ∈ pair.2, c.toNat < 128) ∧
        EndsWell (original.getD []) := by
  have hreads : Injects original keystorePath inputs ↔
      ∀ entries, load (original.getD []) = some entries → ∃ written,
        load (original.getD [] ++
          Text.bytes (gradleInjectedSigningProperties keystorePath inputs)) = some written ∧
        ofEntries written = put (ofEntries entries) (givenEntries keystorePath inputs) := by
    constructor
    · rintro ⟨injection, content, happly, hload, -⟩
      rw [apply_workspaceOf] at happly
      cases happly
      exact hload
    · intro hload
      exact ⟨_, _, apply_workspaceOf original keystorePath inputs, hload,
        drop_workspaceOf original⟩
  rw [hreads]
  generalize original.getD [] = bytes
  cases hload : load bytes with
  | none => simp
  | some entries =>
    rw [or_iff_right (by simp)]
    have hone : (∀ entries', some entries = some entries' → ∃ written,
        load (bytes ++ Text.bytes (gradleInjectedSigningProperties keystorePath inputs)) =
          some written ∧
        ofEntries written = put (ofEntries entries') (givenEntries keystorePath inputs)) ↔
        ∃ written,
          load (bytes ++ Text.bytes (gradleInjectedSigningProperties keystorePath inputs)) =
            some written ∧
          ofEntries written = put (ofEntries entries) (givenEntries keystorePath inputs) :=
      ⟨fun h => h entries rfl, by rintro h _ ⟨⟩; exact h⟩
    rw [hone]
    cases hcarried : carried (run begin (latin1 bytes)) with
    | none =>
      have hends : EndsWell bytes := by
        intro line hline
        rw [hcarried] at hline
        cases hline
      rw [load_of_none keystorePath inputs hcarried hload, and_iff_left hends]
      have hput : ofEntries (entries ++ writtenEntries keystorePath inputs) =
          put (ofEntries entries) (writtenEntries keystorePath inputs) := put_append _ _ _
      simp only [Option.some.injEq, exists_eq_left', hput, put_written_iff, implies_true, and_true]
    | some line =>
      obtain ⟨before, e, hbefore, he, rfl, hwritten⟩ :=
        load_of_some keystorePath inputs hcarried hload
      have hends : EndsWell bytes ↔ Unseen before line e.1 := by
        unfold EndsWell
        rw [hcarried, hbefore]
        constructor
        · exact fun h => h line rfl before e rfl he
        · rintro h _ ⟨⟩ _ e' ⟨⟩ he'
          rw [he] at he'
          cases he'
          exact h
      rw [hwritten, hends, ← unseen_iff he]
      have hput : ofEntries (before ++ [joined line e] ++ writtenEntries keystorePath inputs) =
          put (put (ofEntries before) [joined line e]) (writtenEntries keystorePath inputs) := by
        rw [ofEntries, put_append, put_append]
        rfl
      have horiginal : ofEntries (before ++ [e]) = put (ofEntries before) [e] := put_append _ _ _
      simp only [Option.some.injEq, exists_eq_left', hput, horiginal, put_written_iff]

/-- A file that ends in a backslash: the comment becomes part of its last value. -/
theorem not_injects_openLine :
    ¬ Injects (some (Text.bytes "a=b\\")) "/tmp/managed-keystore.jks"
      ⟨"secret", "upload", "secret"⟩ := by
  rintro ⟨injection, content, happly, hload, -⟩
  rw [apply_workspaceOf] at happly
  cases happly
  have horiginal : load (Text.bytes "a=b\\") = some [(ofText "a", ofText "b")] := by
    decide +kernel
  obtain ⟨written, hwritten, hentries⟩ := hload _ horiginal
  -- The line of `a` is still open, so the comment is joined to it.
  have hopen : carried (run begin (latin1 (Text.bytes "a=b\\"))) = some "a=b" := by decide +kernel
  obtain ⟨before, e, -, -, hlines, hblock⟩ := load_of_some _ _ hopen horiginal
  obtain ⟨rfl, rfl⟩ : before = [] ∧ e = (ofText "a", ofText "b") := by
    simpa [List.append_eq_singleton_iff] using hlines.symm
  rw [Option.getD_some, hblock] at hwritten
  cases hwritten
  rw [ofEntries, put_append] at hentries
  have hkey : ofText "a" ∉ signingKeys := by decide +kernel
  have hsame := ((put_written_iff _ _).mp hentries).2 _ hkey
  revert hsame
  decide +kernel

end OoreBuild.GradleSigning
