import OoreBuild.Lib.Text

/-!
# References in commands and values

A version 2 value may hold `vars.NAME`, `secrets.NAME` and `flavor` expressions, each between
`opening` and `closing`. `parseExpressions` is the parser the file's own values go through;
`parseSecretReferences` is the parser the runner applies to the commands and environment values
of a plan, where only secrets are left.

The parsers of the source return byte ranges. Here an expression comes with the text before it
and the text it covers, so that the value read is the concatenation of what is found
(`foundText_append_tail`), and a range is the lengths of the texts before it.
-/

namespace OoreBuild

open Text

/-- The start of an expression. -/
def opening : Text := "$\x7b\x7b"

/-- The end of an expression. -/
def closing : Text := "\x7d\x7d"

/-- Whether a pipeline environment key matches `[A-Za-z_][A-Za-z0-9_]*`. -/
def isValidPipelineEnvKey : Text → Bool
  | [] => false
  | first :: rest =>
    (first == '_' || isAsciiAlphabetic first) &&
      rest.all fun c => c == '_' || isAsciiAlphanumeric c

/-! ## Scanning -/

/-- An expression, the text between the previous one and it, and the text it covers. -/
structure Found (α : Type) where
  before : Text
  raw : Text
  expression : α
  deriving DecidableEq, Repr

def unterminated : Text := "has an unterminated $\x7b\x7b expression"

section

variable {α : Type}

/-- The loop of the parsers over the text that is left, where `read` reads a trimmed body. Every
turn consumes an opening, so as many turns as there are characters are enough. -/
def scanFrom (read : Text → Except Text α) : ℕ → Text → Except Text (List (Found α) × Text)
  | 0, text => .ok ([], text)
  | fuel + 1, text =>
    match splitFirst opening text with
    | none => .ok ([], text)
    | some (before, rest) =>
      match splitFirst closing rest with
      | none => .error unterminated
      | some (body, rest) =>
        match read (trim body) with
        | .error error => .error error
        | .ok expression =>
          match scanFrom read fuel rest with
          | .error error => .error error
          | .ok (found, tail) =>
            .ok (⟨before, opening ++ body ++ closing, expression⟩ :: found, tail)

/-- Every expression of the text in order, and the text after the last one. -/
def scan (read : Text → Except Text α) (text : Text) : Except Text (List (Found α) × Text) :=
  scanFrom read (text.length + 1) text

variable {read : Text → Except Text α}

/-- Turns that are left over change nothing. -/
theorem scanFrom_of_lt {text : Text} {fuel fuel' : ℕ} (h : text.length < fuel)
    (h' : text.length < fuel') : scanFrom read fuel text = scanFrom read fuel' text := by
  induction fuel generalizing text fuel' with
  | zero => omega
  | succ fuel ih =>
    obtain ⟨fuel', rfl⟩ := Nat.exists_eq_succ_of_ne_zero (Nat.ne_of_gt (Nat.zero_lt_of_lt h'))
    unfold scanFrom
    cases hopen : splitFirst opening text with
    | none => rfl
    | some split =>
      cases hclose : splitFirst closing split.2 with
      | none => simp only [hclose]
      | some body =>
        have hlength : body.2.length < text.length := by
          have hopening := length_of_splitFirst hopen
          have hclosing := length_of_splitFirst hclose
          have : opening.length = 3 := rfl
          omega
        have hrest : scanFrom read fuel body.2 = scanFrom read fuel' body.2 :=
          ih (by omega) (by omega)
        simp only [hclose, hrest]

theorem scan_of_none {text : Text} (h : splitFirst opening text = none) :
    scan read text = .ok ([], text) := by
  unfold scan scanFrom
  rw [h]

/-- A turn of the loop. -/
theorem scan_of_some {text before after body rest : Text}
    (hopen : splitFirst opening text = some (before, after))
    (hclose : splitFirst closing after = some (body, rest)) :
    scan read text = read (trim body) >>= fun expression => scan read rest >>= fun found =>
      .ok (⟨before, opening ++ body ++ closing, expression⟩ :: found.1, found.2) := by
  have hlength : rest.length < text.length := by
    have hopening := length_of_splitFirst hopen
    have hclosing := length_of_splitFirst hclose
    have : opening.length = 3 := rfl
    omega
  have hrest : scanFrom read text.length rest = scan read rest :=
    scanFrom_of_lt hlength (Nat.lt_succ_self _)
  unfold scan
  rw [scanFrom, hopen]
  simp only [hclose, hrest]
  cases read (trim body) with
  | error error => rfl
  | ok expression =>
    unfold scan
    cases scanFrom read (rest.length + 1) rest with
    | error error => rfl
    | ok found => rfl

/-- What is found first. -/
theorem scan_eq_ok {text tail : Text} {found : List (Found α)}
    (h : scan read text = .ok (found, tail)) :
    (splitFirst opening text = none ∧ found = [] ∧ tail = text) ∨
    ∃ before after body rest expression more,
      splitFirst opening text = some (before, after) ∧
      splitFirst closing after = some (body, rest) ∧ read (trim body) = .ok expression ∧
      scan read rest = .ok (more, tail) ∧
      found = ⟨before, opening ++ body ++ closing, expression⟩ :: more := by
  cases hopen : splitFirst opening text with
  | none =>
    rw [scan_of_none hopen] at h
    cases h
    exact .inl ⟨rfl, rfl, rfl⟩
  | some split =>
    obtain ⟨before, after⟩ := split
    right
    cases hclose : splitFirst closing after with
    | none =>
      unfold scan scanFrom at h
      rw [hopen] at h
      simp only [hclose] at h
      cases h
    | some split =>
      obtain ⟨body, rest⟩ := split
      rw [scan_of_some hopen hclose] at h
      cases hread : read (trim body) with
      | error error =>
        rw [hread] at h
        cases h
      | ok expression =>
        rw [hread] at h
        cases hrest : scan read rest with
        | error error =>
          rw [hrest] at h
          cases h
        | ok more =>
          rw [hrest] at h
          cases h
          exact ⟨before, after, body, rest, expression, more.1, rfl, hclose, hread, hrest, rfl⟩

/-- The text that is covered by what is found. -/
def foundText (found : List (Found α)) : Text := found.flatMap fun found => found.before ++ found.raw

/-- What is found and the text after it make up the text. -/
theorem foundText_append_tail {text tail : Text} {found : List (Found α)}
    (h : scan read text = .ok (found, tail)) : foundText found ++ tail = text := by
  induction found generalizing text with
  | nil =>
    rcases scan_eq_ok h with ⟨-, -, rfl⟩ | ⟨_, _, _, _, _, _, -, -, -, -, hfound⟩
    · rfl
    · cases hfound
  | cons first more ih =>
    rcases scan_eq_ok h with ⟨-, hfound, -⟩ | ⟨before, after, body, rest, expression, more', hopen,
      hclose, -, hrest, hfound⟩
    · cases hfound
    · cases hfound
      have hmore : more.flatMap (fun found => found.before ++ found.raw) ++ tail = rest := ih hrest
      rw [splitFirst_eq_some hopen, splitFirst_eq_some hclose, ← hmore]
      simp [foundText]

theorem splitFirst_opening {before : Text} (h : ¬ opening <:+: before) (after : Text) :
    splitFirst opening (before ++ (opening ++ after)) = some (before, after) :=
  splitFirst_needle (by decide) h after

/-- An expression that is read on its own is read the same after text that holds none. -/
theorem scan_append {before raw : Text} {expression : α}
    (hraw : scan read raw = .ok ([⟨[], raw, expression⟩], []))
    (hbefore : ¬ opening <:+: before) (rest : Text) :
    scan read (before ++ (raw ++ rest)) = scan read rest >>= fun found =>
      .ok (⟨before, raw, expression⟩ :: found.1, found.2) := by
  rcases scan_eq_ok hraw with ⟨-, hfound, -⟩ | ⟨before', after, body, last, expression', more, hopen,
    hclose, hread, -, hfound⟩
  · cases hfound
  · cases hfound
    have hafter : after = body ++ closing := by
      have := splitFirst_eq_some hopen
      simpa using this.symm
    have hlast : last = [] := by
      have := splitFirst_eq_some hclose
      rw [hafter] at this
      simpa using this
    rw [hafter, hlast] at hclose
    have hopen' : splitFirst opening (before ++ (opening ++ body ++ closing ++ rest)) =
        some (before, body ++ closing ++ rest) := by
      rw [List.append_assoc opening, List.append_assoc opening]
      exact splitFirst_opening hbefore _
    rw [scan_of_some hopen' (splitFirst_append hclose rest), hread]
    rfl

end

/-! ## Expressions -/

inductive Expression where
  | secret (name : Text)
  | var (name : Text)
  | flavor
  deriving DecidableEq, Repr

abbrev Piece := Found Expression

def unsupportedExpression (body : Text) : Text :=
  "has unsupported expression '$\x7b\x7b " ++ body ++
    " \x7d\x7d'; use $\x7b\x7b vars.NAME \x7d\x7d, $\x7b\x7b secrets.NAME \x7d\x7d or $\x7b\x7b flavor \x7d\x7d"

/-- The name after `scope`, when the body is that scope followed by a valid name. -/
def scopedName (scope body : Text) : Option Text :=
  (stripPrefix scope body).filter isValidPipelineEnvKey

/-- What the trimmed body of an expression refers to. -/
def readExpression (body : Text) : Except Text Expression :=
  if body = "flavor" then .ok .flavor
  else match scopedName "secrets." body with
    | some name => .ok (.secret name)
    | none =>
      match scopedName "vars." body with
      | some name => .ok (.var name)
      | none => .error (unsupportedExpression body)

def parseExpressions (text : Text) : Except Text (List Piece × Text) := scan readExpression text

/-! ## Secret references -/

abbrev SecretReference := Found Text

def unsupportedSecretExpression (body : Text) : Text :=
  "has unsupported expression '$\x7b\x7b " ++ body ++
    " \x7d\x7d'; only $\x7b\x7b secrets.NAME \x7d\x7d is supported"

/-- The name of the secret that the trimmed body refers to. -/
def readSecret (body : Text) : Except Text Text :=
  match scopedName "secrets." body with
  | some name => .ok name
  | none => .error (unsupportedSecretExpression body)

/-- Every expression of the text, which must be a secret reference, and the text after the last
one. -/
def parseSecretReferences (text : Text) : Except Text (List SecretReference × Text) :=
  scan readSecret text

end OoreBuild
