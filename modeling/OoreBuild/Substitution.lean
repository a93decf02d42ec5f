import OoreBuild.Spending

/-!
# Plain substitution

What a reference stands for, said without a cache, a chain or a budget: a var stands for what its
value becomes (`substitute`). `fitted` is the same for values that vars do not make too long, and
`MeetsCycle` says when reading a text from left to right comes to a var that refers back to
itself before it comes to anything else that is wrong. A var whose value fits is on no cycle
(`not_refers_self`).
-/

namespace OoreBuild

open Text Relation

/-- The flavor where there is one. -/
def FlavorScope.text : FlavorScope → Option Text
  | .value _ flavor => some flavor
  | .noFlavors => none
  | .outside => none

section

variable (vars : List (Text × Text)) (flavor : Option Text)

/-! ## What a text becomes -/

/-- What an expression is replaced by, where `value` is what the value of a var becomes. -/
def substitutePiece (value : Text → Option Text) (piece : Piece) : Option Text :=
  match piece.expression with
  | .secret _ => some piece.raw
  | .flavor => flavor
  | .var name => (vars.lookup name).bind value

def substitutePieces (value : Text → Option Text) : List Piece → Option Text
  | [] => some []
  | piece :: rest =>
    (substitutePiece vars flavor value piece).bind fun added =>
      (substitutePieces value rest).map fun more => piece.before ++ added ++ more

def substituteText (value : Text → Option Text) (text : Text) : Option Text :=
  match parseExpressions text with
  | .error _ => none
  | .ok (pieces, tail) => (substitutePieces vars flavor value pieces).map (· ++ tail)

/-- Plain substitution of vars and the flavor, through vars nested less than `depth` deep. Secret
references are left as written. -/
def substitute : ℕ → Text → Option Text
  | 0, _ => none
  | depth + 1, text => substituteText vars flavor (substitute depth) text

/-- Substitution where no text gets longer than vars may make it. -/
def fitted : ℕ → Text → Option Text
  | 0, _ => none
  | depth + 1, text =>
    (substituteText vars flavor (fitted depth) text).filter fun out => !isTooLong text out

/-! ## Cycles -/

/-- The text refers to the var, and everything before this reference becomes some text. -/
def ReadsUpTo (text name : Text) : Prop :=
  ∃ pieces tail done piece rest depth out, parseExpressions text = .ok (pieces, tail) ∧
    pieces = done ++ piece :: rest ∧ piece.expression = .var name ∧
    substitutePieces vars flavor (fitted vars flavor depth) done = some out ∧
    isTooLong text out = false

/-- Reading the text, which the vars of `chain` have led to, comes to a var that refers back to
itself before it comes to an error. -/
inductive MeetsCycle : List Text → Text → Prop
  | back {chain : List Text} {text name : Text} (reads : ReadsUpTo vars flavor text name)
      (visited : name ∈ chain) : MeetsCycle chain text
  | into {chain : List Text} {text name value : Text} (reads : ReadsUpTo vars flavor text name)
      (fresh : name ∉ chain) (defined : vars.lookup name = some value)
      (inner : MeetsCycle (chain ++ [name]) value) : MeetsCycle chain text

end

/-- The text refers to the var. -/
def Mentions (text name : Text) : Prop :=
  ∃ pieces tail piece, parseExpressions text = .ok (pieces, tail) ∧ piece ∈ pieces ∧
    piece.expression = .var name

/-- The value of the first var refers to the second. -/
def Refers (vars : List (Text × Text)) (name other : Text) : Prop :=
  ∃ value, vars.lookup name = some value ∧ Mentions value other

variable {vars : List (Text × Text)} {flavor : Option Text} {text name : Text}

theorem ReadsUpTo.mentions (h : ReadsUpTo vars flavor text name) : Mentions text name := by
  obtain ⟨pieces, tail, done, piece, rest, depth, out, hparse, hpieces, hvar, -, -⟩ := h
  refine ⟨pieces, tail, piece, hparse, ?_, hvar⟩
  rw [hpieces]
  simp

/-! ## Rules for substitution -/

section

variable {value value' : Text → Option Text}

theorem substitutePiece_var {piece : Piece} (h : piece.expression = .var name) :
    substitutePiece vars flavor value piece = (vars.lookup name).bind value := by
  rw [substitutePiece, h]

theorem substitutePieces_append (a b : List Piece) :
    substitutePieces vars flavor value (a ++ b) =
      (substitutePieces vars flavor value a).bind fun x =>
        (substitutePieces vars flavor value b).map (x ++ ·) := by
  induction a with
  | nil => simp [substitutePieces]
  | cons piece rest ih =>
    simp only [List.cons_append, substitutePieces, ih]
    cases substitutePiece vars flavor value piece with
    | none => rfl
    | some added =>
      cases substitutePieces vars flavor value rest with
      | none => rfl
      | some more => simp [Function.comp_def]

theorem substitutePieces_cons_eq_some {piece : Piece} {rest : List Piece} {out : Text}
    (h : substitutePieces vars flavor value (piece :: rest) = some out) :
    ∃ added more, substitutePiece vars flavor value piece = some added ∧
      substitutePieces vars flavor value rest = some more ∧
      out = piece.before ++ added ++ more := by
  rw [substitutePieces] at h
  obtain ⟨added, hadded, h⟩ := Option.bind_eq_some_iff.mp h
  obtain ⟨more, hmore, rfl⟩ := Option.map_eq_some_iff.mp h
  exact ⟨added, more, hadded, hmore, rfl⟩

theorem substitutePieces_cons {piece : Piece} {rest : List Piece} {added more : Text}
    (hadded : substitutePiece vars flavor value piece = some added)
    (hmore : substitutePieces vars flavor value rest = some more) :
    substitutePieces vars flavor value (piece :: rest) = some (piece.before ++ added ++ more) := by
  rw [substitutePieces, hadded, hmore]
  rfl

theorem exists_of_mem_pieces {pieces : List Piece} {out : Text} {piece : Piece}
    (h : substitutePieces vars flavor value pieces = some out) (hpiece : piece ∈ pieces) :
    ∃ added, substitutePiece vars flavor value piece = some added := by
  obtain ⟨done, rest, rfl⟩ := List.append_of_mem hpiece
  rw [substitutePieces_append] at h
  obtain ⟨before, -, h⟩ := Option.bind_eq_some_iff.mp h
  obtain ⟨after, hafter, -⟩ := Option.map_eq_some_iff.mp h
  obtain ⟨added, -, hadded, -, -⟩ := substitutePieces_cons_eq_some hafter
  exact ⟨added, hadded⟩

section

variable (hvalue : ∀ text out, value text = some out → value' text = some out)

include hvalue

theorem substitutePiece_mono {piece : Piece} {out : Text}
    (h : substitutePiece vars flavor value piece = some out) :
    substitutePiece vars flavor value' piece = some out := by
  cases hexpr : piece.expression with
  | secret name =>
    rw [substitutePiece, hexpr] at h ⊢
    exact h
  | flavor =>
    rw [substitutePiece, hexpr] at h ⊢
    exact h
  | var name =>
    rw [substitutePiece_var hexpr] at h ⊢
    obtain ⟨text, htext, hout⟩ := Option.bind_eq_some_iff.mp h
    exact Option.bind_eq_some_iff.mpr ⟨text, htext, hvalue text out hout⟩

theorem substitutePieces_mono {pieces : List Piece} {out : Text}
    (h : substitutePieces vars flavor value pieces = some out) :
    substitutePieces vars flavor value' pieces = some out := by
  induction pieces generalizing out with
  | nil => exact h
  | cons piece rest ih =>
    obtain ⟨added, more, hadded, hmore, rfl⟩ := substitutePieces_cons_eq_some h
    exact substitutePieces_cons (substitutePiece_mono hvalue hadded) (ih hmore)

theorem substituteText_mono {text out : Text}
    (h : substituteText vars flavor value text = some out) :
    substituteText vars flavor value' text = some out := by
  unfold substituteText at h ⊢
  split at h
  · cases h
  · rename_i pieces tail hparse
    obtain ⟨more, hmore, rfl⟩ := Option.map_eq_some_iff.mp h
    rw [substitutePieces_mono hvalue hmore]
    rfl

end

end

/-- More depth changes nothing. -/
theorem substitute_succ {depth : ℕ} {out : Text}
    (h : substitute vars flavor depth text = some out) :
    substitute vars flavor (depth + 1) text = some out := by
  induction depth generalizing text out with
  | zero => cases h
  | succ depth ih => exact substituteText_mono (fun _ _ => ih) h

theorem substitute_mono {depth depth' : ℕ} {out : Text} (hle : depth ≤ depth')
    (h : substitute vars flavor depth text = some out) :
    substitute vars flavor depth' text = some out := by
  induction depth', hle using Nat.le_induction with
  | base => exact h
  | succ depth' _ ih => exact substitute_succ ih

theorem fitted_eq_some_iff {depth : ℕ} {out : Text} :
    fitted vars flavor (depth + 1) text = some out ↔
      substituteText vars flavor (fitted vars flavor depth) text = some out ∧
      isTooLong text out = false := by
  rw [fitted, Option.filter_eq_some_iff]
  simp

/-- What fits is what is substituted. -/
theorem substitute_of_fitted {depth : ℕ} {out : Text}
    (h : fitted vars flavor depth text = some out) :
    substitute vars flavor depth text = some out := by
  induction depth generalizing text out with
  | zero => cases h
  | succ depth ih => exact substituteText_mono (fun _ _ => ih) (fitted_eq_some_iff.mp h).1

/-! ## A var that fits is on no cycle -/

theorem fitted_of_mentions {depth : ℕ} {out : Text}
    (h : fitted vars flavor (depth + 1) text = some out) (hmention : Mentions text name) :
    ∃ value added, vars.lookup name = some value ∧ fitted vars flavor depth value = some added := by
  obtain ⟨pieces, tail, piece, hparse, hpiece, hvar⟩ := hmention
  have htext := (fitted_eq_some_iff.mp h).1
  rw [substituteText, hparse] at htext
  obtain ⟨more, hmore, -⟩ := Option.map_eq_some_iff.mp htext
  obtain ⟨added, hadded⟩ := exists_of_mem_pieces hmore hpiece
  rw [substitutePiece_var hvar] at hadded
  obtain ⟨value, hvalue, hfits⟩ := Option.bind_eq_some_iff.mp hadded
  exact ⟨value, added, hvalue, hfits⟩

/-- What a var that fits refers to fits in less depth. -/
theorem fitted_of_refers {depth : ℕ} {name other value out : Text}
    (hrefers : TransGen (Refers vars) name other) (hlookup : vars.lookup name = some value)
    (h : fitted vars flavor depth value = some out) :
    ∃ depth' value' out', depth' < depth ∧ vars.lookup other = some value' ∧
      fitted vars flavor depth' value' = some out' := by
  have hstep : ∀ {depth : ℕ} {a b value out : Text}, Refers vars a b →
      vars.lookup a = some value → fitted vars flavor depth value = some out →
      ∃ depth' value' out', depth' < depth ∧ vars.lookup b = some value' ∧
        fitted vars flavor depth' value' = some out' := by
    intro depth a b value out hrefers hlookup h
    obtain ⟨value', hlookup', hmention⟩ := hrefers
    rw [hlookup] at hlookup'
    cases hlookup'
    cases depth with
    | zero => cases h
    | succ depth =>
      obtain ⟨value', added, hvalue', hfits⟩ := fitted_of_mentions h hmention
      exact ⟨depth, value', added, Nat.lt_succ_self _, hvalue', hfits⟩
  induction hrefers with
  | single hrefers => exact hstep hrefers hlookup h
  | tail _ hrefers ih =>
    obtain ⟨depth₁, value₁, out₁, hlt, hlookup₁, h₁⟩ := ih
    obtain ⟨depth₂, value₂, out₂, hlt', hlookup₂, h₂⟩ := hstep hrefers hlookup₁ h₁
    exact ⟨depth₂, value₂, out₂, hlt'.trans hlt, hlookup₂, h₂⟩

theorem not_refers_self {depth : ℕ} {name value out : Text}
    (hlookup : vars.lookup name = some value) (h : fitted vars flavor depth value = some out) :
    ¬ TransGen (Refers vars) name name := by
  intro hcycle
  induction depth using Nat.strong_induction_on generalizing value out with
  | h depth ih =>
    obtain ⟨depth', value', out', hlt, hlookup', h'⟩ := fitted_of_refers hcycle hlookup h
    exact ih depth' hlt hlookup' h'

end OoreBuild
