import OoreBuild.Expression

/-!
# References as byte ranges

The two parsers of references return byte ranges of the text, and the replacement of references
cuts the text at them. Here they are modelled with their cursors: a slice of a text at an offset
inside a character, or past its end, is no text at all (the program would panic). They return the
ranges of what `scan` finds (`spansFrom_eq_scan`), so no slice fails.
-/

namespace OoreBuild.Spans

open Text

/-! ## Slices -/

/-- The text before and after a byte offset. -/
def splitBytes : ℕ → Text → Option (Text × Text)
  | 0, text => some ([], text)
  | _ + 1, [] => none
  | offset + 1, c :: text =>
    if c.utf8Size ≤ offset + 1 then
      (splitBytes (offset + 1 - c.utf8Size) text).map fun (before, after) => (c :: before, after)
    else none

/-- `text[offset..]`. -/
def sliceFrom (text : Text) (offset : ℕ) : Option Text := (splitBytes offset text).map Prod.snd

/-- `text[start..finish]`. -/
def slice (text : Text) (start finish : ℕ) : Option Text :=
  if start ≤ finish then
    (sliceFrom text start).bind fun rest => (splitBytes (finish - start) rest).map Prod.fst
  else none

/-- The byte offset of the needle. -/
def find (text needle : Text) : Option ℕ :=
  (splitFirst needle text).map fun found => byteLen found.1

/-! ## The parsers -/

/-- A range of the text with what it refers to. -/
structure Span (α : Type) where
  start : ℕ
  finish : ℕ
  value : α
  deriving DecidableEq, Repr

section

variable {α : Type} (read : ℕ → Text → Text → Except Text α) (text : Text)

/-- The loop of the parsers, where `read` reads a trimmed body that begins at an offset, with the
text from there on. `none` stands for a slice that fails, and for turns that run out. -/
def spansFrom : ℕ → ℕ → Option (Except Text (List (Span α)))
  | 0, _ => none
  | fuel + 1, cursor =>
    (sliceFrom text cursor).bind fun rest =>
    match find rest opening with
    | none => some (.ok [])
    | some offset =>
      let start := cursor + offset
      let bodyStart := start + 3
      (sliceFrom text bodyStart).bind fun rest =>
      match find rest closing with
      | none => some (.error unterminated)
      | some close =>
        let finish := bodyStart + close + 2
        (slice text bodyStart (bodyStart + close)).bind fun body =>
        match read bodyStart rest (trim body) with
        | .error error => some (.error error)
        | .ok value =>
          (spansFrom fuel finish).map fun found => found.map (⟨start, finish, value⟩ :: ·)

def spans : Option (Except Text (List (Span α))) := spansFrom read text (text.length + 1) 0

end

/-- A reference with the name of its secret. -/
abbrev SecretReference := Span Text

def parseSecretReferences (text : Text) : Option (Except Text (List SecretReference)) :=
  spans (fun _ _ => readSecret) text

inductive Expression where
  | secret
  /-- The range of the var's name. -/
  | var (start finish : ℕ)
  | flavor
  deriving DecidableEq, Repr

/-- What a trimmed body refers to; the name of a var is looked for from the body's beginning. -/
def readExpression (bodyStart : ℕ) (rest body : Text) : Except Text Expression :=
  if body = "flavor" then .ok .flavor
  else if (scopedName "secrets." body).isSome then .ok .secret
  else match scopedName "vars." body with
    | some name =>
      let nameStart := bodyStart + (find rest "vars.").getD 0 + 5
      .ok (.var nameStart (nameStart + byteLen name))
    | none => .error (unsupportedExpression body)

def parseExpressions (text : Text) : Option (Except Text (List (Span Expression))) :=
  spans readExpression text

/-! ## Replacing references -/

section

variable {σ : Type} (replacement : σ → Text → Text × σ)

/-- The loop over the references, where `replacement` may change its own state. -/
def replaceFrom (text : Text) : List SecretReference → ℕ → σ → Option (Text × σ)
  | [], cursor, s => (sliceFrom text cursor).map fun rest => (rest, s)
  | reference :: references, cursor, s =>
    (slice text cursor reference.start).bind fun kept =>
      let (new, s) := replacement s reference.value
      (replaceFrom text references reference.finish s).map fun (out, s) => (kept ++ new ++ out, s)

def replaceSecretReferences (text : Text) (s : σ) : Option (Except Text (Text × σ)) :=
  (parseSecretReferences text).bind fun
    | .error error => some (.error error)
    | .ok references => (replaceFrom replacement text references 0 s).map .ok

/-- The answers of the replacement one after another, and its state after them. -/
def answers : σ → List Text → List Text × σ
  | s, [] => ([], s)
  | s, name :: names =>
    let (new, s) := replacement s name
    ((new :: (answers s names).1), (answers s names).2)

end

/-! ## Slices of a text put together -/

theorem splitBytes_append (a b : Text) : splitBytes (byteLen a) (a ++ b) = some (a, b) := by
  induction a with
  | nil => cases b <;> rfl
  | cons c a ih =>
    have hlen : byteLen (c :: a) = c.utf8Size + byteLen a := rfl
    have hpos := c.utf8Size_pos
    obtain ⟨offset, hoffset⟩ : ∃ offset, byteLen (c :: a) = offset + 1 :=
      ⟨byteLen (c :: a) - 1, by omega⟩
    rw [hoffset, List.cons_append, splitBytes, if_pos (by omega)]
    rw [show offset + 1 - c.utf8Size = byteLen a by omega, ih]
    rfl

theorem sliceFrom_append (a b : Text) : sliceFrom (a ++ b) (byteLen a) = some b := by
  rw [sliceFrom, splitBytes_append]
  rfl

theorem slice_append (a b c : Text) :
    slice (a ++ b ++ c) (byteLen a) (byteLen a + byteLen b) = some b := by
  rw [slice, if_pos (Nat.le_add_right _ _), List.append_assoc, sliceFrom_append,
    Nat.add_sub_cancel_left, Option.bind_some, splitBytes_append]
  rfl

theorem find_eq {text needle before after : Text}
    (h : splitFirst needle text = some (before, after)) :
    find text needle = some (byteLen before) := by
  rw [find, h]
  rfl

theorem find_eq_none {text needle : Text} (h : splitFirst needle text = none) :
    find text needle = none := by
  rw [find, h]
  rfl

/-! ## The ranges of what is found -/

def Span.map {α β : Type} (g : α → β) (span : Span α) : Span β :=
  ⟨span.start, span.finish, g span.value⟩

/-- The ranges of expressions that are found from an offset on. -/
def rangesOf {α : Type} (cursor : ℕ) : List (Found α) → List (Span α)
  | [] => []
  | found :: rest =>
    let start := cursor + byteLen found.before
    let finish := start + byteLen found.raw
    ⟨start, finish, found.expression⟩ :: rangesOf finish rest

/-- The cursor goes over the text as the scan does, and no slice fails. -/
theorem spansFrom_eq_scan {α β : Type} (read : ℕ → Text → Text → Except Text α) {g : α → β}
    {plain : Text → Except Text β}
    (hread : ∀ start rest body, (read start rest body).map g = plain body)
    {fuel : ℕ} (done : Text) {rest : Text} (hfuel : rest.length < fuel) :
    (spansFrom read (done ++ rest) fuel (byteLen done)).map (Except.map (List.map (Span.map g))) =
      some ((scan plain rest).map fun found => rangesOf (byteLen done) found.1) := by
  induction fuel generalizing done rest with
  | zero => omega
  | succ fuel ih =>
    unfold spansFrom
    rw [sliceFrom_append, Option.bind_some]
    cases hopen : splitFirst opening rest with
    | none =>
      rw [find_eq_none hopen, scan_of_none hopen]
      rfl
    | some found =>
      obtain ⟨before, after⟩ := found
      have hrest : rest = before ++ opening ++ after := splitFirst_eq_some hopen
      have hbody : done ++ rest = done ++ before ++ opening ++ after := by simp [hrest]
      have hopening : byteLen (done ++ before ++ opening) = byteLen done + byteLen before + 3 := by
        rw [byteLen_append, byteLen_append]
        rfl
      rw [find_eq hopen]
      dsimp only
      rw [hbody, ← hopening, sliceFrom_append, Option.bind_some]
      cases hclose : splitFirst closing after with
      | none =>
        have hscan : scan plain rest = .error unterminated := by
          unfold scan scanFrom
          rw [hopen]
          simp only [hclose]
        rw [find_eq_none hclose, hscan]
        rfl
      | some found =>
        obtain ⟨body, last⟩ := found
        have hafter : after = body ++ closing ++ last := splitFirst_eq_some hclose
        rw [find_eq hclose, scan_of_some hopen hclose]
        dsimp only
        rw [hafter, ← List.append_assoc, ← List.append_assoc, List.append_assoc _ closing,
          slice_append, Option.bind_some, ← hread (byteLen (done ++ before ++ opening))
            (body ++ closing ++ last) (trim body)]
        cases read (byteLen (done ++ before ++ opening)) (body ++ closing ++ last) (trim body) with
        | error error => rfl
        | ok value =>
          have hlength : last.length < rest.length := by
            have hfirst := length_of_splitFirst hopen
            have hsecond := length_of_splitFirst hclose
            have hthree : opening.length = 3 := rfl
            omega
          have hcursor : byteLen (done ++ before ++ opening) + byteLen body + 2 =
              byteLen (done ++ before ++ opening ++ body ++ closing) := by
            rw [byteLen_append _ closing, byteLen_append _ body]
            rfl
          have hraw : byteLen done + byteLen before + byteLen (opening ++ body ++ closing) =
              byteLen (done ++ before ++ opening ++ body ++ closing) := by
            simp only [byteLen_append]
            omega
          have hnext := ih (done ++ before ++ opening ++ body ++ closing)
            (show last.length < fuel by omega)
          rw [← List.append_assoc _ closing, hcursor]
          cases hfound : spansFrom read (done ++ before ++ opening ++ body ++ closing ++ last) fuel
              (byteLen (done ++ before ++ opening ++ body ++ closing)) with
          | none =>
            rw [hfound] at hnext
            cases hnext
          | some found =>
            rw [hfound] at hnext
            cases hscan : scan plain last with
            | error error =>
              rw [hscan] at hnext
              cases found with
              | error _ =>
                cases hnext
                rfl
              | ok _ => cases hnext
            | ok more =>
              rw [hscan] at hnext
              cases found with
              | error _ => cases hnext
              | ok spans =>
                have hspans : spans.map (Span.map g) = rangesOf _ more.1 :=
                  Except.ok.inj (Option.some.inj hnext)
                rw [← hraw] at hspans ⊢
                exact congrArg (fun rest => some (Except.ok (Span.mk (byteLen done + byteLen before)
                  (byteLen done + byteLen before + byteLen (opening ++ body ++ closing))
                    (g value) :: rest))) hspans

theorem map_id_except {α : Type} (x : Except Text α) : x.map id = x := by cases x <;> rfl

/-- The ranges of the secrets are those of what the scan finds. -/
theorem parseSecretReferences_eq (text : Text) :
    parseSecretReferences text =
      some ((OoreBuild.parseSecretReferences text).map fun found => rangesOf 0 found.1) := by
  have hspans := spansFrom_eq_scan (fun _ _ => readSecret)
    (fun _ _ body => map_id_except (readSecret body)) [] (Nat.lt_succ_self text.length)
  have hid : (Span.map id : SecretReference → SecretReference) = id := rfl
  rw [hid, List.map_id_fun, show (Except.map id : Except Text (List SecretReference) → _) = id from
    funext map_id_except, Option.map_id_fun] at hspans
  exact hspans

/-! ## Both parsers -/

def Expression.isSecret : Expression → Bool
  | .secret => true
  | .var _ _ | .flavor => false

/-- Whether a trimmed body is read as a secret. -/
def readKind (body : Text) : Except Text Bool :=
  (OoreBuild.readExpression body).map fun
    | .secret _ => true
    | .var _ | .flavor => false

theorem readExpression_kind (start : ℕ) (rest body : Text) :
    (readExpression start rest body).map Expression.isSecret = readKind body := by
  unfold readExpression readKind OoreBuild.readExpression
  split
  · rfl
  · cases scopedName "secrets." body with
    | some name => rfl
    | none => cases scopedName "vars." body <;> rfl

/-- Only a secret is a secret for both. -/
theorem readKind_eq_true_iff {body : Text} :
    readKind body = .ok true ↔ ∃ name, readSecret body = .ok name := by
  unfold readKind OoreBuild.readExpression readSecret
  split
  · next hflavor =>
    have hnone : scopedName "secrets." body = none := by rw [hflavor]; decide
    rw [hnone]
    simp [Except.map]
  · cases scopedName "secrets." body with
    | some name => simp [Except.map]
    | none => cases scopedName "vars." body <;> simp [Except.map]

def marked (found : OoreBuild.SecretReference) : Found Bool := ⟨found.before, found.raw, true⟩

theorem scan_readKind {text tail : Text} {found : List OoreBuild.SecretReference}
    (h : scan readSecret text = .ok (found, tail)) :
    scan readKind text = .ok (found.map marked, tail) := by
  induction found generalizing text with
  | nil =>
    rcases scan_eq_ok h with ⟨hopen, -, rfl⟩ | ⟨_, _, _, _, _, _, -, -, -, -, hfound⟩
    · exact scan_of_none hopen
    · cases hfound
  | cons first more ih =>
    rcases scan_eq_ok h with ⟨-, hfound, -⟩ | ⟨before, after, body, rest, name, more', hopen,
      hclose, hread, hrest, hfound⟩
    · cases hfound
    · cases hfound
      rw [scan_of_some hopen hclose, readKind_eq_true_iff.mpr ⟨name, hread⟩]
      show (scan readKind rest >>= _) = _
      rw [ih hrest]
      rfl

theorem scan_readSecret {text tail : Text} {kinds : List (Found Bool)}
    (h : scan readKind text = .ok (kinds, tail))
    (hsecret : ∀ kind ∈ kinds, kind.expression = true) :
    ∃ found, scan readSecret text = .ok (found, tail) ∧ kinds = found.map marked := by
  induction kinds generalizing text with
  | nil =>
    rcases scan_eq_ok h with ⟨hopen, -, rfl⟩ | ⟨_, _, _, _, _, _, -, -, -, -, hfound⟩
    · exact ⟨[], scan_of_none hopen, rfl⟩
    · cases hfound
  | cons first more ih =>
    rcases scan_eq_ok h with ⟨-, hfound, -⟩ | ⟨before, after, body, rest, kind, more', hopen,
      hclose, hread, hrest, hfound⟩
    · cases hfound
    · cases hfound
      obtain ⟨hfirst, hmore⟩ := List.forall_mem_cons.mp hsecret
      obtain rfl : kind = true := hfirst
      obtain ⟨name, hname⟩ := readKind_eq_true_iff.mp hread
      obtain ⟨found, hscan, rfl⟩ := ih hrest hmore
      refine ⟨⟨before, opening ++ body ++ closing, name⟩ :: found, ?_, rfl⟩
      rw [scan_of_some hopen hclose, hname]
      show (scan readSecret rest >>= _) = _
      rw [hscan]
      rfl

/-- The ranges of a list of spans. -/
def ranges {α : Type} (found : List (Span α)) : List (ℕ × ℕ) :=
  found.map fun span => (span.start, span.finish)

theorem rangesOf_marked (found : List OoreBuild.SecretReference) (cursor : ℕ) :
    rangesOf cursor (found.map marked) =
      (rangesOf cursor found).map (Span.map fun _ => true) := by
  induction found generalizing cursor with
  | nil => rfl
  | cons first more ih => exact congrArg (_ :: ·) (ih _)

theorem values_rangesOf {α : Type} (found : List (Found α)) (cursor : ℕ) :
    (rangesOf cursor found).map Span.value = found.map Found.expression := by
  induction found generalizing cursor with
  | nil => rfl
  | cons first more ih => exact congrArg (_ :: ·) (ih _)

theorem parseExpressions_eq (text : Text) :
    (parseExpressions text).map (Except.map (List.map (Span.map Expression.isSecret))) =
      some ((scan readKind text).map fun found => rangesOf 0 found.1) :=
  spansFrom_eq_scan readExpression readExpression_kind [] (Nat.lt_succ_self text.length)

theorem isSecret_iff {e : Expression} : e.isSecret = true ↔ e = .secret := by
  cases e <;> simp [Expression.isSecret]

theorem ranges_map {α β : Type} (g : α → β) (found : List (Span α)) :
    ranges (found.map (Span.map g)) = ranges found := by
  unfold ranges
  rw [List.map_map]
  rfl

/-- One succeeds where the other does with secrets only, on the same ranges. -/
theorem parsers_agree (text : Text) (at_ : List (ℕ × ℕ)) :
    (∃ references, parseSecretReferences text = some (.ok references) ∧ ranges references = at_) ↔
      ∃ found, parseExpressions text = some (.ok found) ∧ (∀ span ∈ found, span.value = .secret) ∧
        ranges found = at_ := by
  have hexpressions := parseExpressions_eq text
  rw [parseSecretReferences_eq]
  constructor
  · rintro ⟨references, hparse, rfl⟩
    cases hscan : scan readSecret text with
    | error error =>
      rw [OoreBuild.parseSecretReferences, hscan] at hparse
      cases hparse
    | ok found =>
      rw [OoreBuild.parseSecretReferences, hscan] at hparse
      cases hparse
      rw [scan_readKind hscan] at hexpressions
      obtain ⟨result, hresult, hmap⟩ := Option.map_eq_some_iff.mp hexpressions
      cases result with
      | error error => cases hmap
      | ok spans =>
        have hspans : spans.map (Span.map Expression.isSecret) =
            (rangesOf 0 found.1).map (Span.map fun _ => true) :=
          (Except.ok.inj hmap).trans (rangesOf_marked _ _)
        refine ⟨spans, hresult, fun span hspan => ?_, ?_⟩
        · have hmem : span.map Expression.isSecret ∈
              (rangesOf 0 found.1).map (Span.map fun _ => true) :=
            hspans ▸ List.mem_map_of_mem hspan
          obtain ⟨other, -, hother⟩ := List.mem_map.mp hmem
          exact isSecret_iff.mp (congrArg Span.value hother).symm
        · rw [← ranges_map Expression.isSecret, hspans, ranges_map]
  · rintro ⟨spans, hparse, hsecret, rfl⟩
    rw [hparse] at hexpressions
    cases hscan : scan readKind text with
    | error error =>
      rw [hscan] at hexpressions
      cases hexpressions
    | ok kinds =>
      obtain ⟨kinds, tail⟩ := kinds
      rw [hscan] at hexpressions
      have hspans : spans.map (Span.map Expression.isSecret) = rangesOf 0 kinds :=
        Except.ok.inj (Option.some.inj hexpressions)
      have hkinds : ∀ kind ∈ kinds, kind.expression = true := by
        intro kind hkind
        have hmem : kind.expression ∈ (rangesOf 0 kinds).map Span.value := by
          rw [values_rangesOf]
          exact List.mem_map_of_mem hkind
        rw [← hspans, List.map_map] at hmem
        obtain ⟨span, hspan, heq⟩ := List.mem_map.mp hmem
        rw [← heq]
        exact isSecret_iff.mpr (hsecret span hspan)
      obtain ⟨found, hfound, rfl⟩ := scan_readSecret hscan hkinds
      refine ⟨rangesOf 0 found, ?_, ?_⟩
      · rw [OoreBuild.parseSecretReferences, hfound]
        rfl
      · rw [← ranges_map Expression.isSecret, hspans, rangesOf_marked, ranges_map]

/-! ## Cutting and replacing -/

/-- References that are where the second texts of the pieces are. -/
def Placed : ℕ → List SecretReference → List (Text × Text) → Prop
  | _, [], [] => True
  | cursor, reference :: references, (kept, raw) :: pieces =>
    reference.start = cursor + byteLen kept ∧ reference.finish = reference.start + byteLen raw ∧
      Placed reference.finish references pieces
  | _, _, _ => False

/-- The pieces of the text at what is found. -/
def piecesOf {α : Type} (found : List (Found α)) : List (Text × Text) :=
  found.map fun found => (found.before, found.raw)

theorem placed_rangesOf (found : List OoreBuild.SecretReference) (cursor : ℕ) :
    Placed cursor (rangesOf cursor found) (piecesOf found) := by
  induction found generalizing cursor with
  | nil => trivial
  | cons first more ih => exact ⟨rfl, rfl, ih _⟩

section

variable {text tail : Text}

/-- Placed references are within the text, on boundaries of characters, and after the cursor. -/
theorem bounds_of_placed {references : List SecretReference} {pieces : List (Text × Text)}
    (done : Text) (htext : text = done ++ (pieces.flatMap fun piece => piece.1 ++ piece.2) ++ tail)
    (hplaced : Placed (byteLen done) references pieces) :
    ∀ reference ∈ references, byteLen done ≤ reference.start ∧
      reference.start ≤ reference.finish ∧ reference.finish ≤ byteLen text ∧
      (sliceFrom text reference.start).isSome ∧ (sliceFrom text reference.finish).isSome := by
  induction references generalizing done pieces with
  | nil => nofun
  | cons first references ih =>
    rcases pieces with _ | ⟨⟨kept, raw⟩, pieces⟩
    · exact hplaced.elim
    obtain ⟨hstart, hfinish, hrest⟩ := hplaced
    rw [List.flatMap_cons] at htext
    have hkept : text = done ++ kept ++ (raw ++ ((pieces.flatMap fun piece =>
        piece.1 ++ piece.2) ++ tail)) := by simp [htext]
    have hraw : text = done ++ kept ++ raw ++ (pieces.flatMap fun piece =>
        piece.1 ++ piece.2) ++ tail := by simp [htext]
    have hstart' : first.start = byteLen (done ++ kept) := by rw [hstart, byteLen_append]
    have hfinish' : first.finish = byteLen (done ++ kept ++ raw) := by
      rw [hfinish, hstart', byteLen_append _ raw]
    have hlength : byteLen text = byteLen (done ++ kept ++ raw) +
        byteLen (pieces.flatMap fun piece => piece.1 ++ piece.2) + byteLen tail := by
      rw [hraw, byteLen_append _ tail, byteLen_append _ (pieces.flatMap _)]
    refine List.forall_mem_cons.mpr
      ⟨⟨by omega, by omega, by omega, ?_, ?_⟩, fun reference hreference => ?_⟩
    · rw [hstart', hkept, sliceFrom_append]
      rfl
    · rw [hfinish', hraw, List.append_assoc, sliceFrom_append]
      rfl
    · rw [hfinish'] at hrest
      have hbounds := ih _ hraw hrest reference hreference
      refine ⟨le_trans ?_ hbounds.1, hbounds.2⟩
      rw [← hfinish', hfinish, hstart]
      omega

omit text tail in
theorem start_lt_of_placed {cursor : ℕ} {references : List SecretReference}
    {pieces : List (Text × Text)} (hplaced : Placed cursor references pieces)
    (hpos : ∀ piece ∈ pieces, 0 < byteLen piece.2) :
    ∀ reference ∈ references, reference.start < reference.finish := by
  induction references generalizing cursor pieces with
  | nil => nofun
  | cons first references ih =>
    rcases pieces with _ | ⟨⟨kept, raw⟩, pieces⟩
    · exact hplaced.elim
    obtain ⟨hstart, hfinish, hrest⟩ := hplaced
    obtain ⟨hraw, hmore⟩ := List.forall_mem_cons.mp hpos
    refine List.forall_mem_cons.mpr ⟨?_, ih hrest hmore⟩
    rw [hfinish]
    exact Nat.lt_add_of_pos_right hraw

theorem pairwise_of_placed {references : List SecretReference} {pieces : List (Text × Text)}
    (done : Text) (htext : text = done ++ (pieces.flatMap fun piece => piece.1 ++ piece.2) ++ tail)
    (hplaced : Placed (byteLen done) references pieces) :
    references.Pairwise fun a b => a.finish ≤ b.start := by
  induction references generalizing done pieces with
  | nil => exact .nil
  | cons first references ih =>
    rcases pieces with _ | ⟨⟨kept, raw⟩, pieces⟩
    · exact hplaced.elim
    obtain ⟨hstart, hfinish, hrest⟩ := hplaced
    have hraw : text = done ++ kept ++ raw ++ (pieces.flatMap fun piece =>
        piece.1 ++ piece.2) ++ tail := by
      rw [htext, List.flatMap_cons]
      simp
    have hfinish' : first.finish = byteLen (done ++ kept ++ raw) := by
      rw [hfinish, hstart, byteLen_append, byteLen_append]
    rw [hfinish'] at hrest
    refine .cons (fun reference hreference => ?_) (ih _ hraw hrest)
    rw [hfinish']
    exact (bounds_of_placed _ hraw hrest reference hreference).1

/-- The text with the second texts of the pieces replaced. -/
def woven (pieces : List (Text × Text)) (new : List Text) (tail : Text) : Text :=
  (List.zipWith (fun piece new => piece.1 ++ new) pieces new).flatten ++ tail

theorem replaceFrom_placed {σ : Type} (replacement : σ → Text → Text × σ) (s : σ)
    {references : List SecretReference} {pieces : List (Text × Text)} (done : Text)
    (htext : text = done ++ (pieces.flatMap fun piece => piece.1 ++ piece.2) ++ tail)
    (hplaced : Placed (byteLen done) references pieces) :
    replaceFrom replacement text references (byteLen done) s =
      some (woven pieces (answers replacement s (references.map Span.value)).1 tail,
        (answers replacement s (references.map Span.value)).2) := by
  induction references generalizing done pieces s with
  | nil =>
    cases pieces with
    | nil =>
      rw [htext, List.flatMap_nil, List.append_nil, replaceFrom, sliceFrom_append]
      rfl
    | cons => exact hplaced.elim
  | cons first references ih =>
    rcases pieces with _ | ⟨⟨kept, raw⟩, pieces⟩
    · exact hplaced.elim
    obtain ⟨hstart, hfinish, hrest⟩ := hplaced
    have hkept : text = done ++ kept ++ (raw ++ ((pieces.flatMap fun piece =>
        piece.1 ++ piece.2) ++ tail)) := by
      rw [htext, List.flatMap_cons]
      simp
    have hraw : text = done ++ kept ++ raw ++ (pieces.flatMap fun piece =>
        piece.1 ++ piece.2) ++ tail := by
      rw [htext, List.flatMap_cons]
      simp
    have hfinish' : first.finish = byteLen (done ++ kept ++ raw) := by
      rw [hfinish, hstart, byteLen_append, byteLen_append]
    have hslice : slice text (byteLen done) first.start = some kept := by
      rw [hstart, hkept, slice_append]
    rw [hfinish'] at hrest
    rw [replaceFrom, hslice, Option.bind_some]
    dsimp only
    rw [hfinish', ih _ _ hraw hrest]
    simp [woven, answers]

theorem woven_self (pieces : List (Text × Text)) (tail : Text) :
    woven pieces (pieces.map Prod.snd) tail =
      (pieces.flatMap fun piece => piece.1 ++ piece.2) ++ tail := by
  unfold woven
  rw [List.zipWith_map_right, List.zipWith_self]
  rfl

end

/-- A reference covers its opening at least. -/
theorem length_pos_of_scan {text tail : Text} {found : List OoreBuild.SecretReference}
    (h : scan readSecret text = .ok (found, tail)) : ∀ f ∈ found, 0 < byteLen f.raw := by
  induction found generalizing text with
  | nil => nofun
  | cons first more ih =>
    rcases scan_eq_ok h with ⟨-, hfound, -⟩ | ⟨before, after, body, rest, name, more', hopen,
      hclose, hread, hrest, hfound⟩
    · cases hfound
    · cases hfound
      refine List.forall_mem_cons.mpr ⟨?_, ih hrest⟩
      rw [byteLen_append, byteLen_append]
      have : byteLen opening = 3 := rfl
      omega

/-- The references cut the text into pieces, and replacing them changes nothing else. -/
theorem references_cut {text : Text} {references : List SecretReference}
    (h : parseSecretReferences text = some (.ok references)) :
    ∃ pieces tail, text = (pieces.flatMap fun piece => piece.1 ++ piece.2) ++ tail ∧
      Placed 0 references pieces ∧ (∀ piece ∈ pieces, 0 < byteLen piece.2) ∧
      ∀ (σ : Type) (replacement : σ → Text → Text × σ) (s : σ),
        replaceSecretReferences replacement text s =
          some (.ok (woven pieces (answers replacement s (references.map Span.value)).1 tail,
            (answers replacement s (references.map Span.value)).2)) := by
  have hparse := h
  rw [parseSecretReferences_eq] at hparse
  cases hscan : scan readSecret text with
  | error error =>
    rw [OoreBuild.parseSecretReferences, hscan] at hparse
    cases hparse
  | ok found =>
    obtain ⟨found, tail⟩ := found
    rw [OoreBuild.parseSecretReferences, hscan] at hparse
    obtain rfl : rangesOf 0 found = references := Except.ok.inj (Option.some.inj hparse)
    have hpieces : ((piecesOf found).flatMap fun piece => piece.1 ++ piece.2) =
        foundText found := by
      rw [piecesOf, List.flatMap_map]
      rfl
    have htext : text = ((piecesOf found).flatMap fun piece => piece.1 ++ piece.2) ++ tail := by
      rw [hpieces, foundText_append_tail hscan]
    refine ⟨piecesOf found, tail, htext, placed_rangesOf found 0, ?_, fun σ replacement s => ?_⟩
    · intro piece hpiece
      obtain ⟨f, hf, rfl⟩ := List.mem_map.mp hpiece
      exact length_pos_of_scan hscan f hf
    · rw [replaceSecretReferences, h, Option.bind_some]
      have hreplace := replaceFrom_placed replacement s [] htext
        (placed_rangesOf found 0)
      exact congrArg (Option.map Except.ok) hreplace

/-- Both parsers return, and one succeeds where the other does with secrets only, on the same
ranges. These are ranges of characters in the text, one after another; replacing them changes
nothing between them, and nothing at all where each is replaced by itself. -/
theorem references_agree (text : Text) :
    (parseSecretReferences text).isSome ∧ (parseExpressions text).isSome ∧
    (∀ at_, (∃ references, parseSecretReferences text = some (.ok references) ∧
        ranges references = at_) ↔
      ∃ found, parseExpressions text = some (.ok found) ∧ (∀ span ∈ found, span.value = .secret) ∧
        ranges found = at_) ∧
    ∀ references, parseSecretReferences text = some (.ok references) →
      (∀ reference ∈ references, reference.start < reference.finish ∧
        reference.finish ≤ byteLen text ∧ (sliceFrom text reference.start).isSome ∧
        (sliceFrom text reference.finish).isSome) ∧
      references.Pairwise (fun a b => a.finish ≤ b.start) ∧
      ∃ pieces tail, text = (pieces.flatMap fun piece => piece.1 ++ piece.2) ++ tail ∧
        Placed 0 references pieces ∧
        ∀ (σ : Type) (replacement : σ → Text → Text × σ) (s : σ),
          let (new, s') := answers replacement s (references.map Span.value)
          replaceSecretReferences replacement text s =
            some (.ok (woven pieces new tail, s')) ∧
          (new = pieces.map Prod.snd → replaceSecretReferences replacement text s =
            some (.ok (text, s'))) := by
  refine ⟨?_, ?_, parsers_agree text, fun references h => ?_⟩
  · rw [parseSecretReferences_eq]
    rfl
  · have hexpressions := parseExpressions_eq text
    cases hparse : parseExpressions text with
    | none =>
      rw [hparse] at hexpressions
      cases hexpressions
    | some result => rfl
  · obtain ⟨pieces, tail, htext, hplaced, hpos, hreplace⟩ := references_cut h
    have hbounds := bounds_of_placed [] htext hplaced
    refine ⟨fun reference hreference => ?_, pairwise_of_placed [] htext hplaced, pieces,
      tail, htext, hplaced, fun σ replacement s => ⟨hreplace σ replacement s, fun hnew => ?_⟩⟩
    · have hraw := start_lt_of_placed hplaced hpos reference hreference
      exact ⟨hraw, (hbounds reference hreference).2.2⟩
    · rw [hreplace, hnew, woven_self, ← htext]

end OoreBuild.Spans
