import OoreBuild.Substitution

/-!
# The resolver without a cache and a budget

`plainInner` resolves a text with nothing but the chain of vars that led to it. What it gives is
what the text becomes (`fitted_of_plainInner`), it gives that wherever the vars of the text are
not in the chain (`plainInner_of_fitted`), and it ends with a cycle exactly where one is met
(`plainInner_cycle_iff`). Cycles are told apart from the other errors by the last word of their
messages.
-/

namespace OoreBuild

open Text Relation

/-! ## Messages of cycles -/

/-- The message of a cycle of vars. -/
def IsCycleError (error : Text) : Prop :=
  ∃ chain name, name ∈ chain ∧ (∀ other ∈ chain, isValidPipelineEnvKey other = true) ∧
    error = cycleError chain name

/-- The text after the last space. -/
def lastWord (text : Text) : Text := (text.reverse.takeWhile (· ≠ ' ')).reverse

theorem lastWord_append {before after : Text} (h : ' ' ∈ after) :
    lastWord (before ++ after) = lastWord after := by
  unfold lastWord
  rw [List.reverse_append, List.takeWhile_append, if_neg]
  intro hlength
  have hall := (List.takeWhile_prefix (p := (· ≠ ' ')) (l := after.reverse)).eq_of_length hlength
  have hmem : ' ' ∈ after.reverse := List.mem_reverse.mpr h
  rw [← hall] at hmem
  simpa using List.mem_takeWhile_imp hmem

theorem lastWord_cons {word : Text} (h : ' ' ∉ word) : lastWord (' ' :: word) = word := by
  have hword : ∀ c ∈ word.reverse, decide (c ≠ ' ') = true := by
    intro c hc
    rw [decide_eq_true_eq]
    rintro rfl
    exact h (List.mem_reverse.mp hc)
  unfold lastWord
  rw [List.reverse_cons, List.takeWhile_append_of_pos hword]
  simp

theorem notMem_of_valid {name : Text} (h : isValidPipelineEnvKey name = true) : ' ' ∉ name := by
  cases name with
  | nil => exact List.not_mem_nil
  | cons first rest =>
    simp only [isValidPipelineEnvKey, Bool.and_eq_true, List.all_eq_true] at h
    intro hmem
    rcases List.mem_cons.mp hmem with rfl | hmem
    · exact absurd h.1 (by decide)
    · exact absurd (h.2 ' ' hmem) (by decide)

theorem join_concat (separator part : Text) {parts : List Text} (hne : parts ≠ []) :
    join separator (parts ++ [part]) = join separator parts ++ separator ++ part := by
  induction parts with
  | nil => exact absurd rfl hne
  | cons first rest ih =>
    cases rest with
    | nil => simp [join]
    | cons second rest =>
      have hrest := ih (List.cons_ne_nil _ _)
      unfold join at hrest ⊢
      rw [List.cons_append, List.intercalate_cons_of_ne_nil (by simp), hrest,
        List.intercalate_cons_of_ne_nil (List.cons_ne_nil _ _)]
      simp

/-- The names of a cycle, as its message lists them, and the first one again. -/
theorem cycleError_eq {chain : List Text} {name : Text} (h : name ∈ chain) :
    ∃ first names, (first :: names) ⊆ chain ∧
      cycleError chain name =
        "vars form a cycle: " ++ join " -> " ((first :: names ++ [first]).map varName) := by
  have hne : (chain.dropWhile (· ≠ name)).rotate
      (leastIndex (chain.dropWhile (· ≠ name))) ≠ [] := by
    rw [Ne, List.rotate_eq_nil_iff, List.dropWhile_eq_nil_iff]
    intro hall
    simpa using hall name h
  have hsub : (chain.dropWhile (· ≠ name)).rotate
      (leastIndex (chain.dropWhile (· ≠ name))) ⊆ chain := by
    intro other hother
    rw [List.mem_rotate] at hother
    exact (List.dropWhile_suffix _).subset hother
  unfold cycleError
  cases hcycle : (chain.dropWhile (· ≠ name)).rotate
      (leastIndex (chain.dropWhile (· ≠ name))) with
  | nil => exact absurd hcycle hne
  | cons first names =>
    rw [hcycle] at hsub
    refine ⟨first, names, hsub, ?_⟩
    simp only [hcycle]
    rfl

theorem prefix_of_isCycleError {error : Text} (h : IsCycleError error) :
    ("vars." : Text) <+: lastWord error := by
  obtain ⟨chain, name, hname, hvalid, rfl⟩ := h
  obtain ⟨first, names, hsub, heq⟩ := cycleError_eq hname
  have hnames : (first :: names).map varName ≠ [] := List.cons_ne_nil _ _
  have hspace : ' ' ∉ varName first := by
    have := notMem_of_valid (hvalid first (hsub List.mem_cons_self))
    intro hmem
    rcases List.mem_append.mp hmem with hmem | hmem
    · exact absurd hmem (by decide)
    · exact this hmem
  have hend : cycleError chain name = ("vars form a cycle: " ++
      join " -> " ((first :: names).map varName) ++ " ->") ++ ' ' :: varName first := by
    rw [heq, List.map_append, List.map_singleton, join_concat _ _ hnames]
    simp only [List.append_assoc]
    rfl
  rw [hend, lastWord_append List.mem_cons_self, lastWord_cons hspace]
  exact List.prefix_append _ _

/-- A message that ends with another word is no cycle's. -/
theorem not_isCycleError {before after : Text}
    (h : ' ' ∈ after ∧ ¬ ("vars." : Text) <+: lastWord after) :
    ¬ IsCycleError (before ++ after) := by
  intro hcycle
  have hlast := prefix_of_isCycleError hcycle
  rw [lastWord_append h.1] at hlast
  exact h.2 hlast

/-- No letter of a limit's message follows a space. -/
def apart (x y : Char) : Bool := x != ' ' || y != 't' && y != 'i'

theorem apart_join {parts : List Text}
    (h : ∀ part ∈ parts, part.IsChain (apart · ·) ∧ part.head? = some 'v') :
    (join " -> " parts).IsChain (apart · ·) ∧ ∀ c ∈ (join " -> " parts).head?, c = 'v' := by
  induction parts with
  | nil => exact ⟨.nil, nofun⟩
  | cons first rest ih =>
    obtain ⟨hchain, hhead⟩ := h first List.mem_cons_self
    obtain ⟨hrest, hstart⟩ := ih fun part hpart => h part (List.mem_cons_of_mem _ hpart)
    cases rest with
    | nil =>
      simp only [join, List.intercalate_singleton]
      exact ⟨hchain, by simp [hhead]⟩
    | cons second rest =>
      have hjoin : join " -> " (first :: second :: rest) =
          first ++ (" -> " ++ join " -> " (second :: rest)) := by
        unfold join
        rw [List.intercalate_cons_of_ne_nil (List.cons_ne_nil _ _), List.append_assoc]
      rw [hjoin]
      refine ⟨hchain.append (List.IsChain.append (by decide) hrest ?_) ?_, ?_⟩
      · intro x hx y hy
        rw [hstart y hy]
        exact Bool.or_eq_true_iff.mpr (.inr (by decide))
      · intro x hx y hy
        cases hy
        exact Bool.or_eq_true_iff.mpr (.inr (by decide))
      · rw [List.head?_append, hhead]
        simp

/-- A cycle is not taken for a limit. -/
theorem not_limit_of_isCycleError {error : Text} (h : IsCycleError error) :
    isLimitError error = false := by
  obtain ⟨chain, name, hname, hvalid, rfl⟩ := h
  obtain ⟨first, names, hsub, heq⟩ := cycleError_eq hname
  have hparts : ∀ part ∈ (first :: names ++ [first]).map varName,
      part.IsChain (apart · ·) ∧ part.head? = some 'v' := by
    intro part hpart
    obtain ⟨other, hother, rfl⟩ := List.mem_map.mp hpart
    have hmem : other ∈ chain := by
      rcases List.mem_append.mp hother with h | h
      · exact hsub h
      · rw [List.mem_singleton.mp h]
        exact hsub List.mem_cons_self
    refine ⟨List.IsChain.append (by decide) (List.Pairwise.isChain ?_) ?_, rfl⟩
    · refine List.pairwise_of_forall_mem_list fun x hx y _ => ?_
      refine Bool.or_eq_true_iff.mpr (.inl ?_)
      rw [bne_iff_ne]
      rintro rfl
      exact notMem_of_valid (hvalid other hmem) hx
    · intro x hx y _
      cases hx
      exact Bool.or_eq_true_iff.mpr (.inl (by decide))
  have hapart : (cycleError chain name).IsChain (apart · ·) := by
    obtain ⟨hjoin, hstart⟩ := apart_join hparts
    rw [heq]
    refine List.IsChain.append (by decide) hjoin fun x _ y hy => ?_
    rw [hstart y hy]
    exact Bool.or_eq_true_iff.mpr (.inr (by decide))
  unfold isLimitError
  rw [Bool.or_eq_false_iff, Bool.eq_false_iff, Bool.eq_false_iff]
  constructor <;> intro h <;> obtain ⟨before, after, hsplit⟩ := contains_iff.mp h
  · rw [← hsplit] at hapart
    exact absurd hapart.left_of_append.right_of_append (by decide)
  · rw [← hsplit] at hapart
    exact absurd hapart.left_of_append.right_of_append (by decide)

/-! ## The other messages -/

theorem not_isCycleError_tooLong (path : Text) : ¬ IsCycleError (tooLong path) :=
  not_isCycleError (by decide)

theorem not_isCycleError_parse (place : Place) {error : Text}
    (herror : error = unterminated ∨ ∃ body, error = unsupportedExpression body) :
    ¬ IsCycleError (place.parseError error) := by
  have hparse : ∃ before, place.parseError error = before ++ error := by
    unfold Place.parseError
    split
    · split
      · exact ⟨_, rfl⟩
      · exact ⟨_, rfl⟩
    · exact ⟨_, rfl⟩
  obtain ⟨before, hparse⟩ := hparse
  rw [hparse]
  rcases herror with rfl | ⟨body, rfl⟩
  · exact not_isCycleError (by decide)
  · unfold unsupportedExpression
    rw [← List.append_assoc]
    exact not_isCycleError (by decide)

theorem not_isCycleError_flavor {place : Place} {error : Text} (h : place.flavor = .error error) :
    ¬ IsCycleError error := by
  unfold Place.flavor at h
  split at h
  · cases h
  · cases h
    exact not_isCycleError (by decide)
  · cases h
    exact not_isCycleError (by decide)

/-- A var that is not found is in the chain, where its message is a cycle's. -/
theorem mem_chain_of_lookup {vars : List (Text × Text)} {place : Place} {name error : Text}
    (h : place.lookup vars name = .error error) (hcycle : IsCycleError error) :
    name ∈ place.chain := by
  by_contra hchain
  unfold Place.lookup at h
  rw [if_neg hchain] at h
  split at h
  · cases h
  · cases h
    exact not_isCycleError (by decide) hcycle

/-! ## What a text parses to -/

theorem valid_of_scopedName {scope body name : Text} (h : scopedName scope body = some name) :
    isValidPipelineEnvKey name = true :=
  (Option.filter_eq_some_iff.mp h).2

theorem valid_of_readExpression {body name : Text} (h : readExpression body = .ok (.var name)) :
    isValidPipelineEnvKey name = true := by
  unfold readExpression at h
  split at h
  · cases h
  · split at h
    · cases h
    · split at h
      · rename_i hname
        cases h
        exact valid_of_scopedName hname
      · cases h

theorem valid_of_scan {text tail : Text} {pieces : List Piece}
    (h : scan readExpression text = .ok (pieces, tail)) {piece : Piece} (hpiece : piece ∈ pieces)
    {name : Text} (hvar : piece.expression = .var name) : isValidPipelineEnvKey name = true := by
  induction pieces generalizing text with
  | nil => cases hpiece
  | cons first more ih =>
    rcases scan_eq_ok h with ⟨-, hfound, -⟩ | ⟨_, _, body, rest, expression, more', -, -, hread,
      hrest, hfound⟩
    · cases hfound
    · cases hfound
      rcases List.mem_cons.mp hpiece with rfl | hpiece
      · subst hvar
        exact valid_of_readExpression hread
      · exact ih hrest hpiece

/-- The names of vars are valid where they are referred to. -/
theorem valid_of_mentions {text name : Text} (h : Mentions text name) :
    isValidPipelineEnvKey name = true := by
  obtain ⟨pieces, tail, piece, hparse, hpiece, hvar⟩ := h
  exact valid_of_scan hparse hpiece hvar

theorem error_of_readExpression {body error : Text} (h : readExpression body = .error error) :
    ∃ body, error = unsupportedExpression body := by
  unfold readExpression at h
  split at h
  · cases h
  · split at h
    · cases h
    · split at h
      · cases h
      · cases h
        exact ⟨body, rfl⟩

theorem error_of_scanFrom {fuel : ℕ} {text error : Text}
    (h : scanFrom readExpression fuel text = .error error) :
    error = unterminated ∨ ∃ body, error = unsupportedExpression body := by
  induction fuel generalizing text with
  | zero => cases h
  | succ fuel ih =>
    unfold scanFrom at h
    split at h
    · cases h
    · split at h
      · cases h
        exact .inl rfl
      · split at h
        · rename_i hread
          cases h
          exact .inr (error_of_readExpression hread)
        · split at h
          · rename_i hrest
            cases h
            exact ih hrest
          · cases h

/-! ## Resolving with a chain only -/

section Plain

variable {place : Place} {var : Text → Run Unit Text Text} {text : Text}

theorem isTooLong_append {text a b : Text} (h : isTooLong text (a ++ b) = false) :
    isTooLong text a = false := by
  simp only [isTooLong, byteLen_append, Bool.and_eq_false_iff, decide_eq_false_iff_not] at h ⊢
  omega

theorem expandPieces_cons (piece : Piece) (rest : List Piece) (out : Text) :
    expandPieces place var text (piece :: rest) out = expandPiece place var piece >>= fun added =>
      if isTooLong text (out ++ piece.before ++ added) then Run.fail (tooLong place.path)
      else expandPieces place var text rest (out ++ piece.before ++ added) :=
  rfl

theorem expandPieces_cons_of_ok {piece : Piece} {rest : List Piece} {out added : Text}
    (h : expandPiece place var piece () = (.ok added, ()))
    (hfits : isTooLong text (out ++ piece.before ++ added) = false) :
    expandPieces place var text (piece :: rest) out () =
      expandPieces place var text rest (out ++ piece.before ++ added) () := by
  rw [expandPieces_cons, Run.bind_of_ok h, hfits]
  rfl

theorem expandPieces_append {done rest : List Piece} {out out' : Text}
    (h : expandPieces place var text done out () = (.ok out', ())) :
    expandPieces place var text (done ++ rest) out () =
      expandPieces place var text rest out' () := by
  induction done generalizing out with
  | nil =>
    cases h
    rfl
  | cons piece more ih =>
    rw [expandPieces_cons] at h
    obtain ⟨added, ⟨⟩, hadded, h⟩ := Run.bind_eq_ok_iff.mp h
    split at h
    · cases h
    · rename_i hfits
      rw [List.cons_append, expandPieces_cons_of_ok hadded (Bool.eq_false_iff.mpr hfits)]
      exact ih h

theorem flavor_eq_ok_iff {flavor : Text} :
    place.flavor = .ok flavor ↔ place.scope.text = some flavor := by
  unfold Place.flavor FlavorScope.text
  cases place.scope with
  | value _ other => simp
  | noFlavors => simp
  | outside => simp

theorem expandPiece_var {piece : Piece} {name : Text} (h : piece.expression = .var name) :
    expandPiece place var piece = var name := by
  rw [expandPiece, h]

theorem substitutePiece_of_expand {vars : List (Text × Text)} {value : Text → Option Text}
    {piece : Piece} {added : Text}
    (hvar : ∀ name added, var name () = (.ok added, ()) →
      (vars.lookup name).bind value = some added)
    (h : expandPiece place var piece () = (.ok added, ())) :
    substitutePiece vars place.scope.text value piece = some added := by
  cases hexpr : piece.expression with
  | secret name =>
    rw [expandPiece, hexpr] at h
    rw [substitutePiece, hexpr]
    cases h
    rfl
  | flavor =>
    rw [expandPiece, hexpr] at h
    rw [substitutePiece, hexpr]
    exact flavor_eq_ok_iff.mp (congrArg Prod.fst h)
  | var name =>
    rw [expandPiece_var hexpr] at h
    rw [substitutePiece_var hexpr]
    exact hvar name added h

theorem expandPiece_of_substitute {vars : List (Text × Text)} {value : Text → Option Text}
    {piece : Piece} {added : Text}
    (hvar : ∀ name added, piece.expression = .var name →
      (vars.lookup name).bind value = some added → var name () = (.ok added, ()))
    (h : substitutePiece vars place.scope.text value piece = some added) :
    expandPiece place var piece () = (.ok added, ()) := by
  cases hexpr : piece.expression with
  | secret name =>
    rw [substitutePiece, hexpr] at h
    rw [expandPiece, hexpr]
    cases h
    rfl
  | flavor =>
    rw [substitutePiece, hexpr] at h
    rw [expandPiece, hexpr]
    exact Prod.ext (flavor_eq_ok_iff.mpr h) rfl
  | var name =>
    rw [substitutePiece_var hexpr] at h
    rw [expandPiece_var hexpr]
    exact hvar name added hexpr h

/-- Expressions that become some text did so one by one. -/
theorem substitutePieces_of_expand {vars : List (Text × Text)} {value : Text → Option Text}
    {pieces : List Piece} {out out' : Text}
    (hvar : ∀ name added, var name () = (.ok added, ()) →
      (vars.lookup name).bind value = some added)
    (h : expandPieces place var text pieces out () = (.ok out', ()))
    (hfits : isTooLong text out = false) :
    ∃ added, substitutePieces vars place.scope.text value pieces = some added ∧
      out' = out ++ added ∧ isTooLong text out' = false := by
  induction pieces generalizing out with
  | nil =>
    cases h
    exact ⟨[], rfl, (List.append_nil _).symm, hfits⟩
  | cons piece rest ih =>
    rw [expandPieces_cons] at h
    obtain ⟨added, ⟨⟩, hadded, h⟩ := Run.bind_eq_ok_iff.mp h
    split at h
    · cases h
    · rename_i hfits'
      obtain ⟨more, hmore, rfl, hlast⟩ := ih h (Bool.eq_false_iff.mpr hfits')
      refine ⟨piece.before ++ added ++ more, substitutePieces_cons ?_ hmore, by simp, hlast⟩
      exact substitutePiece_of_expand hvar hadded

/-- Expressions that are replaced one by one become the text, if that is not too long. -/
theorem expand_of_substitutePieces {vars : List (Text × Text)} {value : Text → Option Text}
    {pieces : List Piece} {out added : Text}
    (hvar : ∀ piece ∈ pieces, ∀ name added, piece.expression = .var name →
      (vars.lookup name).bind value = some added → var name () = (.ok added, ()))
    (h : substitutePieces vars place.scope.text value pieces = some added)
    (hfits : isTooLong text (out ++ added) = false) :
    expandPieces place var text pieces out () = (.ok (out ++ added), ()) := by
  induction pieces generalizing out added with
  | nil =>
    cases h
    rw [List.append_nil]
    rfl
  | cons piece rest ih =>
    obtain ⟨first, more, hfirst, hmore, rfl⟩ := substitutePieces_cons_eq_some h
    have hassoc : out ++ (piece.before ++ first ++ more) =
        out ++ piece.before ++ first ++ more := by
      simp
    rw [hassoc] at hfits ⊢
    have hpiece : expandPiece place var piece () = (.ok first, ()) :=
      expandPiece_of_substitute (hvar piece List.mem_cons_self) hfirst
    rw [expandPieces_cons_of_ok hpiece (isTooLong_append hfits)]
    exact ih (fun piece hpiece => hvar piece (List.mem_cons_of_mem _ hpiece)) hmore hfits

/-- Expressions fail at one of them, or where the text gets too long. -/
theorem expandPieces_eq_error {pieces : List Piece} {out error : Text}
    (h : expandPieces place var text pieces out () = (.error error, ())) :
    (∃ done piece rest out', pieces = done ++ piece :: rest ∧
      expandPieces place var text done out () = (.ok out', ()) ∧
      expandPiece place var piece () = (.error error, ())) ∨ error = tooLong place.path := by
  induction pieces generalizing out with
  | nil => cases h
  | cons piece rest ih =>
    rcases hpiece : expandPiece place var piece () with ⟨result, ⟨⟩⟩
    cases result with
    | error error' =>
      rw [expandPieces_cons, Run.bind_of_error hpiece] at h
      cases h
      exact .inl ⟨[], piece, rest, out, rfl, rfl, hpiece⟩
    | ok added =>
      rw [expandPieces_cons, Run.bind_of_ok hpiece] at h
      split at h
      · cases h
        exact .inr rfl
      · rename_i hfits
        rcases ih h with ⟨done, piece', rest', out', rfl, hdone, herror⟩ | herror
        · refine .inl ⟨piece :: done, piece', rest', out', rfl, ?_, herror⟩
          rw [expandPieces_cons_of_ok hpiece (Bool.eq_false_iff.mpr hfits)]
          exact hdone
        · exact .inr herror

end Plain

/-- Replace a var by what `inner` makes of its value. -/
def plainVar (vars : List (Text × Text)) (place : Place)
    (inner : Place → Text → Run Unit Text Text) (name : Text) : Run Unit Text Text := do
  let value ← ofExcept (place.lookup vars name)
  inner (place.into name) value

def plainInner (vars : List (Text × Text)) : ℕ → Place → Text → Run Unit Text Text
  | 0, place, _ => Run.fail place.path
  | fuel + 1, place, text => expandText place (plainVar vars place (plainInner vars fuel)) text

section

variable {vars : List (Text × Text)}

theorem plainVar_of_ok {place : Place} {inner : Place → Text → Run Unit Text Text}
    {name value : Text} (h : place.lookup vars name = .ok value) :
    plainVar vars place inner name () = inner (place.into name) value () :=
  Run.bind_of_ok (ofExcept_of_ok h)

theorem plainVar_of_error {place : Place} {inner : Place → Text → Run Unit Text Text}
    {name error : Text} (h : place.lookup vars name = .error error) :
    plainVar vars place inner name () = (.error error, ()) :=
  Run.bind_of_error (by rw [ofExcept, h])

theorem lookup_of_plainVar {place : Place} {inner : Place → Text → Run Unit Text Text}
    {name added : Text} (h : plainVar vars place inner name () = (.ok added, ())) :
    ∃ value, vars.lookup name = some value ∧
      inner (place.into name) value () = (.ok added, ()) := by
  cases hlookup : place.lookup vars name with
  | error error =>
    rw [plainVar_of_error hlookup] at h
    cases h
  | ok value =>
    rw [plainVar_of_ok hlookup] at h
    exact ⟨value, (lookup_eq_ok hlookup).2, h⟩

/-- The expansion ends in the same way, whatever it has tallied. -/
theorem walkInner_agrees_plain (fuel : ℕ) (place : Place) (text : Text) :
    Run.Agrees (fun _ _ => True) (fun _ _ _ => False) (walkInner vars fuel place text)
      (plainInner vars fuel place text) := by
  induction fuel generalizing place text with
  | zero => exact Run.agrees_fail _
  | succ fuel ih =>
    refine expandText_agrees (fun name => ?_) (fun name => ?_) text
    · intro t _ _
      cases hlookup : place.lookup vars name with
      | error error =>
        rw [walkVar_of_error hlookup, plainVar_of_error hlookup]
        exact .inl ⟨rfl, trivial⟩
      | ok value =>
        rw [plainVar_of_ok hlookup]
        rcases ih (place.into name) value Tally.zero () trivial with ⟨heq, -⟩ | ⟨_, _, hfalse⟩
        · refine .inl ⟨?_, trivial⟩
          rw [← heq]
          rcases hwalk : walkInner vars fuel (place.into name) value Tally.zero with
            ⟨result, inner⟩
          cases result with
          | ok resolved => rw [walkVar_of_ok hlookup hwalk]
          | error error => rw [walkVar_of_inner_error hlookup hwalk]
        · exact hfalse.elim
    · exact fun _ _ _ h => h.elim

theorem walk_eq_plain (vars : List (Text × Text)) (text : Text) (scope : FlavorScope)
    (path : Text) : (walk vars text scope path).1 =
      (plainInner vars (vars.length + 1) ⟨scope, path, 0, []⟩ text ()).1 := by
  rcases walkInner_agrees_plain (vars.length + 1) ⟨scope, path, 0, []⟩ text Tally.zero () trivial
    with ⟨heq, -⟩ | ⟨_, _, hfalse⟩
  · exact heq
  · exact hfalse.elim

theorem expandText_of_parse {place : Place} {var : Text → Run Unit Text Text} {text tail : Text}
    {pieces : List Piece} (h : parseExpressions text = .ok (pieces, tail)) :
    expandText place var text =
      expandPieces place var text pieces [] >>= finishText place text tail := by
  rw [expandText, h]

/-- What is resolved fits. -/
theorem fitted_of_plainInner {fuel : ℕ} {place : Place} {text out : Text}
    (h : plainInner vars fuel place text () = (.ok out, ())) :
    fitted vars place.scope.text fuel text = some out := by
  induction fuel generalizing place text out with
  | zero => cases h
  | succ fuel ih =>
    rw [plainInner] at h
    cases hparse : parseExpressions text with
    | error error =>
      rw [expandText, hparse] at h
      cases h
    | ok parsed =>
      obtain ⟨pieces, tail⟩ := parsed
      rw [expandText_of_parse hparse] at h
      obtain ⟨covered, ⟨⟩, hpieces, hfinish⟩ := Run.bind_eq_ok_iff.mp h
      unfold finishText at hfinish
      split at hfinish
      · cases hfinish
      · rename_i hfits
        cases hfinish
        have hvar : ∀ name added, plainVar vars place (plainInner vars fuel) name () =
            (.ok added, ()) →
            (vars.lookup name).bind (fitted vars place.scope.text fuel) = some added := by
          intro name added hadded
          obtain ⟨value, hvalue, hinner⟩ := lookup_of_plainVar hadded
          have hfits := ih hinner
          exact Option.bind_eq_some_iff.mpr ⟨value, hvalue, hfits⟩
        obtain ⟨added, hadded, heq, -⟩ :=
          substitutePieces_of_expand hvar hpieces (isTooLong_nil text)
        rw [List.nil_append] at heq
        subst heq
        refine fitted_eq_some_iff.mpr ⟨?_, Bool.eq_false_iff.mpr hfits⟩
        rw [substituteText, hparse]
        simp only [hadded, Option.map_some]

/-- A var that fits is resolved where it leads to no var of the chain. -/
theorem plainVar_of_fitted {depth fuel : ℕ} {place : Place} {name added : Text}
    (h : (vars.lookup name).bind (fitted vars place.scope.text depth) = some added)
    (hapart : ∀ other ∈ place.chain, ¬ ReflTransGen (Refers vars) name other)
    (henough : Enough vars (fuel + 1) place.chain) :
    plainVar vars place (plainInner vars fuel) name () = (.ok added, ()) := by
  induction depth generalizing fuel place name added with
  | zero =>
    obtain ⟨value, -, hfits⟩ := Option.bind_eq_some_iff.mp h
    cases hfits
  | succ depth ih =>
    obtain ⟨value, hvalue, hfits⟩ := Option.bind_eq_some_iff.mp h
    have hfresh : name ∉ place.chain := fun hmem => hapart name hmem .refl
    have hinner := henough.into hfresh hvalue
    obtain ⟨fuel, rfl⟩ : ∃ n, fuel = n + 1 := by
      refine ⟨fuel - 1, ?_⟩
      unfold Enough at hinner
      omega
    obtain ⟨htext, hlength⟩ := fitted_eq_some_iff.mp hfits
    rw [plainVar_of_ok (lookup_of_notMem hfresh hvalue), plainInner]
    unfold substituteText at htext
    split at htext
    · cases htext
    · rename_i pieces tail hparse
      obtain ⟨covered, hcovered, rfl⟩ := Option.map_eq_some_iff.mp htext
      have hpieces : expandPieces (place.into name)
          (plainVar vars (place.into name) (plainInner vars fuel)) value pieces [] () =
          (.ok covered, ()) := by
        refine expand_of_substitutePieces (fun piece hpiece other added hexpr hother => ?_) hcovered
          (isTooLong_append hlength)
        have hrefers : Refers vars name other :=
          ⟨value, hvalue, pieces, tail, piece, hparse, hpiece, hexpr⟩
        refine ih hother (fun earlier hearlier hleads => ?_) hinner
        rcases List.mem_append.mp hearlier with hearlier | hearlier
        · exact hapart earlier hearlier (.head hrefers hleads)
        · rw [List.mem_singleton.mp hearlier] at hleads
          exact not_refers_self hvalue hfits (.head' hrefers hleads)
      rw [expandText_of_parse hparse, Run.bind_of_ok hpieces, finishText, hlength]
      rfl

/-- The text before a reference is resolved where no var of the chain is left out of a cycle. -/
theorem expandPieces_of_readsUpTo {fuel : ℕ} {place : Place} {text name : Text}
    (h : ReadsUpTo vars place.scope.text text name)
    (hchain : ∀ earlier ∈ place.chain, ∀ other, Mentions text other →
      TransGen (Refers vars) earlier other)
    (henough : Enough vars (fuel + 1) place.chain) :
    ∃ pieces tail done piece rest out, parseExpressions text = .ok (pieces, tail) ∧
      pieces = done ++ piece :: rest ∧ piece.expression = .var name ∧
      expandPieces place (plainVar vars place (plainInner vars fuel)) text done [] () =
        (.ok out, ()) := by
  obtain ⟨pieces, tail, done, piece, rest, depth, out, hparse, hpieces, hvar, hdone, hfits⟩ := h
  refine ⟨pieces, tail, done, piece, rest, out, hparse, hpieces, hvar, ?_⟩
  refine expand_of_substitutePieces (fun before hbefore other added hexpr hother => ?_) hdone hfits
  refine plainVar_of_fitted hother (fun earlier hearlier hleads => ?_) henough
  have hmention : Mentions text other := by
    refine ⟨pieces, tail, before, hparse, ?_, hexpr⟩
    rw [hpieces]
    exact List.mem_append_left _ hbefore
  obtain ⟨value, hvalue, hinner⟩ := Option.bind_eq_some_iff.mp hother
  have hcycle : TransGen (Refers vars) other other :=
    TransGen.trans_right hleads (hchain earlier hearlier other hmention)
  exact not_refers_self hvalue hinner hcycle

/-- A cycle that is met is what resolving ends with. -/
theorem plainInner_of_meetsCycle {fuel : ℕ} {place : Place} {text : Text}
    (h : MeetsCycle vars place.scope.text place.chain text)
    (hchain : ∀ earlier ∈ place.chain, ∀ other, Mentions text other →
      TransGen (Refers vars) earlier other)
    (hvalid : ∀ earlier ∈ place.chain, isValidPipelineEnvKey earlier = true)
    (henough : Enough vars fuel place.chain) :
    ∃ error, plainInner vars fuel place text () = (.error error, ()) ∧ IsCycleError error := by
  obtain ⟨chain, hplace⟩ : ∃ chain, chain = place.chain := ⟨_, rfl⟩
  obtain ⟨flavor, hflavor⟩ : ∃ flavor, flavor = place.scope.text := ⟨_, rfl⟩
  rw [← hplace, ← hflavor] at h
  induction h generalizing fuel place with
  | back reads visited =>
    subst hplace hflavor
    rename_i text name
    obtain ⟨fuel, rfl⟩ : ∃ n, fuel = n + 1 := ⟨fuel - 1, by unfold Enough at henough; omega⟩
    obtain ⟨pieces, tail, done, piece, rest, out, hparse, rfl, hvar, hdone⟩ :=
      expandPieces_of_readsUpTo reads hchain henough
    have hlookup : place.lookup vars name = .error (cycleError place.chain name) := by
      rw [Place.lookup, if_pos visited]
    refine ⟨cycleError place.chain name, ?_, place.chain, name, visited, hvalid, rfl⟩
    rw [plainInner, expandText_of_parse hparse]
    refine Run.bind_of_error ?_
    rw [expandPieces_append hdone, expandPieces_cons, expandPiece_var hvar]
    exact Run.bind_of_error (plainVar_of_error hlookup)
  | into reads fresh defined inner ih =>
    subst hplace hflavor
    rename_i text name value
    obtain ⟨fuel, rfl⟩ : ∃ n, fuel = n + 1 := ⟨fuel - 1, by unfold Enough at henough; omega⟩
    obtain ⟨pieces, tail, done, piece, rest, out, hparse, rfl, hvar, hdone⟩ :=
      expandPieces_of_readsUpTo reads hchain henough
    have hlookup := lookup_of_notMem fresh defined
    have hinner : ∃ error, plainInner vars fuel (place.into name) value () = (.error error, ()) ∧
        IsCycleError error := by
      refine ih ?_ ?_ (henough.into fresh defined) rfl rfl
      · intro earlier hearlier other hmention
        have hrefers : Refers vars name other := ⟨value, defined, hmention⟩
        rcases List.mem_append.mp hearlier with hearlier | hearlier
        · exact (hchain earlier hearlier name reads.mentions).tail hrefers
        · rw [List.mem_singleton.mp hearlier]
          exact .single hrefers
      · intro earlier hearlier
        rcases List.mem_append.mp hearlier with hearlier | hearlier
        · exact hvalid earlier hearlier
        · rw [List.mem_singleton.mp hearlier]
          exact valid_of_mentions reads.mentions
    obtain ⟨error, hinner, hcycle⟩ := hinner
    refine ⟨error, ?_, hcycle⟩
    rw [plainInner, expandText_of_parse hparse]
    refine Run.bind_of_error ?_
    rw [expandPieces_append hdone, expandPieces_cons, expandPiece_var hvar]
    refine Run.bind_of_error ?_
    rw [plainVar_of_ok hlookup]
    exact hinner

/-- Resolving ends with a cycle only where one is met. -/
theorem meetsCycle_of_plainInner {fuel : ℕ} {place : Place} {text error : Text}
    (h : plainInner vars fuel place text () = (.error error, ())) (hcycle : IsCycleError error)
    (henough : Enough vars fuel place.chain) :
    MeetsCycle vars place.scope.text place.chain text := by
  induction fuel generalizing place text with
  | zero => exact absurd henough (Nat.not_lt_zero _)
  | succ fuel ih =>
    rw [plainInner] at h
    cases hparse : parseExpressions text with
    | error parseError =>
      rw [expandText, hparse] at h
      cases h
      exact absurd hcycle (not_isCycleError_parse place (error_of_scanFrom hparse))
    | ok parsed =>
      obtain ⟨pieces, tail⟩ := parsed
      rw [expandText_of_parse hparse] at h
      rcases hpieces : expandPieces place (plainVar vars place (plainInner vars fuel)) text pieces
        [] () with ⟨result, ⟨⟩⟩
      cases result with
      | ok out =>
        rw [Run.bind_of_ok hpieces, finishText] at h
        split at h
        · cases h
          exact absurd hcycle (not_isCycleError_tooLong _)
        · cases h
      | error error' =>
        rw [Run.bind_of_error hpieces] at h
        cases h
        rcases expandPieces_eq_error hpieces with ⟨done, piece, rest, out, rfl, hdone, hpiece⟩ | rfl
        · have hvar : ∀ name added, plainVar vars place (plainInner vars fuel) name () =
              (.ok added, ()) →
              (vars.lookup name).bind (fitted vars place.scope.text fuel) = some added := by
            intro name added hadded
            obtain ⟨value, hvalue, hinner⟩ := lookup_of_plainVar hadded
            have hfits := fitted_of_plainInner hinner
            exact Option.bind_eq_some_iff.mpr ⟨value, hvalue, hfits⟩
          obtain ⟨added, hadded, heq, hfits⟩ :=
            substitutePieces_of_expand hvar hdone (isTooLong_nil text)
          rw [List.nil_append] at heq
          subst heq
          cases hexpr : piece.expression with
          | secret name =>
            rw [expandPiece, hexpr] at hpiece
            cases hpiece
          | flavor =>
            rw [expandPiece, hexpr] at hpiece
            exact absurd hcycle (not_isCycleError_flavor (congrArg Prod.fst hpiece))
          | var name =>
            have hreads : ReadsUpTo vars place.scope.text text name :=
              ⟨_, tail, done, piece, rest, fuel, out, hparse, rfl, hexpr, hadded, hfits⟩
            rw [expandPiece_var hexpr] at hpiece
            cases hlookup : place.lookup vars name with
            | error error =>
              rw [plainVar_of_error hlookup] at hpiece
              cases hpiece
              exact .back hreads (mem_chain_of_lookup hlookup hcycle)
            | ok value =>
              obtain ⟨hfresh, hvalue⟩ := lookup_eq_ok hlookup
              rw [plainVar_of_ok hlookup] at hpiece
              exact .into hreads hfresh hvalue (ih hpiece (henough.into hfresh hvalue))
        · exact absurd hcycle (not_isCycleError_tooLong _)

/-- Resolving a field ends with a cycle exactly where one is met. -/
theorem plainInner_cycle_iff (text path : Text) (scope : FlavorScope) :
    (∃ error, (plainInner vars (vars.length + 1) ⟨scope, path, 0, []⟩ text ()).1 = .error error ∧
      IsCycleError error) ↔ MeetsCycle vars scope.text [] text := by
  constructor
  · rintro ⟨error, herror, hcycle⟩
    exact meetsCycle_of_plainInner (Prod.ext herror rfl) hcycle enough_nil
  · intro h
    let place : Place := ⟨scope, path, 0, []⟩
    have hplace : MeetsCycle vars place.scope.text place.chain text := h
    obtain ⟨error, herror, hcycle⟩ := plainInner_of_meetsCycle hplace nofun nofun enough_nil
    exact ⟨error, congrArg Prod.fst herror, hcycle⟩

end

end OoreBuild
