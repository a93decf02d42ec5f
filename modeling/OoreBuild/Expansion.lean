import OoreBuild.Resolver

/-!
# What a text expands to, and what that costs

`walkInner` is the expansion that the resolver is meant to compute: without a cache and without a
budget. It tallies the references it visits outside of the vars it completes, the text these
added, and the vars it completed. The main result (`resolveInner_agrees`) is that the resolver
ends like it, having spent the tally plus the cost of each var it had not resolved before, or
else stops at a limit because that is more than the budget has left.
-/

namespace OoreBuild

open Text

/-! ## Rules for substitution -/

section Rules

variable {σ τ : Type}

section Moves

variable {P : σ → σ → Prop} [Std.Refl P] [IsTrans σ P] {place : Place}
  {var : Text → Run σ Text Text}

omit [IsTrans σ P] in
theorem moves_ofExcept {α : Type} (result : Except Text α) :
    Run.Moves P (ofExcept result : Run σ Text α) := fun s => Std.Refl.refl s

omit [IsTrans σ P] in
theorem expandPiece_moves (hvar : ∀ name, Run.Moves P (var name)) (piece : Piece) :
    Run.Moves P (expandPiece place var piece) := by
  unfold expandPiece
  split
  · exact Run.moves_pure _
  · exact moves_ofExcept _
  · exact hvar _

theorem expandPieces_moves (hvar : ∀ name, Run.Moves P (var name)) (text : Text)
    (pieces : List Piece) (out : Text) : Run.Moves P (expandPieces place var text pieces out) := by
  induction pieces generalizing out with
  | nil => exact Run.moves_pure _
  | cons piece rest ih =>
    refine Run.Moves.bind (expandPiece_moves hvar piece) fun added => ?_
    dsimp only
    split
    · exact Run.moves_fail _
    · exact ih _

/-- What one var does to the state, a text does, too. -/
theorem expandText_moves (hvar : ∀ name, Run.Moves P (var name)) (text : Text) :
    Run.Moves P (expandText place var text) := by
  unfold expandText
  split
  · exact Run.moves_fail _
  · refine Run.Moves.bind (expandPieces_moves hvar text _ _) fun out => ?_
    unfold finishText
    split
    · exact Run.moves_fail _
    · exact Run.moves_pure _

theorem expandPieces_movesOk (hvar : ∀ name, Run.MovesOk P (var name)) (text : Text)
    (pieces : List Piece) (out : Text) :
    Run.MovesOk P (expandPieces place var text pieces out) := by
  induction pieces generalizing out with
  | nil => exact (Run.moves_pure _).movesOk
  | cons piece rest ih =>
    refine Run.MovesOk.bind ?_ fun added => ?_
    · unfold expandPiece
      split
      · exact (Run.moves_pure _).movesOk
      · exact (moves_ofExcept _).movesOk
      · exact hvar _
    · dsimp only
      split
      · exact Run.movesOk_fail _
      · exact ih _

/-- What one var does to the state where it succeeds, a text that expands does, too. -/
theorem expandText_movesOk (hvar : ∀ name, Run.MovesOk P (var name)) (text : Text) :
    Run.MovesOk P (expandText place var text) := by
  unfold expandText
  split
  · exact Run.movesOk_fail _
  · refine Run.MovesOk.bind (expandPieces_movesOk hvar text _ _) fun out => ?_
    unfold finishText
    split
    · exact Run.movesOk_fail _
    · exact (Run.moves_pure _).movesOk

end Moves

section Agree

variable {I : σ → τ → Prop} {Own : Text → σ → τ → Prop} {place : Place}
  {var : Text → Run σ Text Text} {var' : Text → Run τ Text Text}

theorem finishText_agrees (text tail out : Text) :
    Run.Agrees I Own (finishText place text tail out) (finishText place text tail out) := by
  unfold finishText
  split
  · exact Run.agrees_fail _
  · exact Run.agrees_pure _

theorem finishText_moves {P : τ → τ → Prop} [Std.Refl P] (text tail out : Text) :
    Run.Moves P (finishText place text tail out) := by
  unfold finishText
  split
  · exact Run.moves_fail _
  · exact Run.moves_pure _

theorem expandPiece_agrees (hvar : ∀ name, Run.Agrees I Own (var name) (var' name))
    (piece : Piece) :
    Run.Agrees I Own (expandPiece place var piece) (expandPiece place var' piece) := by
  unfold expandPiece
  cases piece.expression with
  | secret name => exact Run.agrees_pure _
  | flavor => exact fun s t h => .inl ⟨rfl, h⟩
  | var name => exact hvar name

theorem expandPieces_agrees (hvar : ∀ name, Run.Agrees I Own (var name) (var' name))
    (hkept : ∀ name, Run.Moves (Run.Kept Own) (var' name)) (text : Text) (pieces : List Piece)
    (out : Text) :
    Run.Agrees I Own (expandPieces place var text pieces out)
      (expandPieces place var' text pieces out) := by
  induction pieces generalizing out with
  | nil => exact Run.agrees_pure _
  | cons piece rest ih =>
    refine Run.Agrees.bind (expandPiece_agrees hvar piece) (fun added => ?_) fun added => ?_
    · dsimp only
      split
      · exact Run.agrees_fail _
      · exact ih _
    · dsimp only
      split
      · exact Run.moves_fail _
      · exact expandPieces_moves hkept text rest _

/-- Substitutions agree where what they do with a var does. -/
theorem expandText_agrees (hvar : ∀ name, Run.Agrees I Own (var name) (var' name))
    (hkept : ∀ name, Run.Moves (Run.Kept Own) (var' name)) (text : Text) :
    Run.Agrees I Own (expandText place var text) (expandText place var' text) := by
  unfold expandText
  split
  · exact Run.agrees_fail _
  · exact Run.Agrees.bind (expandPieces_agrees hvar hkept text _ _)
      (fun out => finishText_agrees text _ out) fun out => finishText_moves text _ out

end Agree

section Transfer

variable {Q : σ → Prop} {place place' : Place} {var var' : Text → Run σ Text Text}

theorem flavor_of_scope (hscope : place.scope = place'.scope) {flavor : Text}
    (h : place.flavor = .ok flavor) : place'.flavor = .ok flavor := by
  unfold Place.flavor at h ⊢
  rw [← hscope]
  split at h
  · exact h
  · cases h
  · cases h

theorem expandPiece_transfers (hscope : place.scope = place'.scope)
    (hvar : ∀ name, Run.Transfers Q (var name) (var' name)) (piece : Piece) :
    Run.Transfers Q (expandPiece place var piece) (expandPiece place' var' piece) := by
  unfold expandPiece
  cases piece.expression with
  | secret name => exact Run.transfers_refl _
  | flavor =>
    intro s flavor s' _ h
    obtain ⟨hflavor, hs⟩ := Prod.ext_iff.mp h
    exact Prod.ext (flavor_of_scope hscope hflavor) hs
  | var name => exact hvar name

theorem finishText_transfers (text tail out : Text) :
    Run.Transfers Q (finishText place text tail out) (finishText place' text tail out) := by
  unfold finishText
  split
  · exact Run.transfers_fail _ _
  · exact Run.transfers_refl _

theorem expandPieces_transfers (hscope : place.scope = place'.scope)
    (hback : ∀ name, Run.MovesOk (Run.Reflects Q) (var name))
    (hvar : ∀ name, Run.Transfers Q (var name) (var' name)) (text : Text) (pieces : List Piece)
    (out : Text) :
    Run.Transfers Q (expandPieces place var text pieces out)
      (expandPieces place' var' text pieces out) := by
  induction pieces generalizing out with
  | nil => exact Run.transfers_refl _
  | cons piece rest ih =>
    refine Run.Transfers.bind (expandPiece_transfers hscope hvar piece) (fun added => ?_)
      fun added => ?_
    · dsimp only
      split
      · exact Run.transfers_fail _ _
      · exact ih _
    · dsimp only
      split
      · exact Run.movesOk_fail _
      · exact expandPieces_movesOk hback text rest _

/-- A text that expands at one place expands at another one of its scope in the same way, if its
vars do. -/
theorem expandText_transfers (hscope : place.scope = place'.scope)
    (hback : ∀ name, Run.MovesOk (Run.Reflects Q) (var name))
    (hvar : ∀ name, Run.Transfers Q (var name) (var' name)) (text : Text) :
    Run.Transfers Q (expandText place var text) (expandText place' var' text) := by
  unfold expandText
  split
  · exact Run.transfers_fail _ _
  · exact Run.Transfers.bind (expandPieces_transfers hscope hback hvar text _ _)
      (fun out => finishText_transfers text _ out) fun out => (finishText_moves text _ out).movesOk

end Transfer

end Rules

/-! ## The expansion itself -/

/-- What an expansion cost: the references it visited outside of the vars it completed, the text
that these added, and the vars it completed. -/
structure Tally where
  visits : ℕ
  bytes : ℕ
  keys : Finset Key

def Tally.zero : Tally := ⟨0, 0, ∅⟩

/-- Replace a var by what `walkValue` makes of its value. -/
def walkVar (vars : List (Text × Text)) (place : Place)
    (walkValue : Place → Text → Run Tally Text Text) (name : Text) : Run Tally Text Text :=
  fun t =>
  match place.lookup vars name with
  | .error error => (.error error, t)
  | .ok value =>
    match walkValue (place.into name) value Tally.zero with
    | (.ok resolved, inner) =>
      (.ok resolved, ⟨t.visits + 1, t.bytes + byteLen resolved,
        insert (name, place.scope) (t.keys ∪ inner.keys)⟩)
    | (.error error, inner) =>
      (.error error, ⟨t.visits + 1 + inner.visits, t.bytes + inner.bytes, t.keys ∪ inner.keys⟩)

def walkInner (vars : List (Text × Text)) : ℕ → Place → Text → Run Tally Text Text
  | 0, place, _ => Run.fail place.path
  | fuel + 1, place, text => expandText place (walkVar vars place (walkInner vars fuel)) text

section Walk

variable {vars : List (Text × Text)}

theorem walkVar_of_error {place : Place} {walkValue : Place → Text → Run Tally Text Text}
    {name error : Text} {t : Tally} (h : place.lookup vars name = .error error) :
    walkVar vars place walkValue name t = (.error error, t) := by
  unfold walkVar
  rw [h]

theorem walkVar_of_ok {place : Place} {walkValue : Place → Text → Run Tally Text Text}
    {name value resolved : Text} {t inner : Tally} (h : place.lookup vars name = .ok value)
    (hinner : walkValue (place.into name) value Tally.zero = (.ok resolved, inner)) :
    walkVar vars place walkValue name t = (.ok resolved, ⟨t.visits + 1, t.bytes + byteLen resolved,
      insert (name, place.scope) (t.keys ∪ inner.keys)⟩) := by
  unfold walkVar
  rw [h]
  dsimp only
  rw [hinner]

theorem walkVar_of_inner_error {place : Place} {walkValue : Place → Text → Run Tally Text Text}
    {name value error : Text} {t inner : Tally} (h : place.lookup vars name = .ok value)
    (hinner : walkValue (place.into name) value Tally.zero = (.error error, inner)) :
    walkVar vars place walkValue name t = (.error error,
      ⟨t.visits + 1 + inner.visits, t.bytes + inner.bytes, t.keys ∪ inner.keys⟩) := by
  unfold walkVar
  rw [h]
  dsimp only
  rw [hinner]

/-- The three ways a var can go. -/
theorem walkVar_cases (vars : List (Text × Text)) (place : Place) (walkValue : Place → Text → Run Tally Text Text)
    (name : Text) (t : Tally) :
    (∃ error, place.lookup vars name = .error error ∧
      walkVar vars place walkValue name t = (.error error, t)) ∨
    (∃ value resolved inner, place.lookup vars name = .ok value ∧
      walkValue (place.into name) value Tally.zero = (.ok resolved, inner) ∧
      walkVar vars place walkValue name t = (.ok resolved, ⟨t.visits + 1,
        t.bytes + byteLen resolved, insert (name, place.scope) (t.keys ∪ inner.keys)⟩)) ∨
    (∃ value error inner, place.lookup vars name = .ok value ∧
      walkValue (place.into name) value Tally.zero = (.error error, inner) ∧
      walkVar vars place walkValue name t = (.error error,
        ⟨t.visits + 1 + inner.visits, t.bytes + inner.bytes, t.keys ∪ inner.keys⟩)) := by
  cases h : place.lookup vars name with
  | error error => exact .inl ⟨error, rfl, walkVar_of_error h⟩
  | ok value =>
    rcases hinner : walkValue (place.into name) value Tally.zero with ⟨result, inner⟩
    cases result with
    | ok resolved => exact .inr (.inl ⟨value, resolved, inner, rfl, hinner, walkVar_of_ok h hinner⟩)
    | error error =>
      exact .inr (.inr ⟨value, error, inner, rfl, hinner, walkVar_of_inner_error h hinner⟩)

theorem lookup_eq_ok {place : Place} {name value : Text} (h : place.lookup vars name = .ok value) :
    name ∉ place.chain ∧ vars.lookup name = some value := by
  unfold Place.lookup at h
  split at h
  · cases h
  · rename_i hchain
    split at h
    · rename_i value' hvalue
      cases h
      exact ⟨hchain, hvalue⟩
    · cases h

theorem lookup_of_notMem {place : Place} {name value : Text} (hchain : name ∉ place.chain)
    (h : vars.lookup name = some value) : place.lookup vars name = .ok value := by
  unfold Place.lookup
  rw [if_neg hchain, h]

/-- How a tally grows at a place: only by vars of its scope that are not in its chain. -/
structure Grows (place : Place) (t t' : Tally) : Prop where
  visits : t.visits ≤ t'.visits
  bytes : t.bytes ≤ t'.bytes
  keys : t.keys ⊆ t'.keys
  fresh : ∀ key ∈ t'.keys, key ∈ t.keys ∨ key.2 = place.scope ∧ key.1 ∉ place.chain

instance (place : Place) : Std.Refl (Grows place) :=
  ⟨fun _ => ⟨le_rfl, le_rfl, Finset.Subset.refl _, fun _ h => .inl h⟩⟩

instance (place : Place) : IsTrans Tally (Grows place) := by
  refine ⟨fun a b c h h' => ⟨h.visits.trans h'.visits, h.bytes.trans h'.bytes,
    h.keys.trans h'.keys, fun key hkey => ?_⟩⟩
  rcases h'.fresh key hkey with hb | hnew
  · exact h.fresh key hb
  · exact .inr hnew

theorem walkVar_grows {fuel : ℕ}
    (ih : ∀ place text, Run.Moves (Grows place) (walkInner vars fuel place text)) (place : Place)
    (name : Text) : Run.Moves (Grows place) (walkVar vars place (walkInner vars fuel) name) := by
  intro t
  have hinner : ∀ value inner, (walkInner vars fuel (place.into name) value Tally.zero).2 = inner →
      ∀ key ∈ inner.keys, key.2 = place.scope ∧ key.1 ∉ place.chain := by
    rintro value inner rfl key hkey
    rcases (ih (place.into name) value Tally.zero).fresh key hkey with h | ⟨hscope, hchain⟩
    · exact absurd h (Finset.notMem_empty key)
    · exact ⟨hscope, fun h => hchain (List.mem_append_left _ h)⟩
  rcases walkVar_cases vars place (walkInner vars fuel) name t with
    ⟨error, -, h⟩ | ⟨value, resolved, inner, hvalue, hwalk, h⟩ |
    ⟨value, error, inner, -, hwalk, h⟩ <;> rw [h]
  · exact Std.Refl.refl t
  · refine ⟨Nat.le_succ _, Nat.le_add_right _ _, ?_, fun key hkey => ?_⟩
    · exact Finset.subset_union_left.trans (Finset.subset_insert _ _)
    · rcases Finset.mem_insert.mp hkey with rfl | hkey
      · exact .inr ⟨rfl, (lookup_eq_ok hvalue).1⟩
      · exact (Finset.mem_union.mp hkey).imp_right (hinner value inner (by rw [hwalk]) key)
  · refine ⟨by dsimp only; omega, Nat.le_add_right _ _, Finset.subset_union_left, ?_⟩
    intro key hkey
    exact (Finset.mem_union.mp hkey).imp_right (hinner value inner (by rw [hwalk]) key)

theorem walkInner_grows (vars : List (Text × Text)) (fuel : ℕ) (place : Place) (text : Text) :
    Run.Moves (Grows place) (walkInner vars fuel place text) := by
  induction fuel generalizing place text with
  | zero => exact Run.moves_fail _
  | succ fuel ih => exact expandText_moves (walkVar_grows ih place) text

/-- A var that is defined is visited. -/
theorem visits_walkVar {place : Place} (walkValue : Place → Text → Run Tally Text Text)
    {name value : Text} (t : Tally) (h : place.lookup vars name = .ok value) :
    t.visits + 1 ≤ (walkVar vars place walkValue name t).2.visits := by
  rcases walkVar_cases vars place walkValue name t with
    ⟨error, herror, -⟩ | ⟨value, resolved, inner, -, -, h'⟩ | ⟨value, error, inner, -, -, h'⟩
  · rw [h] at herror
    cases herror
  · rw [h']
  · rw [h']
    exact Nat.le_add_right _ _

/-! ### Fuel and chains -/

/-- The vars that are not in the chain. -/
def unvisited (vars : List (Text × Text)) (chain : List Text) : Finset Text :=
  (vars.map Prod.fst).toFinset \ chain.toFinset

/-- The fuel lasts for every chain that goes on from this one. -/
def Enough (vars : List (Text × Text)) (fuel : ℕ) (chain : List Text) : Prop :=
  (unvisited vars chain).card < fuel

theorem mem_names_of_lookup {name value : Text} (h : vars.lookup name = some value) :
    name ∈ vars.map Prod.fst := by
  obtain ⟨l₁, l₂, rfl, -⟩ := List.lookup_eq_some_iff.mp h
  simp

theorem Enough.into {fuel : ℕ} {chain : List Text} {name value : Text}
    (h : Enough vars (fuel + 1) chain) (hchain : name ∉ chain)
    (hvalue : vars.lookup name = some value) : Enough vars fuel (chain ++ [name]) := by
  have hmem : name ∈ unvisited vars chain := by
    simp only [unvisited, Finset.mem_sdiff, List.mem_toFinset]
    exact ⟨mem_names_of_lookup hvalue, hchain⟩
  have hsub : unvisited vars (chain ++ [name]) ⊂ unvisited vars chain := by
    refine Finset.ssubset_iff_subset_ne.mpr ⟨?_, fun heq => ?_⟩
    · intro other hother
      simp only [unvisited, Finset.mem_sdiff, List.mem_toFinset, List.mem_append] at hother ⊢
      exact ⟨hother.1, fun h => hother.2 (.inl h)⟩
    · rw [← heq] at hmem
      simp [unvisited] at hmem
  have := Finset.card_lt_card hsub
  unfold Enough at h ⊢
  omega

theorem enough_nil : Enough vars (vars.length + 1) [] := by
  unfold Enough unvisited
  rw [List.toFinset_nil, Finset.sdiff_empty]
  have := List.toFinset_card_le (vars.map Prod.fst)
  rw [List.length_map] at this
  omega

/-- A text that expands does so at every place of its scope where its vars are not in the
chain. -/
theorem walkInner_transfers {fuel fuel' : ℕ} (place place' : Place) (text : Text)
    (hscope : place.scope = place'.scope) (henough : Enough vars fuel' place'.chain) :
    Run.Transfers (fun t => ∀ name ∈ place'.chain, (name, place'.scope) ∉ t.keys)
      (walkInner vars fuel place text) (walkInner vars fuel' place' text) := by
  induction fuel generalizing fuel' place place' text with
  | zero => exact Run.transfers_fail _ _
  | succ fuel ih =>
    obtain ⟨fuel', rfl⟩ : ∃ n, fuel' = n + 1 := by
      refine ⟨fuel' - 1, ?_⟩
      unfold Enough at henough
      omega
    refine expandText_transfers hscope (fun name => ?_) (fun name => ?_) text
    · intro t resolved t' h hfree n hn hkey
      rcases walkVar_cases vars place (walkInner vars fuel) name t with
        ⟨error, -, h'⟩ | ⟨value, resolved', inner, hvalue, hwalk, h'⟩ |
        ⟨value, error, inner, -, hwalk, h'⟩ <;> rw [h'] at h <;> cases h
      exact hfree n hn (Finset.mem_insert_of_mem (Finset.mem_union_left _ hkey))
    · intro t resolved t' hfree h
      rcases walkVar_cases vars place (walkInner vars fuel) name t with
        ⟨error, -, h'⟩ | ⟨value, resolved', inner, hvalue, hwalk, h'⟩ |
        ⟨value, error, inner, -, hwalk, h'⟩ <;> rw [h'] at h <;> cases h
      obtain ⟨-, hlookup⟩ := lookup_eq_ok hvalue
      have hname : name ∉ place'.chain := by
        intro hmem
        refine hfree name hmem ?_
        rw [← hscope]
        exact Finset.mem_insert_self _ _
      have hinner : walkInner vars fuel' (place'.into name) value Tally.zero =
          (.ok resolved, inner) := by
        refine ih (place.into name) (place'.into name) value hscope (henough.into hname hlookup)
          Tally.zero resolved inner ?_ hwalk
        intro n hn hkey
        rcases List.mem_append.mp hn with hn | hn
        · exact hfree n hn (Finset.mem_insert_of_mem (Finset.mem_union_right _ hkey))
        · have hgrows := (walkInner_grows vars fuel (place.into name) value) Tally.zero
          rw [hwalk] at hgrows
          rcases hgrows.fresh _ hkey with h | ⟨-, h⟩
          · exact absurd h (Finset.notMem_empty _)
          · exact h (List.mem_append_right _ hn)
      rw [walkVar_of_ok (lookup_of_notMem hname hlookup) hinner, hscope]

/-- A tally without visits completed nothing, and one that completed nothing added nothing. -/
structure Tally.Fine (t : Tally) : Prop where
  keys : t.visits = 0 → t.keys = ∅
  bytes : t.keys = ∅ → t.bytes = 0

theorem Tally.fine_zero : Tally.zero.Fine := ⟨fun _ => rfl, fun _ => rfl⟩

theorem walkInner_fine (vars : List (Text × Text)) (fuel : ℕ) (place : Place) (text : Text) :
    Run.Moves (Run.Preserves Tally.Fine) (walkInner vars fuel place text) := by
  induction fuel generalizing place text with
  | zero => exact Run.moves_fail _
  | succ fuel ih =>
    refine expandText_moves (fun name => ?_) text
    intro t hfine
    rcases walkVar_cases vars place (walkInner vars fuel) name t with
      ⟨error, -, h⟩ | ⟨value, resolved, inner, hvalue, hwalk, h⟩ |
      ⟨value, error, inner, -, hwalk, h⟩ <;> rw [h]
    · exact hfine
    · exact ⟨fun h => absurd h (Nat.succ_ne_zero _), fun h => absurd h (Finset.insert_ne_empty _ _)⟩
    · have hinner := ih (place.into name) value Tally.zero Tally.fine_zero
      rw [hwalk] at hinner
      refine ⟨fun h => ?_, fun h => ?_⟩
      · dsimp only at h
        omega
      · obtain ⟨hkeys, hkeys'⟩ := Finset.union_eq_empty.mp h
        dsimp only
        rw [hfine.bytes hkeys, hinner.bytes hkeys']

/-- A text that expands completes every var it visits. -/
theorem walkInner_completes (vars : List (Text × Text)) (fuel : ℕ) (place : Place)
    (text : Text) :
    Run.MovesOk (Run.Preserves fun t => t.keys = ∅ → t.visits = 0)
      (walkInner vars fuel place text) := by
  cases fuel with
  | zero => exact Run.movesOk_fail _
  | succ fuel =>
    refine expandText_movesOk (fun name => ?_) text
    intro t resolved t' h hcompletes hkeys
    rcases walkVar_cases vars place (walkInner vars fuel) name t with
      ⟨error, -, h'⟩ | ⟨value, resolved', inner, hvalue, hwalk, h'⟩ |
      ⟨value, error, inner, -, hwalk, h'⟩ <;> rw [h'] at h <;> cases h
    exact absurd hkeys (Finset.insert_ne_empty _ _)

end Walk

end OoreBuild
