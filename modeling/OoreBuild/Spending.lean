import OoreBuild.Expansion

/-!
# What the resolver spends

The resolver ends as the expansion does (`walkInner`), having spent its tally and, for each var
that it had not resolved before, the tally of that var; or it stops at a limit of the file, and
then that is more than its budget has left (`resolveInner_agrees`).
-/

namespace OoreBuild

open Text

/-! ## Limits -/

theorem isLimitError_of_infix {error : Text} (h : (" in this file" : Text) <:+: error) :
    isLimitError error = true := by
  unfold isLimitError
  rw [contains_iff.mpr h, Bool.or_true]

theorem isLimitError_tooManyExpansions (path : Text) :
    isLimitError (tooManyExpansions path) = true :=
  isLimitError_of_infix ⟨path ++ ": vars expand more than " ++ ofNat maxVarExpansions ++ " times",
    [], by simp [tooManyExpansions]⟩

theorem isLimitError_tooManyBytes (path : Text) : isLimitError (tooManyBytes path) = true :=
  isLimitError_of_infix ⟨path ++ ": vars expand to more than " ++
    ofNat (maxTotalExpandedBytes / (1024 * 1024)) ++ " MiB", [], by simp [tooManyBytes]⟩

/-- A limit of the file is passed. -/
def Work.Exhausted (s : Work) : Prop :=
  maxVarExpansions < s.budget.expansions ∨ maxTotalExpandedBytes < s.budget.bytes

/-! ## The vars that are resolved -/

/-- The vars that are resolved. -/
def Work.keys (s : Work) : Finset Key := (s.cache.map Prod.fst).toFinset

@[simp] theorem keys_spend (s : Work) : s.spend.keys = s.keys := rfl

@[simp] theorem keys_charge (s : Work) (resolved : Text) : (s.charge resolved).keys = s.keys := rfl

@[simp] theorem keys_remember (s : Work) (key : Key) (resolved : Text) :
    (s.remember key resolved).keys = insert key s.keys := by
  simp [Work.keys, Work.remember]

theorem notMem_keys {s : Work} {key : Key} (h : s.cache.lookup key = none) : key ∉ s.keys := by
  rw [List.lookup_eq_none_iff] at h
  intro hmem
  obtain ⟨entry, hentry, rfl⟩ := List.mem_map.mp (List.mem_toFinset.mp hmem)
  simpa using h entry hentry

theorem mem_keys {s : Work} {key : Key} {resolved : Text}
    (h : s.cache.lookup key = some resolved) : key ∈ s.keys := by
  obtain ⟨l₁, l₂, hcache, -⟩ := List.lookup_eq_some_iff.mp h
  simp [Work.keys, hcache]

section

variable (vars : List (Text × Text))

/-- The expansion of a var. -/
def walkKey (key : Key) : Except Text Text × Tally :=
  walkInner vars vars.length ⟨key.2, [], 0, [key.1]⟩ ((vars.lookup key.1).getD []) Tally.zero

/-- The references that resolving a var visits, outside of the vars it needs. -/
def weight (key : Key) : ℕ := (walkKey vars key).2.visits

/-- The text these references add. -/
def byteWeight (key : Key) : ℕ := (walkKey vars key).2.bytes

/-- The expansions of a tally where the vars of `known` are resolved. -/
def Tally.expansions (t : Tally) (known : Finset Key) : ℕ :=
  t.visits + ∑ key ∈ t.keys \ known, weight vars key

/-- The text of a tally where the vars of `known` are resolved. -/
def Tally.added (t : Tally) (known : Finset Key) : ℕ :=
  t.bytes + ∑ key ∈ t.keys \ known, byteWeight vars key

/-- The vars that are resolved in this scope hold their expansion, and the vars they need are
resolved, too. -/
def Settled (scope : FlavorScope) (s : Work) : Prop :=
  ∀ name resolved, s.cache.lookup (name, scope) = some resolved →
    (walkKey vars (name, scope)).1 = .ok resolved ∧ (walkKey vars (name, scope)).2.keys ⊆ s.keys

/-- The work at a point where the expansion has come to a tally. -/
structure Tracks (place : Place) (s₀ s : Work) (t : Tally) : Prop where
  settled : Settled vars place.scope s
  keys : s.keys = s₀.keys ∪ t.keys
  fresh : ∀ name ∈ place.chain, (name, place.scope) ∉ s.keys
  expansions : s.budget.expansions = s₀.budget.expansions + t.expansions vars s₀.keys
  bytes : s.budget.bytes = s₀.budget.bytes + t.added vars s₀.keys
  underExpansions : 0 < t.visits → s.budget.expansions ≤ maxVarExpansions
  underBytes : t.keys.Nonempty → s.budget.bytes ≤ maxTotalExpandedBytes

/-- The resolver stopped at a limit, which the tally passes. -/
structure Stops (scope : FlavorScope) (s₀ : Work) (error : Text) (s : Work) (t : Tally) : Prop where
  limit : isLimitError error = true
  exhausted : s.Exhausted
  settled : Settled vars scope s
  visited : 0 < t.visits
  passes : maxVarExpansions < s₀.budget.expansions + t.expansions vars s₀.keys ∨
    t.keys.Nonempty ∧ maxTotalExpandedBytes < s₀.budget.bytes + t.added vars s₀.keys

end

variable {vars : List (Text × Text)}

/-! ## Sums of weights -/

theorem sum_union_sdiff (w : Key → ℕ) (a b known : Finset Key) :
    ∑ key ∈ (a ∪ b) \ known, w key =
      ∑ key ∈ a \ known, w key + ∑ key ∈ b \ (known ∪ a), w key := by
  rw [← Finset.sum_union]
  · congr 1
    ext key
    simp only [Finset.mem_sdiff, Finset.mem_union]
    tauto
  · rw [Finset.disjoint_left]
    intro key ha hb
    simp only [Finset.mem_sdiff, Finset.mem_union] at ha hb
    tauto

theorem Tally.expansions_mono {place : Place} {t t' : Tally} (h : Grows place t t')
    (known : Finset Key) : t.expansions vars known ≤ t'.expansions vars known :=
  Nat.add_le_add h.visits (Finset.sum_le_sum_of_subset (Finset.sdiff_subset_sdiff h.keys le_rfl))

theorem Tally.added_mono {place : Place} {t t' : Tally} (h : Grows place t t')
    (known : Finset Key) : t.added vars known ≤ t'.added vars known :=
  Nat.add_le_add h.bytes (Finset.sum_le_sum_of_subset (Finset.sdiff_subset_sdiff h.keys le_rfl))

theorem Stops.mono {place : Place} {s₀ s : Work} {error : Text} {t t' : Tally}
    (h : Stops vars place.scope s₀ error s t) (hgrows : Grows place t t') :
    Stops vars place.scope s₀ error s t' := by
  refine ⟨h.limit, h.exhausted, h.settled, h.visited.trans_le hgrows.visits,
    h.passes.imp (fun h => h.trans_le ?_) fun h => ⟨h.1.mono hgrows.keys, h.2.trans_le ?_⟩⟩
  · exact Nat.add_le_add_left (Tally.expansions_mono hgrows _) _
  · exact Nat.add_le_add_left (Tally.added_mono hgrows _) _

/-! ## One var -/

section

variable {place : Place} {resolveValue : Place → Text → Run Work Text Text}
  {name value resolved error : Text} {s s' : Work}

theorem countExpansion_of_le {path : Text} (h : s.spend.budget.expansions ≤ maxVarExpansions) :
    countExpansion path s = (.ok (), s.spend) := by
  unfold countExpansion
  rw [if_neg (Nat.not_lt.mpr h)]

theorem expandVar_of_error (h : place.lookup vars name = .error error) :
    expandVar vars place resolveValue name s = (.error error, s) :=
  Run.bind_of_error (by rw [ofExcept, h])

theorem ofExcept_of_ok {σ : Type} {t : σ} (h : place.lookup vars name = .ok value) :
    (ofExcept (place.lookup vars name) : Run σ Text Text) t = (.ok value, t) := by
  rw [ofExcept, h]

theorem expandVar_of_limit (h : place.lookup vars name = .ok value)
    (hlimit : maxVarExpansions < s.spend.budget.expansions) :
    expandVar vars place resolveValue name s =
      (.error (tooManyExpansions place.path), s.spend) := by
  unfold expandVar
  rw [Run.bind_of_ok (ofExcept_of_ok h)]
  refine Run.bind_of_error ?_
  unfold countExpansion
  rw [if_pos hlimit]

/-- Within the limit of expansions, the cache decides. -/
theorem expandVar_of_le (h : place.lookup vars name = .ok value)
    (hunder : s.spend.budget.expansions ≤ maxVarExpansions) :
    expandVar vars place resolveValue name s =
      (match s.cache.lookup (name, place.scope) with
      | some resolved => countBytes place.path resolved
      | none => do
        let resolved ← resolveValue (place.into name) value
        Run.update (·.remember (name, place.scope) resolved)
        countBytes place.path resolved : Run Work Text Text) s.spend := by
  unfold expandVar
  rw [Run.bind_of_ok (ofExcept_of_ok h), Run.bind_of_ok (countExpansion_of_le hunder),
    Run.bind_of_ok (Run.read_apply _ _)]
  rfl

theorem expandVar_of_hit (h : place.lookup vars name = .ok value)
    (hunder : s.spend.budget.expansions ≤ maxVarExpansions)
    (hcached : s.cache.lookup (name, place.scope) = some resolved) :
    expandVar vars place resolveValue name s = countBytes place.path resolved s.spend := by
  rw [expandVar_of_le h hunder, hcached]

theorem expandVar_of_inner_error (h : place.lookup vars name = .ok value)
    (hunder : s.spend.budget.expansions ≤ maxVarExpansions)
    (hcached : s.cache.lookup (name, place.scope) = none)
    (hinner : resolveValue (place.into name) value s.spend = (.error error, s')) :
    expandVar vars place resolveValue name s = (.error error, s') := by
  rw [expandVar_of_le h hunder, hcached]
  exact Run.bind_of_error hinner

theorem expandVar_of_miss (h : place.lookup vars name = .ok value)
    (hunder : s.spend.budget.expansions ≤ maxVarExpansions)
    (hcached : s.cache.lookup (name, place.scope) = none)
    (hinner : resolveValue (place.into name) value s.spend = (.ok resolved, s')) :
    expandVar vars place resolveValue name s =
      countBytes place.path resolved (s'.remember (name, place.scope) resolved) := by
  rw [expandVar_of_le h hunder, hcached]
  exact (Run.bind_of_ok hinner).trans (Run.bind_of_ok (Run.update_apply _ _))

end

/-! ## Vars that were resolved before -/

theorem notMem_inner {fuel : ℕ} {place : Place} {name value : Text} {result : Except Text Text}
    {inner : Tally}
    (h : walkInner vars fuel (place.into name) value Tally.zero = (result, inner)) {other : Text}
    (hother : other ∈ place.chain ++ [name]) : (other, place.scope) ∉ inner.keys := by
  intro hkey
  have hgrows := walkInner_grows vars fuel (place.into name) value Tally.zero
  rw [h] at hgrows
  rcases hgrows.fresh _ hkey with h | ⟨-, h⟩
  · exact Finset.notMem_empty _ h
  · exact h hother

theorem walkKey_eq {name value : Text} (scope : FlavorScope) (h : vars.lookup name = some value) :
    walkKey vars (name, scope) =
      walkInner vars vars.length ⟨scope, [], 0, [name]⟩ value Tally.zero := by
  unfold walkKey
  rw [h]
  rfl

/-- The expansion of a var does not depend on where it is needed. -/
theorem walkKey_of_walk {fuel : ℕ} {place : Place} {name value resolved : Text} {inner : Tally}
    (hvalue : vars.lookup name = some value)
    (h : walkInner vars fuel (place.into name) value Tally.zero = (.ok resolved, inner)) :
    walkKey vars (name, place.scope) = (.ok resolved, inner) := by
  have henough : Enough vars vars.length [name] :=
    enough_nil.into (List.not_mem_nil) hvalue
  rw [walkKey_eq _ hvalue]
  refine walkInner_transfers (place.into name) ⟨place.scope, [], 0, [name]⟩ value rfl henough
    Tally.zero resolved inner ?_ h
  intro other hother
  exact notMem_inner h (List.mem_append_right _ hother)

/-- A var that is resolved expands to what it was resolved to. -/
theorem walk_of_settled {fuel : ℕ} {place : Place} {name value resolved : Text} {s : Work}
    (hsettled : Settled vars place.scope s)
    (hfresh : ∀ other ∈ place.chain, (other, place.scope) ∉ s.keys)
    (henough : Enough vars (fuel + 1) place.chain) (hlookup : place.lookup vars name = .ok value)
    (hcached : s.cache.lookup (name, place.scope) = some resolved) :
    walkInner vars fuel (place.into name) value Tally.zero =
      (.ok resolved, (walkKey vars (name, place.scope)).2) := by
  obtain ⟨hchain, hvalue⟩ := lookup_eq_ok hlookup
  obtain ⟨hok, hkeys⟩ := hsettled name resolved hcached
  have hwalk : walkInner vars vars.length ⟨place.scope, [], 0, [name]⟩ value Tally.zero =
      (.ok resolved, (walkKey vars (name, place.scope)).2) := by
    rw [← walkKey_eq place.scope hvalue]
    exact Prod.ext hok rfl
  refine walkInner_transfers ⟨place.scope, [], 0, [name]⟩ (place.into name) value rfl
    (henough.into hchain hvalue) Tally.zero resolved _ ?_ hwalk
  intro other hother hkey
  rcases List.mem_append.mp hother with hother | hother
  · exact hfresh other hother (hkeys hkey)
  · have hgrows := walkInner_grows vars vars.length ⟨place.scope, [], 0, [name]⟩ value
      Tally.zero
    rw [hwalk] at hgrows
    rcases hgrows.fresh _ hkey with h | ⟨-, h⟩
    · exact Finset.notMem_empty _ h
    · exact h hother

/-! ## The resolver and the expansion -/

/-- The text of a var is counted last: it fits, or the limit is passed. -/
theorem countBytes_agree {place : Place} {s₀ s : Work} {t : Tally} {path resolved : Text}
    (hsettled : Settled vars place.scope s) (hkeys : s.keys = s₀.keys ∪ t.keys)
    (hfresh : ∀ name ∈ place.chain, (name, place.scope) ∉ s.keys)
    (hexpansions : s.budget.expansions = s₀.budget.expansions + t.expansions vars s₀.keys)
    (hunder : s.budget.expansions ≤ maxVarExpansions) (hvisited : 0 < t.visits)
    (hcompleted : t.keys.Nonempty)
    (hbytes : s.budget.bytes + byteLen resolved = s₀.budget.bytes + t.added vars s₀.keys) :
    Run.Agree (Tracks vars place s₀) (Stops vars place.scope s₀) (countBytes path resolved s)
      (.ok resolved, t) := by
  unfold countBytes
  split
  · rename_i hlimit
    refine .inr ⟨_, rfl, isLimitError_tooManyBytes path, .inr hlimit, hsettled, hvisited,
      .inr ⟨hcompleted, ?_⟩⟩
    rw [← hbytes]
    exact hlimit
  · rename_i hlimit
    exact .inl ⟨rfl, hsettled, hkeys, hfresh, hexpansions, hbytes, fun _ => hunder,
      fun _ => Nat.not_lt.mp hlimit⟩

theorem sum_insert_sdiff (w : Key → ℕ) {key : Key} {a known : Finset Key} (ha : key ∉ a)
    (hknown : key ∉ known) :
    ∑ k ∈ insert key a \ known, w k = w key + ∑ k ∈ a \ known, w k := by
  rw [Finset.insert_sdiff_of_notMem _ hknown, Finset.sum_insert]
  exact fun h => ha (Finset.mem_sdiff.mp h).1

theorem sdiff_of_subset {a b known : Finset Key} (h : a ⊆ known ∪ b) :
    (b ∪ a) \ known = b \ known := by
  ext key
  simp only [Finset.mem_sdiff, Finset.mem_union]
  constructor
  · rintro ⟨hb | ha, hknown⟩
    · exact ⟨hb, hknown⟩
    · exact ⟨(Finset.mem_union.mp (h ha)).resolve_left hknown, hknown⟩
  · rintro ⟨hb, hknown⟩
    exact ⟨.inl hb, hknown⟩

/-- A var that is resolved is taken as it is. -/
theorem agree_of_hit {fuel : ℕ} {place : Place} {s₀ s : Work} {t : Tally}
    {name value resolved : Text} (h : Tracks vars place s₀ s t)
    (henough : Enough vars (fuel + 1) place.chain) (hlookup : place.lookup vars name = .ok value)
    (hunder : s.spend.budget.expansions ≤ maxVarExpansions)
    (hcached : s.cache.lookup (name, place.scope) = some resolved) :
    Run.Agree (Tracks vars place s₀) (Stops vars place.scope s₀)
      (expandVar vars place (resolveInner vars fuel) name s)
      (walkVar vars place (walkInner vars fuel) name t) := by
  have hwalk := walk_of_settled h.settled h.fresh henough hlookup hcached
  have hneeds := (h.settled name resolved hcached).2
  have hsub : insert (name, place.scope) (walkKey vars (name, place.scope)).2.keys ⊆
      s₀.keys ∪ t.keys := by
    rw [← h.keys]
    exact Finset.insert_subset (mem_keys hcached) hneeds
  have hunion : insert (name, place.scope) (t.keys ∪ (walkKey vars (name, place.scope)).2.keys) =
      t.keys ∪ insert (name, place.scope) (walkKey vars (name, place.scope)).2.keys :=
    (Finset.union_insert _ _ _).symm
  rw [expandVar_of_hit hlookup hunder hcached, walkVar_of_ok hlookup hwalk, hunion]
  refine countBytes_agree h.settled ?_ h.fresh ?_ hunder (Nat.succ_pos _)
    ((Finset.insert_nonempty _ _).mono Finset.subset_union_right) ?_
  · rw [keys_spend, h.keys, ← Finset.union_assoc, Finset.union_eq_left.mpr hsub]
  · change s.budget.expansions + 1 = _
    rw [h.expansions]
    unfold Tally.expansions
    dsimp only
    rw [sdiff_of_subset hsub]
    omega
  · change s.budget.bytes + byteLen resolved = _
    rw [h.bytes]
    unfold Tally.added
    dsimp only
    rw [sdiff_of_subset hsub]
    omega

/-- The resolver at less fuel, as the step below uses it. -/
def AgreesAt (vars : List (Text × Text)) (fuel : ℕ) : Prop :=
  ∀ place text s, Settled vars place.scope s →
    (∀ name ∈ place.chain, (name, place.scope) ∉ s.keys) → Enough vars fuel place.chain →
      Run.Agree (Tracks vars place s) (Stops vars place.scope s)
        (resolveInner vars fuel place text s) (walkInner vars fuel place text Tally.zero)

section

variable {t inner : Tally} {known : Finset Key} {key : Key}

theorem expansions_of_inner_error (bytes : ℕ) :
    (⟨t.visits + 1 + inner.visits, bytes, t.keys ∪ inner.keys⟩ : Tally).expansions vars known =
      t.expansions vars known + 1 + inner.expansions vars (known ∪ t.keys) := by
  unfold Tally.expansions
  dsimp only
  rw [sum_union_sdiff]
  omega

theorem added_of_inner_error (visits : ℕ) :
    (⟨visits, t.bytes + inner.bytes, t.keys ∪ inner.keys⟩ : Tally).added vars known =
      t.added vars known + inner.added vars (known ∪ t.keys) := by
  unfold Tally.added
  dsimp only
  rw [sum_union_sdiff]
  omega

theorem expansions_of_inner_ok (bytes : ℕ) (hknown : key ∉ known ∪ t.keys)
    (hinner : key ∉ inner.keys) (hweight : weight vars key = inner.visits) :
    (⟨t.visits + 1, bytes, insert key (t.keys ∪ inner.keys)⟩ : Tally).expansions vars known =
      t.expansions vars known + 1 + inner.expansions vars (known ∪ t.keys) := by
  rw [Finset.mem_union, not_or] at hknown
  have hkey : key ∉ t.keys ∪ inner.keys := by
    rw [Finset.mem_union, not_or]
    exact ⟨hknown.2, hinner⟩
  unfold Tally.expansions
  dsimp only
  rw [sum_insert_sdiff _ hkey hknown.1, sum_union_sdiff, hweight]
  omega

theorem added_of_inner_ok (visits : ℕ) (added : ℕ) (hknown : key ∉ known ∪ t.keys)
    (hinner : key ∉ inner.keys) (hweight : byteWeight vars key = inner.bytes) :
    (⟨visits, t.bytes + added, insert key (t.keys ∪ inner.keys)⟩ : Tally).added vars known =
      t.added vars known + inner.added vars (known ∪ t.keys) + added := by
  rw [Finset.mem_union, not_or] at hknown
  have hkey : key ∉ t.keys ∪ inner.keys := by
    rw [Finset.mem_union, not_or]
    exact ⟨hknown.2, hinner⟩
  unfold Tally.added
  dsimp only
  rw [sum_insert_sdiff _ hkey hknown.1, sum_union_sdiff, hweight]
  omega

end

/-- Work that was within a limit before stays so. -/
theorem Tracks.expansions_le {place : Place} {s₀ s : Work} {t : Tally}
    (h : Tracks vars place s₀ s t) (hfine : t.Fine) (hle : s₀.budget.expansions ≤ maxVarExpansions) :
    s.budget.expansions ≤ maxVarExpansions := by
  rcases Nat.eq_zero_or_pos t.visits with hzero | hpos
  · rw [h.expansions, Tally.expansions, hzero, hfine.keys hzero]
    simpa using hle
  · exact h.underExpansions hpos

theorem Tracks.bytes_le {place : Place} {s₀ s : Work} {t : Tally} (h : Tracks vars place s₀ s t)
    (hfine : t.Fine) (hle : s₀.budget.bytes ≤ maxTotalExpandedBytes) :
    s.budget.bytes ≤ maxTotalExpandedBytes := by
  rcases Finset.eq_empty_or_nonempty t.keys with hempty | hne
  · rw [h.bytes, Tally.added, hempty, hfine.bytes hempty]
    simpa using hle
  · exact h.underBytes hne

theorem settled_remember {scope : FlavorScope} {s : Work} {name resolved : Text}
    (h : Settled vars scope s) (hok : (walkKey vars (name, scope)).1 = .ok resolved)
    (hkeys : (walkKey vars (name, scope)).2.keys ⊆ s.keys) :
    Settled vars scope (s.remember (name, scope) resolved) := by
  intro other resolved' hlookup
  rw [keys_remember]
  by_cases heq : other = name
  · subst heq
    have : resolved = resolved' := by simpa [Work.remember] using hlookup
    subst this
    exact ⟨hok, hkeys.trans (Finset.subset_insert _ _)⟩
  · have hlookup' : s.cache.lookup (other, scope) = some resolved' := by
      have hne : ((other, scope) == (name, scope)) = false := by simp [heq]
      simpa [Work.remember, List.lookup_cons, hne] using hlookup
    obtain ⟨hok', hkeys'⟩ := h other resolved' hlookup'
    exact ⟨hok', hkeys'.trans (Finset.subset_insert _ _)⟩

/-! ### A var that is not resolved yet -/

section Miss

variable {fuel : ℕ} {place : Place} {s₀ s s' : Work} {t inner : Tally}
  {name value resolved error : Text} {result : Except Text Text}

theorem fine_of_walk
    (hwalk : walkInner vars fuel (place.into name) value Tally.zero = (result, inner)) :
    inner.Fine := by
  have hfine := walkInner_fine vars fuel (place.into name) value Tally.zero Tally.fine_zero
  rwa [hwalk] at hfine

/-- The work within a var, counted from where the text around it began. -/
theorem Tracks.into (h : Tracks vars place s₀ s t)
    (hinner : Tracks vars (place.into name) s.spend s' inner) :
    s'.keys = s₀.keys ∪ t.keys ∪ inner.keys ∧
      s'.budget.expansions =
        s.budget.expansions + 1 + inner.expansions vars (s₀.keys ∪ t.keys) ∧
      s'.budget.bytes = s.budget.bytes + inner.added vars (s₀.keys ∪ t.keys) := by
  rw [← h.keys]
  exact ⟨hinner.keys, hinner.expansions, hinner.bytes⟩

theorem Tracks.fresh_of_into (hinner : Tracks vars (place.into name) s.spend s' inner) :
    ∀ other ∈ place.chain, (other, place.scope) ∉ s'.keys :=
  fun other hother => hinner.fresh other (List.mem_append_left _ hother)

/-- The value was resolved to what it expands to, and is remembered. -/
theorem agree_of_inner_ok (h : Tracks vars place s₀ s t)
    (hlookup : place.lookup vars name = .ok value)
    (hunder : s.spend.budget.expansions ≤ maxVarExpansions)
    (hcached : s.cache.lookup (name, place.scope) = none)
    (hwalk : walkInner vars fuel (place.into name) value Tally.zero = (.ok resolved, inner))
    (hresolve : resolveInner vars fuel (place.into name) value s.spend = (.ok resolved, s'))
    (hinner : Tracks vars (place.into name) s.spend s' inner) :
    Run.Agree (Tracks vars place s₀) (Stops vars place.scope s₀)
      (expandVar vars place (resolveInner vars fuel) name s)
      (walkVar vars place (walkInner vars fuel) name t) := by
  obtain ⟨hchain, hvalue⟩ := lookup_eq_ok hlookup
  obtain ⟨hkeys, hexpansions, hbytes⟩ := h.into hinner
  have hkey : (name, place.scope) ∉ s₀.keys ∪ t.keys := h.keys ▸ notMem_keys hcached
  have hkeyed := walkKey_of_walk hvalue hwalk
  have hself : (name, place.scope) ∉ inner.keys :=
    notMem_inner hwalk (List.mem_append_right _ (List.mem_singleton_self name))
  have hle := hinner.expansions_le (fine_of_walk hwalk) hunder
  rw [expandVar_of_miss hlookup hunder hcached hresolve, walkVar_of_ok hlookup hwalk]
  refine countBytes_agree ?_ ?_ ?_ ?_ hle (Nat.succ_pos _) (Finset.insert_nonempty _ _) ?_
  · refine settled_remember hinner.settled (by rw [hkeyed]) ?_
    rw [hkeyed, hkeys]
    exact Finset.subset_union_right
  · rw [keys_remember, hkeys, Finset.union_insert, Finset.union_assoc]
  · intro other hother hmem
    rw [keys_remember] at hmem
    rcases Finset.mem_insert.mp hmem with heq | hmem
    · rw [Prod.mk.injEq] at heq
      exact hchain (heq.1 ▸ hother)
    · exact hinner.fresh_of_into other hother hmem
  · rw [expansions_of_inner_ok _ hkey hself (by rw [weight, hkeyed])]
    change s'.budget.expansions = _
    have := h.expansions
    omega
  · rw [added_of_inner_ok _ _ hkey hself (by rw [byteWeight, hkeyed])]
    change s'.budget.bytes + _ = _
    have := h.bytes
    omega

/-- The value fails to resolve as it fails to expand. -/
theorem agree_of_inner_error (h : Tracks vars place s₀ s t)
    (hlookup : place.lookup vars name = .ok value)
    (hunder : s.spend.budget.expansions ≤ maxVarExpansions)
    (hcached : s.cache.lookup (name, place.scope) = none)
    (hwalk : walkInner vars fuel (place.into name) value Tally.zero = (.error error, inner))
    (hresolve : resolveInner vars fuel (place.into name) value s.spend = (.error error, s'))
    (hinner : Tracks vars (place.into name) s.spend s' inner) :
    Run.Agree (Tracks vars place s₀) (Stops vars place.scope s₀)
      (expandVar vars place (resolveInner vars fuel) name s)
      (walkVar vars place (walkInner vars fuel) name t) := by
  obtain ⟨hkeys, hexpansions, hbytes⟩ := h.into hinner
  have hfine := fine_of_walk hwalk
  have hle := hinner.expansions_le hfine hunder
  rw [expandVar_of_inner_error hlookup hunder hcached hresolve,
    walkVar_of_inner_error hlookup hwalk]
  refine .inl ⟨rfl, hinner.settled, ?_, hinner.fresh_of_into, ?_, ?_, fun _ => hle, ?_⟩
  · dsimp only
    rw [hkeys, Finset.union_assoc]
  · rw [expansions_of_inner_error]
    have := h.expansions
    dsimp only
    omega
  · rw [added_of_inner_error]
    have := h.bytes
    dsimp only
    omega
  · intro hne
    rcases Finset.eq_empty_or_nonempty inner.keys with hempty | hnonempty
    · have hsame : s'.budget.bytes = s.budget.bytes := by
        rw [hbytes, Tally.added, hempty, hfine.bytes hempty]
        simp
      rw [hsame]
      refine h.underBytes ?_
      dsimp only at hne
      rwa [hempty, Finset.union_empty] at hne
    · exact hinner.underBytes hnonempty

/-- What passes a limit within a var passes it around it. -/
theorem passes_of_inner (h : Tracks vars place s₀ s t)
    (hlookup : place.lookup vars name = .ok value)
    (hcached : s.cache.lookup (name, place.scope) = none)
    (hwalk : walkInner vars fuel (place.into name) value Tally.zero = (result, inner))
    (hpasses : maxVarExpansions <
        s.spend.budget.expansions + inner.expansions vars s.spend.keys ∨
      inner.keys.Nonempty ∧
        maxTotalExpandedBytes < s.spend.budget.bytes + inner.added vars s.spend.keys) :
    maxVarExpansions < s₀.budget.expansions +
        (walkVar vars place (walkInner vars fuel) name t).2.expansions vars s₀.keys ∨
      (walkVar vars place (walkInner vars fuel) name t).2.keys.Nonempty ∧
        maxTotalExpandedBytes < s₀.budget.bytes +
          (walkVar vars place (walkInner vars fuel) name t).2.added vars s₀.keys := by
  rw [keys_spend, h.keys] at hpasses
  change maxVarExpansions < s.budget.expansions + 1 + _ ∨
    inner.keys.Nonempty ∧ maxTotalExpandedBytes < s.budget.bytes + _ at hpasses
  have hexpansions := h.expansions
  have hbytes := h.bytes
  cases result with
  | ok resolved =>
    have hkey : (name, place.scope) ∉ s₀.keys ∪ t.keys := h.keys ▸ notMem_keys hcached
    have hkeyed := walkKey_of_walk (lookup_eq_ok hlookup).2 hwalk
    have hself : (name, place.scope) ∉ inner.keys :=
      notMem_inner hwalk (List.mem_append_right _ (List.mem_singleton_self name))
    rw [walkVar_of_ok hlookup hwalk, expansions_of_inner_ok _ hkey hself (by rw [weight, hkeyed]),
      added_of_inner_ok _ _ hkey hself (by rw [byteWeight, hkeyed])]
    exact hpasses.imp (fun h => by omega) fun h => ⟨Finset.insert_nonempty _ _, by omega⟩
  | error error =>
    rw [walkVar_of_inner_error hlookup hwalk, expansions_of_inner_error, added_of_inner_error]
    exact hpasses.imp (fun h => by omega) fun h =>
      ⟨h.1.mono Finset.subset_union_right, by omega⟩

/-- The resolver stops at a limit within the value. -/
theorem agree_of_inner_stops (h : Tracks vars place s₀ s t)
    (hlookup : place.lookup vars name = .ok value)
    (hunder : s.spend.budget.expansions ≤ maxVarExpansions)
    (hcached : s.cache.lookup (name, place.scope) = none)
    (hwalk : walkInner vars fuel (place.into name) value Tally.zero = (result, inner))
    (hresolve : resolveInner vars fuel (place.into name) value s.spend = (.error error, s'))
    (hinner : Stops vars place.scope s.spend error s' inner) :
    Run.Agree (Tracks vars place s₀) (Stops vars place.scope s₀)
      (expandVar vars place (resolveInner vars fuel) name s)
      (walkVar vars place (walkInner vars fuel) name t) := by
  rw [expandVar_of_inner_error hlookup hunder hcached hresolve]
  refine .inr ⟨error, rfl, hinner.limit, hinner.exhausted, hinner.settled, ?_, ?_⟩
  · exact (Nat.succ_pos _).trans_le (visits_walkVar (walkInner vars fuel) t hlookup)
  · exact passes_of_inner h hlookup hcached hwalk hinner.passes

/-- A var that is not resolved yet is resolved first, and remembered. -/
theorem agree_of_miss (ih : AgreesAt vars fuel) (h : Tracks vars place s₀ s t)
    (henough : Enough vars (fuel + 1) place.chain) (hlookup : place.lookup vars name = .ok value)
    (hunder : s.spend.budget.expansions ≤ maxVarExpansions)
    (hcached : s.cache.lookup (name, place.scope) = none) :
    Run.Agree (Tracks vars place s₀) (Stops vars place.scope s₀)
      (expandVar vars place (resolveInner vars fuel) name s)
      (walkVar vars place (walkInner vars fuel) name t) := by
  obtain ⟨hchain, hvalue⟩ := lookup_eq_ok hlookup
  have hfresh : ∀ other ∈ (place.into name).chain, (other, place.scope) ∉ s.keys := by
    intro other hother
    rcases List.mem_append.mp hother with hother | hother
    · exact h.fresh other hother
    · rw [List.mem_singleton.mp hother]
      exact notMem_keys hcached
  have hinner := ih (place.into name) value s.spend h.settled hfresh (henough.into hchain hvalue)
  rcases hwalk : walkInner vars fuel (place.into name) value Tally.zero with ⟨result, inner⟩
  rcases hresolve : resolveInner vars fuel (place.into name) value s.spend with ⟨result', s'⟩
  rw [hwalk, hresolve] at hinner
  rcases hinner with ⟨heq, htracks⟩ | ⟨error, heq, hstops⟩
  · change result' = result at heq
    subst heq
    cases result' with
    | ok resolved => exact agree_of_inner_ok h hlookup hunder hcached hwalk hresolve htracks
    | error error => exact agree_of_inner_error h hlookup hunder hcached hwalk hresolve htracks
  · change result' = .error error at heq
    subst heq
    exact agree_of_inner_stops h hlookup hunder hcached hwalk hresolve hstops

end Miss

/-- The resolver ends as the expansion does, having spent what that costs, or stops at a limit
that it passes. -/
theorem resolveInner_agrees (fuel : ℕ) : AgreesAt vars fuel := by
  induction fuel with
  | zero =>
    intro place text s hsettled hfresh henough
    exact absurd henough (Nat.not_lt_zero _)
  | succ fuel ih =>
    intro place text s₀ hsettled hfresh henough
    have hstart : Tracks vars place s₀ s₀ Tally.zero := by
      refine ⟨hsettled, ?_, hfresh, ?_, ?_, fun h => absurd h (lt_irrefl 0), ?_⟩
      · exact (Finset.union_empty _).symm
      · simp [Tally.expansions, Tally.zero]
      · simp [Tally.added, Tally.zero]
      · exact fun h => absurd h Finset.not_nonempty_empty
    refine expandText_agrees (fun name => ?_) (fun name => ?_) text s₀ Tally.zero hstart
    · intro s t h
      cases hlookup : place.lookup vars name with
      | error error =>
        rw [expandVar_of_error hlookup, walkVar_of_error hlookup]
        exact .inl ⟨rfl, h⟩
      | ok value =>
        rcases Nat.lt_or_ge maxVarExpansions s.spend.budget.expansions with hlimit | hunder
        · rw [expandVar_of_limit hlookup hlimit]
          have hvisits := visits_walkVar (walkInner vars fuel) t hlookup
          refine .inr ⟨_, rfl, isLimitError_tooManyExpansions _, .inl hlimit, h.settled,
            (Nat.succ_pos _).trans_le hvisits, .inl ?_⟩
          refine hlimit.trans_le ?_
          have hgrows := walkVar_grows (walkInner_grows vars fuel) place name t
          have hsum : ∑ key ∈ t.keys \ s₀.keys, weight vars key ≤ ∑ key ∈ _ \ s₀.keys, _ :=
            Finset.sum_le_sum_of_subset (Finset.sdiff_subset_sdiff hgrows.keys (le_refl s₀.keys))
          have hexpansions := h.expansions
          change s.budget.expansions + 1 ≤ _
          unfold Tally.expansions at hexpansions ⊢
          omega
        · cases hcached : s.cache.lookup (name, place.scope) with
          | some resolved => exact agree_of_hit h henough hlookup hunder hcached
          | none => exact agree_of_miss ih h henough hlookup hunder hcached
    · intro t error s hstops
      exact hstops.mono (walkVar_grows (walkInner_grows vars fuel) place name t)

/-- What a text expands to. -/
def walk (vars : List (Text × Text)) (text : Text) (scope : FlavorScope) (path : Text) :
    Except Text Text × Tally :=
  walkInner vars (vars.length + 1) ⟨scope, path, 0, []⟩ text Tally.zero

/-- Resolving a field gives what it expands to, or stops at a limit. -/
theorem resolve_agrees (text path : Text) {scope : FlavorScope} {s : Work}
    (hsettled : Settled vars scope s) :
    Run.Agree (Tracks vars ⟨scope, path, 0, []⟩ s) (Stops vars scope s)
      (resolve vars text scope path s) (walk vars text scope path) :=
  resolveInner_agrees (vars.length + 1) ⟨scope, path, 0, []⟩ text s hsettled
    (fun _ h => absurd h List.not_mem_nil) enough_nil

/-! ## What resolving leaves alone -/

/-- Work only grows, and only by vars of one scope. -/
structure Frame (scope : FlavorScope) (s s' : Work) : Prop where
  others : ∀ key : Key, key.2 ≠ scope → s'.cache.lookup key = s.cache.lookup key
  keys : s.keys ⊆ s'.keys
  added : ∀ key ∈ s'.keys, key ∈ s.keys ∨ key.2 = scope
  expansions : s.budget.expansions ≤ s'.budget.expansions
  bytes : s.budget.bytes ≤ s'.budget.bytes

instance (scope : FlavorScope) : Std.Refl (Frame scope) :=
  ⟨fun _ => ⟨fun _ _ => rfl, Finset.Subset.refl _, fun _ h => .inl h, le_rfl, le_rfl⟩⟩

instance (scope : FlavorScope) : IsTrans Work (Frame scope) := by
  refine ⟨fun a b c h h' => ⟨fun key hkey => (h'.others key hkey).trans (h.others key hkey),
    h.keys.trans h'.keys, fun key hkey => ?_, h.expansions.trans h'.expansions,
    h.bytes.trans h'.bytes⟩⟩
  rcases h'.added key hkey with hb | hnew
  · exact h.added key hb
  · exact .inr hnew

theorem frame_spend (scope : FlavorScope) (s : Work) : Frame scope s s.spend :=
  ⟨fun _ _ => rfl, Finset.Subset.refl _, fun _ h => .inl h, Nat.le_succ _, le_rfl⟩

theorem frame_charge (scope : FlavorScope) (s : Work) (resolved : Text) :
    Frame scope s (s.charge resolved) :=
  ⟨fun _ _ => rfl, Finset.Subset.refl _, fun _ h => .inl h, le_rfl, Nat.le_add_right _ _⟩

theorem frame_remember (scope : FlavorScope) (s : Work) (name resolved : Text) :
    Frame scope s (s.remember (name, scope) resolved) := by
  refine ⟨fun key hkey => ?_, ?_, fun key hkey => ?_, le_rfl, le_rfl⟩
  · have hne : (key == (name, scope)) = false := by
      rw [beq_eq_false_iff_ne]
      rintro rfl
      exact hkey rfl
    simp [Work.remember, List.lookup_cons, hne]
  · rw [keys_remember]
    exact Finset.subset_insert _ _
  · rw [keys_remember] at hkey
    rcases Finset.mem_insert.mp hkey with rfl | hkey
    · exact .inr rfl
    · exact .inl hkey

theorem resolveInner_frame (vars : List (Text × Text)) (fuel : ℕ) (place : Place) (text : Text) :
    Run.Moves (Frame place.scope) (resolveInner vars fuel place text) := by
  induction fuel generalizing place text with
  | zero => exact Run.moves_fail _
  | succ fuel ih =>
    refine expandText_moves (fun name => ?_) text
    have hcount : ∀ path resolved, Run.Moves (Frame place.scope) (countBytes path resolved) :=
      fun path resolved s => frame_charge _ s resolved
    refine Run.Moves.bind (moves_ofExcept _) fun value => ?_
    refine Run.Moves.bind (fun s => frame_spend _ s) fun _ => ?_
    refine Run.Moves.bind (fun s => Std.Refl.refl s) fun cached => ?_
    split
    · exact hcount _ _
    · refine Run.Moves.bind (ih (place.into name) value) fun resolved => ?_
      exact Run.Moves.bind (fun s => frame_remember _ s name resolved) fun _ => hcount _ _

/-- What is settled in one scope stays so while another one is worked on. -/
theorem Settled.of_frame {scope scope' : FlavorScope} {s s' : Work} (h : Settled vars scope s)
    (hframe : Frame scope' s s') (hne : scope ≠ scope') : Settled vars scope s' := by
  intro name resolved hlookup
  rw [hframe.others _ hne] at hlookup
  obtain ⟨hok, hkeys⟩ := h name resolved hlookup
  exact ⟨hok, hkeys.trans hframe.keys⟩

end OoreBuild
