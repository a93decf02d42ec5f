import OoreBuild.Spending

/-!
# One resolver behind another

Parsing lowers every workflow on one budget; planning lowers one of them, for some of its
platforms, on a fresh budget. The second resolver then trails the first: it has resolved no var
that the first has not, and what these would cost it the first has spent (`Leads`). It gives what
the first gives, until the first passes a limit.
-/

namespace OoreBuild

open Text

section

variable (vars : List (Text × Text))

/-- Every var that is resolved holds its expansion, apart from validation. -/
def AllSettled (s : Work) : Prop := ∀ scope ≠ validationScope, Settled vars scope s

/-- The vars that only the first has resolved. -/
def missing (a b : Work) : Finset Key :=
  {key ∈ a.keys \ b.keys | key.2 ≠ validationScope}

/-- The first is within the limits, and ahead of the second by what it has resolved more. -/
structure Leads (a b : Work) : Prop where
  settled : AllSettled vars a
  settled' : AllSettled vars b
  keys : b.keys ⊆ a.keys
  expansions : b.budget.expansions + ∑ key ∈ missing a b, weight vars key ≤ a.budget.expansions
  bytes : b.budget.bytes + ∑ key ∈ missing a b, byteWeight vars key ≤ a.budget.bytes
  underExpansions : a.budget.expansions ≤ maxVarExpansions
  underBytes : a.budget.bytes ≤ maxTotalExpandedBytes

/-- The first has passed a limit. -/
structure Lost (a b : Work) : Prop where
  settled : AllSettled vars a
  settled' : AllSettled vars b
  exhausted : a.Exhausted

/-- The first has passed a limit, the second has spent no more. -/
structure Behind (a b : Work) : Prop extends Lost vars a b where
  expansions : b.budget.expansions ≤ a.budget.expansions
  bytes : b.budget.bytes ≤ maxTotalExpandedBytes

def Trails (a b : Work) : Prop := Leads vars a b ∨ Behind vars a b

end

variable {vars : List (Text × Text)} {a b : Work} {scope : FlavorScope}

theorem AllSettled.resolves (h : AllSettled vars a) (hlive : scope ≠ validationScope)
    (text path : Text) : AllSettled vars (resolve vars text scope path a).2 := by
  intro scope' hlive'
  by_cases heq : scope' = scope
  · subst heq
    rcases resolve_agrees text path (h scope' hlive') with ⟨-, htracks⟩ | ⟨error, -, hstops⟩
    · exact htracks.settled
    · exact hstops.settled
  · exact (h scope' hlive').of_frame (resolveInner_frame vars _ _ text a) heq

theorem Work.Exhausted.resolves (h : a.Exhausted) (vars : List (Text × Text))
    (scope : FlavorScope) (text path : Text) :
    (resolve vars text scope path a).2.Exhausted := by
  have hframe := resolveInner_frame vars (vars.length + 1) ⟨scope, path, 0, []⟩ text a
  exact h.imp (fun h => h.trans_le hframe.expansions) fun h => h.trans_le hframe.bytes

theorem Leads.trails (h : Leads vars a b) : Trails vars a b := .inl h

theorem Behind.trails (h : Behind vars a b) : Trails vars a b := .inr h

theorem Trails.settled (h : Trails vars a b) : AllSettled vars a := h.elim (·.settled) (·.settled)

theorem Trails.settled' (h : Trails vars a b) : AllSettled vars b :=
  h.elim (·.settled') (·.settled')

/-! ## Sums -/

theorem sum_missing_both (w : Key → ℕ) {a b a' b' : Work} {keys : Finset Key}
    (hlive : ∀ key ∈ keys, key.2 ≠ validationScope) (hsub : b.keys ⊆ a.keys)
    (ha : a'.keys = a.keys ∪ keys) (hb : b'.keys = b.keys ∪ keys) :
    ∑ key ∈ keys \ b.keys, w key + ∑ key ∈ missing a' b', w key =
      ∑ key ∈ keys \ a.keys, w key + ∑ key ∈ missing a b, w key := by
  rw [← Finset.sum_union, ← Finset.sum_union]
  · congr 1
    ext key
    have := hlive key
    have := @hsub key
    simp only [missing, ha, hb, Finset.mem_union, Finset.mem_sdiff, Finset.mem_filter]
    tauto
  · rw [Finset.disjoint_left]
    intro key hkey
    simp only [missing, Finset.mem_sdiff, Finset.mem_filter] at hkey ⊢
    tauto
  · rw [Finset.disjoint_left]
    intro key hkey
    simp only [missing, ha, hb, Finset.mem_union, Finset.mem_sdiff, Finset.mem_filter] at hkey ⊢
    tauto

theorem sum_missing_first (w : Key → ℕ) {a b a' : Work} {keys : Finset Key}
    (hlive : ∀ key ∈ keys, key.2 ≠ validationScope) (hsub : b.keys ⊆ a.keys)
    (ha : a'.keys = a.keys ∪ keys) :
    ∑ key ∈ missing a' b, w key = ∑ key ∈ keys \ a.keys, w key + ∑ key ∈ missing a b, w key := by
  rw [← Finset.sum_union]
  · congr 1
    ext key
    have := hlive key
    have := @hsub key
    simp only [missing, ha, Finset.mem_union, Finset.mem_sdiff, Finset.mem_filter]
    tauto
  · rw [Finset.disjoint_left]
    intro key hkey
    simp only [missing, Finset.mem_sdiff, Finset.mem_filter] at hkey ⊢
    tauto

theorem sum_sdiff_le (w : Key → ℕ) {a b : Work} {keys : Finset Key}
    (hlive : ∀ key ∈ keys, key.2 ≠ validationScope) :
    ∑ key ∈ keys \ b.keys, w key ≤ ∑ key ∈ keys \ a.keys, w key + ∑ key ∈ missing a b, w key := by
  rw [← Finset.sum_union]
  · refine Finset.sum_le_sum_of_subset fun key hkey => ?_
    have := hlive key
    simp only [missing, Finset.mem_union, Finset.mem_sdiff, Finset.mem_filter] at hkey ⊢
    tauto
  · rw [Finset.disjoint_left]
    intro key hkey
    simp only [missing, Finset.mem_sdiff, Finset.mem_filter] at hkey ⊢
    tauto

/-! ## Resolving a field -/

theorem walk_grows (vars : List (Text × Text)) (text path : Text) (scope : FlavorScope) :
    Grows ⟨scope, path, 0, []⟩ Tally.zero (walk vars text scope path).2 :=
  walkInner_grows vars _ _ text Tally.zero

theorem walk_live (vars : List (Text × Text)) (hlive : scope ≠ validationScope) (text path : Text) :
    ∀ key ∈ (walk vars text scope path).2.keys, key.2 ≠ validationScope := by
  intro key hkey
  rcases (walk_grows vars text path scope).fresh key hkey with h | ⟨h, -⟩
  · exact absurd h (Finset.notMem_empty key)
  · rw [h]
    exact hlive

theorem walk_fine (vars : List (Text × Text)) (text path : Text) (scope : FlavorScope) :
    (walk vars text scope path).2.Fine :=
  walkInner_fine vars _ _ text Tally.zero Tally.fine_zero

/-- A text that expands and completes no var visits none. -/
theorem walk_visits {text path resolved : Text} (hok : (walk vars text scope path).1 = .ok resolved)
    (hkeys : (walk vars text scope path).2.keys = ∅) :
    (walk vars text scope path).2.visits = 0 :=
  walkInner_completes vars _ _ text Tally.zero resolved _ (Prod.ext hok rfl) (fun _ => rfl) hkeys

/-- Past a limit, what the resolver still gives needs no var that it would have to add. -/
theorem Tracks.of_exhausted {path : Text} {a a' : Work} {t : Tally} (hfine : t.Fine)
    (h : Tracks vars ⟨scope, path, 0, []⟩ a a' t) (hexhausted : a.Exhausted) :
    t.keys = ∅ ∧ t.bytes = 0 := by
  have hkeys : t.keys = ∅ := by
    rcases hexhausted with hlimit | hlimit
    · refine hfine.keys (Nat.eq_zero_of_not_pos fun hpos => ?_)
      have := h.underExpansions hpos
      have := h.expansions
      omega
    · by_contra hne
      have := h.underBytes (Finset.nonempty_iff_ne_empty.mpr hne)
      have := h.bytes
      omega
  exact ⟨hkeys, hfine.bytes hkeys⟩

/-- Where the first is within its limits, so is the second, and both give the expansion. -/
theorem Leads.resolves (h : Leads vars a b) (hlive : scope ≠ validationScope) (text path : Text) :
    (∃ b', resolve vars text scope path b = ((resolve vars text scope path a).1, b') ∧
      Leads vars (resolve vars text scope path a).2 b') ∨
    ∃ error, (resolve vars text scope path a).1 = .error error ∧ isLimitError error = true ∧
      (resolve vars text scope path a).2.Exhausted := by
  rcases resolve_agrees text path (h.settled scope hlive) with ⟨hr, ha⟩ | ⟨error, hr, ha⟩
  · left
    have hfine := walk_fine vars text path scope
    have hunderExpansions := ha.expansions_le hfine h.underExpansions
    have hunderBytes := ha.bytes_le hfine h.underBytes
    have hkeysLive := walk_live vars hlive text path
    have hexpansions := h.expansions
    have hbytes := h.bytes
    have haExpansions := ha.expansions
    have haBytes := ha.bytes
    rcases resolve_agrees text path (h.settled' scope hlive) with ⟨hr', hb⟩ | ⟨error, hr', hb⟩
    · refine ⟨(resolve vars text scope path b).2, Prod.ext (hr'.trans hr.symm) rfl, ?_⟩
      have hsum := sum_missing_both (weight vars) hkeysLive h.keys ha.keys hb.keys
      have hbyteSum := sum_missing_both (byteWeight vars) hkeysLive h.keys ha.keys hb.keys
      have hbExpansions := hb.expansions
      have hbBytes := hb.bytes
      refine ⟨h.settled.resolves hlive text path, h.settled'.resolves hlive text path, ?_, ?_, ?_,
        hunderExpansions, hunderBytes⟩
      · rw [ha.keys, hb.keys]
        exact Finset.union_subset_union_left h.keys
      · unfold Tally.expansions at haExpansions hbExpansions
        omega
      · unfold Tally.added at haBytes hbBytes
        omega
    · -- what passes a limit for the second passes it for the first
      exfalso
      have hsum := sum_sdiff_le (weight vars) (a := a) (b := b) hkeysLive
      have hbyteSum := sum_sdiff_le (byteWeight vars) (a := a) (b := b) hkeysLive
      have hpasses := hb.passes
      unfold Tally.expansions at haExpansions hpasses
      unfold Tally.added at haBytes hpasses
      omega
  · exact .inr ⟨error, hr, ha.limit, ha.exhausted⟩

/-- Past a limit, what the first still gives the second gives, too. -/
theorem Behind.resolves (h : Behind vars a b) (hlive : scope ≠ validationScope) (text path : Text) :
    (∃ b', resolve vars text scope path b = ((resolve vars text scope path a).1, b') ∧
      Behind vars (resolve vars text scope path a).2 b') ∨
    ∃ error, (resolve vars text scope path a).1 = .error error ∧ isLimitError error = true ∧
      (resolve vars text scope path a).2.Exhausted := by
  rcases resolve_agrees text path (h.settled scope hlive) with ⟨hr, ha⟩ | ⟨error, hr, ha⟩
  · left
    obtain ⟨hkeys, hnone⟩ := ha.of_exhausted (walk_fine vars text path scope) h.exhausted
    have hexpansions := h.expansions
    have hbytes := h.bytes
    have haExpansions := ha.expansions
    rcases resolve_agrees text path (h.settled' scope hlive) with ⟨hr', hb⟩ | ⟨error, hr', hb⟩
    · refine ⟨(resolve vars text scope path b).2, Prod.ext (hr'.trans hr.symm) rfl, ?_⟩
      have hbExpansions := hb.expansions
      have hbBytes := hb.bytes
      refine ⟨⟨h.settled.resolves hlive text path, h.settled'.resolves hlive text path,
        h.exhausted.resolves vars scope text path⟩, ?_, ?_⟩
      · simp only [Tally.expansions, hkeys, Finset.empty_sdiff, Finset.sum_empty] at haExpansions
        simp only [Tally.expansions, hkeys, Finset.empty_sdiff, Finset.sum_empty] at hbExpansions
        omega
      · simp only [Tally.added, hkeys, hnone, Finset.empty_sdiff, Finset.sum_empty] at hbBytes
        omega
    · exfalso
      have hunder := ha.underExpansions hb.visited
      have hpasses := hb.passes
      simp only [Tally.expansions, hkeys, Finset.empty_sdiff, Finset.sum_empty] at haExpansions
      simp only [Tally.expansions, Tally.added, hkeys, hnone, Finset.empty_sdiff,
        Finset.sum_empty] at hpasses
      omega
  · exact .inr ⟨error, hr, ha.limit, ha.exhausted⟩

/-- Both give the same, or the first stops at a limit. -/
theorem Trails.resolves (h : Trails vars a b) (hlive : scope ≠ validationScope) (text path : Text) :
    (∃ b', resolve vars text scope path b = ((resolve vars text scope path a).1, b') ∧
      Trails vars (resolve vars text scope path a).2 b') ∨
    ∃ error, (resolve vars text scope path a).1 = .error error ∧ isLimitError error = true ∧
      (resolve vars text scope path a).2.Exhausted := by
  rcases h with h | h
  · exact (h.resolves hlive text path).imp_left fun ⟨b', heq, h⟩ => ⟨b', heq, h.trails⟩
  · exact (h.resolves hlive text path).imp_left fun ⟨b', heq, h⟩ => ⟨b', heq, h.trails⟩

/-- What only the first resolves leaves the second behind it. -/
theorem Trails.first (h : Trails vars a b) (hlive : scope ≠ validationScope)
    (text path : Text) : Trails vars (resolve vars text scope path a).2 b := by
  have hframe := resolveInner_frame vars (vars.length + 1) ⟨scope, path, 0, []⟩ text a
  have hsettled := h.settled.resolves hlive text path
  rcases h with h | h
  · have hexpansions := h.expansions
    have hbytes := h.bytes
    rcases resolve_agrees text path (h.settled scope hlive) with ⟨hr, ha⟩ | ⟨error, hr, ha⟩
    · refine .inl ⟨hsettled, h.settled', ?_, ?_, ?_, ?_, ?_⟩
      · exact h.keys.trans hframe.keys
      · rw [sum_missing_first _ (walk_live vars hlive text path) h.keys ha.keys, ha.expansions,
          Tally.expansions]
        omega
      · rw [sum_missing_first _ (walk_live vars hlive text path) h.keys ha.keys, ha.bytes,
          Tally.added]
        omega
      · exact ha.expansions_le (walk_fine vars text path scope) h.underExpansions
      · exact ha.bytes_le (walk_fine vars text path scope) h.underBytes
    · refine .inr ⟨⟨hsettled, h.settled', ha.exhausted⟩, ?_, ?_⟩
      · calc b.budget.expansions ≤ a.budget.expansions := by omega
          _ ≤ _ := hframe.expansions
      · have := h.underBytes
        omega
  · exact .inr ⟨⟨hsettled, h.settled', h.exhausted.resolves vars scope text path⟩,
      h.expansions.trans hframe.expansions, h.bytes⟩

/-! ## Fields that must resolve -/

/-- The second trails the first, or the first has passed a limit. -/
def Follows (vars : List (Text × Text)) (a b : Work) : Prop := Leads vars a b ∨ Lost vars a b

theorem Trails.follows (h : Trails vars a b) : Follows vars a b :=
  h.imp_right (·.toLost)

/-- Past a limit only texts without vars resolve, and those resolve anywhere. -/
theorem Lost.resolves (h : Lost vars a b) (hlive : scope ≠ validationScope)
    {text path resolved : Text} (hok : (resolve vars text scope path a).1 = .ok resolved) :
    (resolve vars text scope path b).1 = .ok resolved := by
  rcases resolve_agrees text path (h.settled scope hlive) with ⟨hr, ha⟩ | ⟨error, hr, ha⟩
  · have hkeys := (ha.of_exhausted (walk_fine vars text path scope) h.exhausted).1
    rw [hr] at hok
    rcases resolve_agrees text path (h.settled' scope hlive) with ⟨hr', -⟩ | ⟨error, -, hb⟩
    · exact hr'.trans hok
    · have hvisits := walk_visits hok hkeys
      have := hb.visited
      omega
  · rw [hr] at hok
    cases hok

/-- Where the first resolves, so does the second, to the same text. -/
theorem Follows.resolves (h : Follows vars a b) (hlive : scope ≠ validationScope)
    {text path resolved : Text} {a' : Work}
    (hok : resolve vars text scope path a = (.ok resolved, a')) :
    ∃ b', resolve vars text scope path b = (.ok resolved, b') ∧ Follows vars a' b' := by
  rcases h with h | h
  · rcases h.resolves hlive text path with ⟨b', heq, h'⟩ | ⟨error, herror, -⟩
    · rw [hok] at heq h'
      exact ⟨b', heq, .inl h'⟩
    · rw [hok] at herror
      cases herror
  · have hsettled := h.settled.resolves hlive text path
    have hexhausted := h.exhausted.resolves vars scope text path
    rw [hok] at hsettled hexhausted
    refine ⟨_, Prod.ext (h.resolves hlive (by rw [hok])) rfl, .inr ⟨hsettled, ?_, hexhausted⟩⟩
    exact h.settled'.resolves hlive text path

theorem Follows.first (h : Follows vars a b) (hlive : scope ≠ validationScope)
    (text path : Text) : Follows vars (resolve vars text scope path a).2 b := by
  rcases h with h | h
  · exact (h.trails.first hlive text path).follows
  · exact .inr ⟨h.settled.resolves hlive text path, h.settled', h.exhausted.resolves vars scope text path⟩

end OoreBuild
