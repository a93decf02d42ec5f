import Mathlib

/-!
# Matching two lists by key

`greedy` gives each key of one list the first position of another list that holds the key and is
still free. Keys agree along an equivalence, so a matching that leaves no key unmatched while a
position with the key is free has as many pairs as any matching of equal keys (`card_le`).
-/

namespace Matching

variable {κ : Type*}

/-! ## As many pairs as possible -/

/-- Pairs of positions that hold equal keys, no position twice. -/
structure IsMatching (xs ys : List κ) (pairs : Finset (ℕ × ℕ)) : Prop where
  left : ∀ p ∈ pairs, ∀ q ∈ pairs, p.1 = q.1 → p = q
  right : ∀ p ∈ pairs, ∀ q ∈ pairs, p.2 = q.2 → p = q
  keys : ∀ p ∈ pairs, ∃ key, xs[p.1]? = some key ∧ ys[p.2]? = some key

/-- Every two positions with equal keys have one that is matched. -/
def IsSaturated (xs ys : List κ) (pairs : Finset (ℕ × ℕ)) : Prop :=
  ∀ i j key, xs[i]? = some key → ys[j]? = some key →
    (∃ q ∈ pairs, q.1 = i) ∨ ∃ q ∈ pairs, q.2 = j

/-- Of each key, a saturated set of pairs has all positions on one of the two sides. -/
theorem IsSaturated.covers {xs ys : List κ} {pairs : Finset (ℕ × ℕ)}
    (h : IsSaturated xs ys pairs) (key : κ) :
    (∀ i, xs[i]? = some key → ∃ q ∈ pairs, q.1 = i) ∨
      ∀ j, ys[j]? = some key → ∃ q ∈ pairs, q.2 = j := by
  by_cases hleft : ∀ i, xs[i]? = some key → ∃ q ∈ pairs, q.1 = i
  · exact Or.inl hleft
  · right
    push Not at hleft
    obtain ⟨i, hi, hnone⟩ := hleft
    intro j hj
    rcases h i j key hi hj with ⟨q, hq, hqi⟩ | hright
    · exact (hnone q hq hqi).elim
    · exact hright

/-- A saturated matching is a largest one. -/
theorem IsSaturated.card_le {xs ys : List κ} {pairs other : Finset (ℕ × ℕ)}
    (h : IsSaturated xs ys pairs) (hpairs : IsMatching xs ys pairs)
    (hother : IsMatching xs ys other) : other.card ≤ pairs.card := by
  classical
  let covered (key : Option κ) : Prop := ∀ i : ℕ, xs[i]? = key → ∃ q ∈ pairs, q.1 = i
  -- each pair is sent to the one that has its position on the side its key is covered on
  have hsend : ∀ p ∈ other, ∃ q ∈ pairs, xs[q.1]? = xs[p.1]? ∧
      (covered xs[p.1]? ∧ q.1 = p.1 ∨ ¬ covered xs[p.1]? ∧ q.2 = p.2) := by
    intro p hp
    obtain ⟨key, hx, hy⟩ := hother.keys p hp
    by_cases hleft : covered xs[p.1]?
    · obtain ⟨q, hq, hqp⟩ := hleft p.1 rfl
      exact ⟨q, hq, by rw [hqp], Or.inl ⟨hleft, hqp⟩⟩
    · obtain ⟨q, hq, hqp⟩ := ((h.covers key).resolve_left (hx ▸ hleft)) p.2 hy
      obtain ⟨key', hqx, hqy⟩ := hpairs.keys q hq
      rw [hqp, hy] at hqy
      cases hqy
      exact ⟨q, hq, hqx.trans hx.symm, Or.inr ⟨hleft, hqp⟩⟩
  choose! send hmem hkey hside using hsend
  refine Finset.card_le_card_of_injOn send (fun p hp => hmem p hp) ?_
  intro p hp q hq heq
  have hsame : xs[p.1]? = xs[q.1]? := by rw [← hkey p hp, ← hkey q hq, heq]
  rcases hside p hp with ⟨hcover, hp1⟩ | ⟨hcover, hp2⟩
  · rcases hside q hq with ⟨-, hq1⟩ | ⟨hnot, -⟩
    · exact hother.left p hp q hq (by rw [← hp1, ← hq1, heq])
    · exact (hnot (hsame ▸ hcover)).elim
  · rcases hside q hq with ⟨hcover', -⟩ | ⟨-, hq2⟩
    · exact (hcover (hsame ▸ hcover')).elim
    · exact hother.right p hp q hq (by rw [← hp2, ← hq2, heq])

/-! ## The greedy matching -/

variable [DecidableEq κ]

/-- The first position that holds the key and is not used. -/
def firstUnused (ys : List κ) (used : List ℕ) (key : κ) : Option ℕ :=
  (List.range ys.length).find? fun j => j ∉ used ∧ ys[j]? = some key

/-- The position each key gets, in order, and the positions used in the end. -/
def greedy (ys : List κ) (used : List ℕ) : List κ → List (Option ℕ) × List ℕ
  | [] => ([], used)
  | key :: rest =>
    let found := firstUnused ys used key
    let tail := greedy ys (found.toList ++ used) rest
    (found :: tail.1, tail.2)

/-! ## What a key gets -/

theorem firstUnused_eq_some {ys : List κ} {used : List ℕ} {key : κ} {j : ℕ}
    (h : firstUnused ys used key = some j) : j ∉ used ∧ ys[j]? = some key := by
  have hfound := List.find?_some h
  exact of_decide_eq_true hfound

theorem mem_used_of_firstUnused {ys : List κ} {used : List ℕ} {key : κ}
    (h : firstUnused ys used key = none) {j : ℕ} (hj : ys[j]? = some key) : j ∈ used := by
  by_contra hfree
  have hlt : j < ys.length := (List.getElem?_eq_some_iff.mp hj).1
  have hnone := List.find?_eq_none.mp h j (List.mem_range.mpr hlt)
  exact hnone (decide_eq_true ⟨hfree, hj⟩)

@[simp] theorem greedy_length (ys : List κ) (xs : List κ) (used : List ℕ) :
    (greedy ys used xs).1.length = xs.length := by
  induction xs generalizing used with
  | nil => rfl
  | cons key rest ih =>
    show (_ :: (greedy ys _ rest).1).length = _
    rw [List.length_cons, List.length_cons, ih]

/-- The used positions are those used before and those given to a key. -/
theorem mem_greedy_used {ys : List κ} (xs : List κ) (used : List ℕ) (j : ℕ) :
    j ∈ (greedy ys used xs).2 ↔ j ∈ used ∨ ∃ i : ℕ, (greedy ys used xs).1[i]? = some (some j) := by
  induction xs generalizing used with
  | nil => simp [greedy]
  | cons key rest ih =>
    show j ∈ (greedy ys _ rest).2 ↔ _
    rw [ih]
    constructor
    · rintro (hmem | ⟨i, hi⟩)
      · rcases List.mem_append.mp hmem with hfound | hused
        · exact Or.inr ⟨0, congrArg some (Option.mem_toList.mp hfound)⟩
        · exact Or.inl hused
      · exact Or.inr ⟨i + 1, hi⟩
    · rintro (hused | ⟨i, hi⟩)
      · exact Or.inl (List.mem_append_right _ hused)
      · cases i with
        | zero =>
          have hfound : firstUnused ys used key = some j := Option.some_inj.mp hi
          exact Or.inl (List.mem_append_left _ (Option.mem_toList.mpr hfound))
        | succ i => exact Or.inr ⟨i, hi⟩

/-- A key gets a position that holds it and was free. -/
theorem greedy_pair {ys : List κ} (xs : List κ) (used : List ℕ) {i j : ℕ}
    (h : (greedy ys used xs).1[i]? = some (some j)) :
    j ∉ used ∧ ∃ key, xs[i]? = some key ∧ ys[j]? = some key := by
  induction xs generalizing used i with
  | nil => cases h
  | cons key rest ih =>
    cases i with
    | zero =>
      obtain ⟨hfree, hkey⟩ := firstUnused_eq_some (Option.some_inj.mp h)
      exact ⟨hfree, key, rfl, hkey⟩
    | succ i =>
      obtain ⟨hfree, hkey⟩ := ih _ h
      exact ⟨fun hused => hfree (List.mem_append_right _ hused), hkey⟩

/-- No position is given twice. -/
theorem greedy_injective {ys : List κ} (xs : List κ) (used : List ℕ) {i i' j : ℕ}
    (h : (greedy ys used xs).1[i]? = some (some j))
    (h' : (greedy ys used xs).1[i']? = some (some j)) : i = i' := by
  induction xs generalizing used i i' with
  | nil => cases h
  | cons key rest ih =>
    -- the head's position is used when the rest is matched
    have hhead {n : ℕ} (hfound : firstUnused ys used key = some j)
        (hrest : (greedy ys ((firstUnused ys used key).toList ++ used) rest).1[n]? =
          some (some j)) : False :=
      (greedy_pair rest _ hrest).1 (List.mem_append_left _ (Option.mem_toList.mpr hfound))
    cases i with
    | zero =>
      cases i' with
      | zero => rfl
      | succ i' => exact (hhead (Option.some_inj.mp h) h').elim
    | succ i =>
      cases i' with
      | zero => exact (hhead (Option.some_inj.mp h') h).elim
      | succ i' => exact congrArg (· + 1) (ih _ h h')

/-- Where a key gets none, every position that holds it is used. -/
theorem greedy_saturated {ys : List κ} (xs : List κ) (used : List ℕ) {i j : ℕ} {key : κ}
    (h : (greedy ys used xs).1[i]? = some none) (hi : xs[i]? = some key)
    (hj : ys[j]? = some key) : j ∈ (greedy ys used xs).2 := by
  induction xs generalizing used i with
  | nil => cases h
  | cons first rest ih =>
    cases i with
    | zero =>
      cases hi
      have hused := mem_used_of_firstUnused (Option.some_inj.mp h) hj
      exact (mem_greedy_used rest _ j).mpr (Or.inl (List.mem_append_right _ hused))
    | succ i => exact ih _ h hi

/-- The greedy pairs are as many as those of any matching. -/
theorem greedy_card_le {xs ys : List κ} {pairs other : Finset (ℕ × ℕ)}
    (hpairs : ∀ i j : ℕ, (i, j) ∈ pairs ↔ (greedy ys [] xs).1[i]? = some (some j))
    (hother : IsMatching xs ys other) : other.card ≤ pairs.card := by
  have hmatching : IsMatching xs ys pairs := by
    refine ⟨?_, ?_, ?_⟩
    · rintro ⟨i, j⟩ hp ⟨i', j'⟩ hq (rfl : i = i')
      have hsame := ((hpairs i j).mp hp).symm.trans ((hpairs i j').mp hq)
      rw [Option.some_inj, Option.some_inj] at hsame
      rw [hsame]
    · rintro ⟨i, j⟩ hp ⟨i', j'⟩ hq (rfl : j = j')
      rw [greedy_injective xs [] ((hpairs i j).mp hp) ((hpairs i' j).mp hq)]
    · rintro ⟨i, j⟩ hp
      exact (greedy_pair xs [] ((hpairs i j).mp hp)).2
  have hsaturated : IsSaturated xs ys pairs := by
    intro i j key hi hj
    have hlt : i < (greedy ys [] xs).1.length := by
      rw [greedy_length]
      exact (List.getElem?_eq_some_iff.mp hi).1
    cases hfound : (greedy ys [] xs).1[i] with
    | none =>
      right
      have hmem := greedy_saturated xs [] (List.getElem?_eq_some_iff.mpr ⟨hlt, hfound⟩) hi hj
      obtain ⟨i', hi'⟩ := ((mem_greedy_used xs [] j).mp hmem).resolve_left List.not_mem_nil
      exact ⟨(i', j), (hpairs i' j).mpr hi', rfl⟩
    | some j' =>
      left
      exact ⟨(i, j'), (hpairs i j').mpr (List.getElem?_eq_some_iff.mpr ⟨hlt, hfound⟩), rfl⟩
  exact hsaturated.card_le hmatching hother

end Matching
