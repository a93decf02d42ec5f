import Mathlib.Data.List.Perm.Basic
import Mathlib.Data.List.Pairwise

/-!
# Interleaved calls over a shared state

A server runs calls over a shared state: its tables and the locks of its process. A call is a
sequence of statements and only a single statement is atomic: between two of them the other calls
may take any number of theirs, a call may be cut short, and a restart ends them all.

`Stable` is the rule for what holds in every run. It asks for a global invariant, a local
invariant of each call and a relation between any two calls (such as holding different locks), and
that a statement of one call keeps those of the others.
-/

/-- A system of calls. -/
structure Interleave (σ τ ι ε : Type) where
  /-- What a request does at once, and the calls it starts. -/
  enter : σ → ι → Option (σ × List τ)
  /-- The next statement of a call, and the call after it unless it ends there; `none` while the
  call has to wait. -/
  advance : σ → τ → ε → Option (σ × Option τ)
  /-- What is given back when a call is cut short. -/
  drop : σ → τ → σ
  /-- What a restart leaves; it ends every call. -/
  restart : σ → σ

namespace Interleave

/-- A shared state and the calls under way. -/
structure Config (σ τ : Type) where
  shared : σ
  calls : List τ

inductive Event (ι ε : Type) where
  | enter (input : ι)
  | advance (i : ℕ) (answer : ε)
  | drop (i : ℕ)
  | restart

/-- A condition on the steps of a run: on the state before a step and what is done there, and on
each other call that is under way then. -/
structure Condition (σ τ ι ε : Type) where
  enter : σ → ι → Prop
  enterBeside : σ → ι → τ → Prop
  advance : σ → τ → ε → Prop
  advanceBeside : σ → τ → ε → τ → Prop

variable {σ τ ι ε : Type}

/-- The condition that every step meets. -/
def Condition.any : Condition σ τ ι ε where
  enter _ _ := True
  enterBeside _ _ _ := True
  advance _ _ _ := True
  advanceBeside _ _ _ _ := True

/-- The event meets the condition in the configuration. -/
def Condition.Met (cond : Condition σ τ ι ε) (c : Config σ τ) : Event ι ε → Prop
  | .enter x => cond.enter c.shared x ∧ ∀ u ∈ c.calls, cond.enterBeside c.shared x u
  | .advance i e => ∀ t, c.calls[i]? = some t → cond.advance c.shared t e ∧
      ∀ u ∈ c.calls.eraseIdx i, cond.advanceBeside c.shared t e u
  | .drop _ => True
  | .restart => True

variable (sys : Interleave σ τ ι ε)

/-- One step; `none` where the event is not possible. -/
def next (c : Config σ τ) : Event ι ε → Option (Config σ τ)
  | .enter x => (sys.enter c.shared x).map fun r => ⟨r.1, c.calls ++ r.2⟩
  | .advance i e => c.calls[i]?.bind fun t => (sys.advance c.shared t e).map fun r =>
      ⟨r.1, c.calls.eraseIdx i ++ r.2.toList⟩
  | .drop i => c.calls[i]?.map fun t => ⟨sys.drop c.shared t, c.calls.eraseIdx i⟩
  | .restart => some ⟨sys.restart c.shared, []⟩

/-- A run. -/
def run (c : Config σ τ) : List (Event ι ε) → Option (Config σ τ)
  | [] => some c
  | e :: es => (sys.next c e).bind fun c' => run c' es

/-- Every step of the run meets the condition. -/
def Meets (cond : Condition σ τ ι ε) (c : Config σ τ) : List (Event ι ε) → Prop
  | [] => True
  | e :: es => cond.Met c e ∧ ∀ c', sys.next c e = some c' → Meets cond c' es

theorem meets_any (c : Config σ τ) (es : List (Event ι ε)) : sys.Meets .any c es := by
  induction es generalizing c with
  | nil => trivial
  | cons e es ih =>
    refine ⟨?_, fun c' _ => ih c'⟩
    cases e with
    | enter x => exact ⟨trivial, fun _ _ => trivial⟩
    | advance i e => exact fun _ _ => ⟨trivial, fun _ _ => trivial⟩
    | drop i => trivial
    | restart => trivial

/-- A run of steps that each pass a check. -/
def checks (check : Config σ τ → Event ι ε → Bool) (c : Config σ τ) : List (Event ι ε) → Bool
  | [] => true
  | e :: es => check c e && (sys.next c e).all fun c' => checks check c' es

/-- A check that implies the condition decides it along a run. -/
theorem meets_of_checks {cond : Condition σ τ ι ε} {check : Config σ τ → Event ι ε → Bool}
    (hcheck : ∀ c e, check c e = true → cond.Met c e) {c : Config σ τ} {es : List (Event ι ε)}
    (h : sys.checks check c es = true) : sys.Meets cond c es := by
  induction es generalizing c with
  | nil => trivial
  | cons e es ih =>
    rw [checks, Bool.and_eq_true, Option.all_eq_true] at h
    exact ⟨hcheck c e h.1, fun c' hnext => ih (h.2 c' hnext)⟩

/-! ## The invariant rule -/

/-- The global invariant, the local one of every call, and the relation of any two calls. -/
structure Holds (G : σ → Prop) (L : σ → τ → Prop) (X : τ → τ → Prop) (c : Config σ τ) : Prop where
  shared : G c.shared
  calls : ∀ t ∈ c.calls, L c.shared t
  apart : c.calls.Pairwise X

/-- No call is under way yet. -/
theorem Holds.start {G : σ → Prop} {L : σ → τ → Prop} {X : τ → τ → Prop} {s : σ} (h : G s) :
    Holds G L X ⟨s, []⟩ := ⟨h, fun _ ht => (List.not_mem_nil ht).elim, List.Pairwise.nil⟩

/-- No statement of one call breaks the global invariant or the local one of a call beside it. -/
structure Stable (cond : Condition σ τ ι ε) (G : σ → Prop) (L : σ → τ → Prop)
    (X : τ → τ → Prop) : Prop where
  symm : ∀ t u, X t u → X u t
  enter : ∀ s x s' ts, G s → cond.enter s x → sys.enter s x = some (s', ts) →
    G s' ∧ (∀ t ∈ ts, L s' t) ∧ ts.Pairwise X
  enterBeside : ∀ s x s' ts u, G s → cond.enter s x → sys.enter s x = some (s', ts) → L s u →
    cond.enterBeside s x u → L s' u ∧ ∀ t ∈ ts, X u t
  advance : ∀ s t e s' t', G s → L s t → cond.advance s t e → sys.advance s t e = some (s', t') →
    G s' ∧ ∀ v ∈ t', L s' v
  advanceBeside : ∀ s t e s' t' u, G s → L s t → cond.advance s t e →
    sys.advance s t e = some (s', t') → L s u → X t u → cond.advanceBeside s t e u →
    L s' u ∧ ∀ v ∈ t', X u v
  drop : ∀ s t, G s → L s t → G (sys.drop s t)
  dropBeside : ∀ s t u, G s → L s t → L s u → X t u → L (sys.drop s t) u
  restart : ∀ s, G s → G (sys.restart s)

variable {sys} {cond : Condition σ τ ι ε} {G : σ → Prop} {L : σ → τ → Prop} {X : τ → τ → Prop}

/-- A call stands apart from every other one. -/
theorem Holds.apart_of_getElem (hsymm : ∀ t u, X t u → X u t) {c : Config σ τ}
    (h : Holds G L X c) {i : ℕ} {t : τ} (hi : c.calls[i]? = some t) :
    (∀ u ∈ c.calls.eraseIdx i, X t u) ∧ (c.calls.eraseIdx i).Pairwise X := by
  obtain ⟨hlt, rfl⟩ := List.getElem?_eq_some_iff.mp hi
  have hperm := List.getElem_cons_eraseIdx_perm hlt
  exact List.pairwise_cons.mp ((hperm.pairwise_iff fun {_ _} => hsymm _ _).mpr h.apart)

/-- Different calls stand apart. -/
theorem Holds.apart_of_ne (hsymm : ∀ t u, X t u → X u t) {c : Config σ τ} (h : Holds G L X c)
    {t u : τ} (ht : t ∈ c.calls) (hu : u ∈ c.calls) (hne : t ≠ u) : X t u := by
  have hX : Std.Symm X := ⟨fun {_ _} => hsymm _ _⟩
  exact h.apart.forall ht hu hne

theorem Holds.of_mem_eraseIdx {c : Config σ τ} (h : Holds G L X c) {i : ℕ} {u : τ}
    (hu : u ∈ c.calls.eraseIdx i) : L c.shared u := h.calls u (List.mem_of_mem_eraseIdx hu)

/-- One step keeps what is stable. -/
theorem Stable.next (hst : Stable sys cond G L X) {c c' : Config σ τ} {e : Event ι ε}
    (h : Holds G L X c) (hmet : cond.Met c e) (hnext : sys.next c e = some c') :
    Holds G L X c' := by
  cases e with
  | enter x =>
    obtain ⟨⟨s', ts⟩, henter, rfl⟩ := Option.map_eq_some_iff.mp hnext
    obtain ⟨hG, hL, hX⟩ := hst.enter _ _ _ _ h.shared hmet.1 henter
    have hbeside := fun u (hu : u ∈ c.calls) =>
      hst.enterBeside _ _ _ _ u h.shared hmet.1 henter (h.calls u hu) (hmet.2 u hu)
    refine ⟨hG, fun u hu => ?_, List.pairwise_append.mpr ⟨h.apart, hX, fun u hu =>
      (hbeside u hu).2⟩⟩
    rcases List.mem_append.mp hu with hu | hu
    · exact (hbeside u hu).1
    · exact hL u hu
  | advance i e =>
    obtain ⟨t, ht, hmap⟩ := Option.bind_eq_some_iff.mp hnext
    obtain ⟨⟨s', t'⟩, hadv, rfl⟩ := Option.map_eq_some_iff.mp hmap
    have hLt := h.calls t (List.mem_of_getElem? ht)
    obtain ⟨hself, hothers⟩ := hmet t ht
    obtain ⟨hG, hL⟩ := hst.advance _ _ _ _ _ h.shared hLt hself hadv
    obtain ⟨hapart, hrest⟩ := h.apart_of_getElem hst.symm ht
    have hbeside := fun u (hu : u ∈ c.calls.eraseIdx i) =>
      hst.advanceBeside _ _ _ _ _ u h.shared hLt hself hadv (h.of_mem_eraseIdx hu) (hapart u hu)
        (hothers u hu)
    refine ⟨hG, fun u hu => ?_, List.pairwise_append.mpr ⟨hrest, ?_, fun u hu v hv =>
      (hbeside u hu).2 v (Option.mem_toList.mp hv)⟩⟩
    · rcases List.mem_append.mp hu with hu | hu
      · exact (hbeside u hu).1
      · exact hL u (Option.mem_toList.mp hu)
    · cases t' with
      | none => exact List.Pairwise.nil
      | some v => exact List.pairwise_singleton X v
  | drop i =>
    obtain ⟨t, ht, rfl⟩ := Option.map_eq_some_iff.mp hnext
    have hLt := h.calls t (List.mem_of_getElem? ht)
    obtain ⟨hapart, hrest⟩ := h.apart_of_getElem hst.symm ht
    exact ⟨hst.drop _ _ h.shared hLt, fun u hu =>
      hst.dropBeside _ _ u h.shared hLt (h.of_mem_eraseIdx hu) (hapart u hu), hrest⟩
  | restart =>
    cases hnext
    exact ⟨hst.restart _ h.shared, by simp, List.Pairwise.nil⟩

/-- Every run keeps what is stable. -/
theorem Stable.run (hst : Stable sys cond G L X) {es : List (Event ι ε)} {c c' : Config σ τ}
    (h : Holds G L X c) (hmeets : sys.Meets cond c es) (hrun : sys.run c es = some c') :
    Holds G L X c' := by
  induction es generalizing c with
  | nil =>
    cases hrun
    exact h
  | cons e es ih =>
    obtain ⟨mid, hnext, hrest⟩ := Option.bind_eq_some_iff.mp hrun
    exact ih (hst.next h hmeets.1 hnext) (hmeets.2 mid hnext) hrest

/-- What every step keeps relates each state of a run to the later ones. -/
theorem Stable.run_rel (hst : Stable sys cond G L X) {R : σ → σ → Prop} (hrefl : ∀ s, R s s)
    (htrans : ∀ s mid s', R s mid → R mid s' → R s s')
    (hstep : ∀ (c c' : Config σ τ) e, Holds G L X c → cond.Met c e → sys.next c e = some c' →
      R c.shared c'.shared)
    {es : List (Event ι ε)} {c c' : Config σ τ} (h : Holds G L X c) (hmeets : sys.Meets cond c es)
    (hrun : sys.run c es = some c') : R c.shared c'.shared := by
  induction es generalizing c with
  | nil =>
    cases hrun
    exact hrefl _
  | cons e es ih =>
    obtain ⟨mid, hnext, hrest⟩ := Option.bind_eq_some_iff.mp hrun
    exact htrans _ _ _ (hstep c mid e h hmeets.1 hnext)
      (ih (hst.next h hmeets.1 hnext) (hmeets.2 mid hnext) hrest)

end Interleave
