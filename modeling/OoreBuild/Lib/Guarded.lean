import OoreBuild.Lib.Interleave

/-!
# Programs that share a state and a mutex

The calls of a server as programs: a statement at a time, each chosen by the answers before it, and
some of them while the program holds the server's mutex. Any number of programs run at once.

The rule is one of rely and guarantee. A program carries what it knows of the state; what a holder
of the mutex knows must survive the statements of those that do not hold it (`outside`), and what
the others know must survive every statement. `Safe` asks each statement for the invariant, for the
guarantee and for what the program knows after it, so a program is checked on its own.
-/

namespace Guarded

/-- A program: `A s` is what the statement `s` answers. -/
inductive Prog {S : Type} (A : S → Type) (α : Type) : Type where
  | ret (a : α)
  | lock (next : Prog A α)
  | unlock (next : Prog A α)
  | act (s : S) (next : A s → Prog A α)

namespace Prog

variable {S : Type} {A : S → Type} {α β : Type}

def bind (p : Prog A α) (f : α → Prog A β) : Prog A β :=
  match p with
  | ret a => f a
  | lock next => lock (bind next f)
  | unlock next => unlock (bind next f)
  | act s next => act s fun a => bind (next a) f

instance : Monad (Prog A) where
  pure := ret
  bind := bind

end Prog

/-- A program that may fail. -/
abbrev Handler {S : Type} (A : S → Type) (ε α : Type) : Type := ExceptT ε (Prog A) α

namespace Handler

variable {S : Type} {A : S → Type} {ε α : Type}

/-- A statement that always answers. -/
def act (s : S) : Handler A ε (A s) := ExceptT.mk (.act s fun a => .ret (.ok a))

/-- Fail unless the condition holds. -/
def ensure (p : Prop) [Decidable p] (e : ε) : Handler A ε Unit := if p then pure () else throw e

/-- Go on with a result. -/
def ofExcept : Except ε α → Handler A ε α
  | .ok a => pure a
  | .error e => throw e

/-- Hold the mutex, also where the program fails. -/
def locked (x : Handler A ε α) : Handler A ε α :=
  ExceptT.mk (.lock (Prog.bind x.run fun r => .unlock (.ret r)))

end Handler

/-- What a statement does and answers, from what the environment draws. -/
structure Machine (σ δ : Type) {S : Type} (A : S → Type) where
  exec : σ → (s : S) → δ → σ × A s
  restart : σ → σ

/-- The state and whether the mutex is held. -/
structure Shared (σ : Type) where
  state : σ
  held : Bool

/-- A program under way. -/
structure Call {S : Type} (A : S → Type) (α : Type) where
  holds : Bool
  prog : Prog A α

variable {σ δ ι S : Type} {A : S → Type} {ε α β : Type}

/-- The server: a program that wants the mutex waits while another one holds it. A program that is
cut short gives it back. -/
def Machine.server (m : Machine σ δ A) (start : ι → Prog A α) :
    Interleave (Shared σ) (Call A α) ι δ where
  enter g x := some (g, [⟨false, start x⟩])
  advance g t d :=
    match t.prog with
    | .ret _ => some (g, none)
    | .lock next => if g.held then none else some ({ g with held := true }, some ⟨true, next⟩)
    | .unlock next => some ({ g with held := false }, some ⟨false, next⟩)
    | .act s next =>
      some ({ g with state := (m.exec g.state s d).1 },
        some ⟨t.holds, next (m.exec g.state s d).2⟩)
  drop g t := if t.holds then { g with held := false } else g
  restart g := ⟨m.restart g.state, false⟩

/-! ## Rely and guarantee -/

/-- What holds in every state, and what a statement may do where its program holds the mutex and
where it does not. -/
structure Rules (σ : Type) where
  inv : σ → Prop
  inside : σ → σ → Prop
  outside : σ → σ → Prop

namespace Rules

variable (r : Rules σ)

/-- What a statement of the program may do. -/
def may (holds : Bool) (s s' : σ) : Prop := if holds then r.inside s s' else r.outside s s'

/-- What a program knows survives the statements of the others. -/
def Stable (holds : Bool) (K : σ → Prop) : Prop :=
  ∀ s s', r.inv s → r.outside s s' ∨ (holds = false ∧ r.inside s s') → K s → K s'

theorem stable_true (holds : Bool) : r.Stable holds fun _ => True := fun _ _ _ _ _ => trivial

theorem Stable.holder {r : Rules σ} {K : σ → Prop} (h : r.Stable false K) : r.Stable true K :=
  fun s s' hinv hstep => h s s' hinv (Or.inl (hstep.resolve_right fun hin => by cases hin.1))

end Rules

/-- A program that knows `K` keeps the rules to its end, and ends as `post` says of its value, of
whether it holds the mutex and of what it knows then. -/
def Safe (m : Machine σ δ A) (r : Rules σ) (post : α → Bool → (σ → Prop) → Prop) :
    Bool → (σ → Prop) → Prog A α → Prop
  | holds, K, .ret a => post a holds K
  | holds, K, .lock next => holds = false ∧ Safe m r post true K next
  | holds, K, .unlock next =>
    holds = true ∧ ∃ K', (∀ s, r.inv s → K s → K' s) ∧ r.Stable false K' ∧
      Safe m r post false K' next
  | holds, K, .act st next =>
    ∀ s d, r.inv s → K s →
      r.inv (m.exec s st d).1 ∧ r.may holds s (m.exec s st d).1 ∧
        ∃ K', K' (m.exec s st d).1 ∧ r.Stable holds K' ∧
          Safe m r post holds K' (next (m.exec s st d).2)

section Rules

variable {m : Machine σ δ A} {r : Rules σ}

theorem Safe.bind {post : β → Bool → (σ → Prop) → Prop} {p : Prog A α} {f : α → Prog A β}
    {holds : Bool} {K : σ → Prop}
    (h : Safe m r (fun a holds K => Safe m r post holds K (f a)) holds K p) :
    Safe m r post holds K (p.bind f) := by
  induction p generalizing holds K with
  | ret a => exact h
  | lock next ih => exact ⟨h.1, ih h.2⟩
  | unlock next ih =>
    obtain ⟨hholds, K', hweak, hstable, hnext⟩ := h
    exact ⟨hholds, K', hweak, hstable, ih hnext⟩
  | act st next ih =>
    intro s d hinv hK
    obtain ⟨hinv', hmay, K', hK', hstable, hnext⟩ := h s d hinv hK
    exact ⟨hinv', hmay, K', hK', hstable, ih _ hnext⟩

theorem Safe.mono {post post' : α → Bool → (σ → Prop) → Prop} {p : Prog A α} {holds : Bool}
    {K : σ → Prop} (h : Safe m r post holds K p)
    (hpost : ∀ a holds K, post a holds K → post' a holds K) : Safe m r post' holds K p := by
  induction p generalizing holds K with
  | ret a => exact hpost a holds K h
  | lock next ih => exact ⟨h.1, ih h.2⟩
  | unlock next ih =>
    obtain ⟨hholds, K', hweak, hstable, hnext⟩ := h
    exact ⟨hholds, K', hweak, hstable, ih hnext⟩
  | act st next ih =>
    intro s d hinv hK
    obtain ⟨hinv', hmay, K', hK', hstable, hnext⟩ := h s d hinv hK
    exact ⟨hinv', hmay, K', hK', hstable, ih _ hnext⟩

/-- A program that is safe from what it knows is safe from more. -/
theorem Safe.weaken {post : α → Bool → (σ → Prop) → Prop} {p : Prog A α} {holds : Bool}
    {K L : σ → Prop} (h : Safe m r post holds L p) (hKL : ∀ s, r.inv s → K s → L s)
    (hpost : ∀ a holds, post a holds L → post a holds K) : Safe m r post holds K p := by
  induction p generalizing holds with
  | ret a => exact hpost a holds h
  | lock next ih => exact ⟨h.1, ih h.2⟩
  | unlock next ih =>
    obtain ⟨hholds, K', hweak, hrest⟩ := h
    exact ⟨hholds, K', fun s hinv hK => hweak s hinv (hKL s hinv hK), hrest⟩
  | act st next ih => exact fun s d hinv hK => h s d hinv (hKL s hinv hK)

/-! ## Programs that may fail -/

/-- A program that may fail keeps the rules from what it knows, holds the mutex at its end as at its
start, and where it succeeds its value and what it knows then are as `Q` says. -/
def Checked (m : Machine σ δ A) (r : Rules σ) (holds : Bool) (K : σ → Prop)
    (Q : α → (σ → Prop) → Prop) (x : Handler A ε α) : Prop :=
  r.Stable holds K →
    Safe m r (fun result holds' K' =>
      holds' = holds ∧ r.Stable holds K' ∧ ∀ a, result = .ok a → Q a K') holds K x.run

variable {holds : Bool} {K : σ → Prop} {Q : α → (σ → Prop) → Prop}

theorem Checked.pure {a : α} (h : Q a K) : Checked m r holds K Q (Pure.pure a : Handler A ε α) :=
  fun hK => ⟨rfl, hK, fun _ heq => Except.ok.inj heq ▸ h⟩

theorem Checked.throw (e : ε) : Checked m r holds K Q (throw e : Handler A ε α) :=
  fun hK => ⟨rfl, hK, nofun⟩

theorem Checked.bind {Q' : β → (σ → Prop) → Prop} {x : Handler A ε α} {f : α → Handler A ε β}
    (h : Checked m r holds K (fun a K' => Checked m r holds K' Q' (f a)) x) :
    Checked m r holds K Q' (x >>= f) := by
  intro hK
  refine Safe.bind (Safe.mono (h hK) fun result holds' K' hpost => ?_)
  obtain ⟨rfl, hK', hok⟩ := hpost
  cases result with
  | ok a => exact hok a rfl hK'
  | error e => exact ⟨rfl, hK', nofun⟩

theorem Checked.mono {Q' : α → (σ → Prop) → Prop} {x : Handler A ε α}
    (h : Checked m r holds K Q x) (hQ : ∀ a K, Q a K → Q' a K) : Checked m r holds K Q' x :=
  fun hK => Safe.mono (h hK) fun _ _ _ hpost =>
    ⟨hpost.1, hpost.2.1, fun a heq => hQ a _ (hpost.2.2 a heq)⟩

theorem Checked.weaken {L : σ → Prop} {x : Handler A ε α} (hL : r.Stable holds L)
    (hKL : ∀ s, r.inv s → K s → L s) (hQ : ∀ a, Q a L → Q a K) (h : Checked m r holds L Q x) :
    Checked m r holds K Q x :=
  fun hK => (h hL).weaken hKL fun _ _ hpost =>
    ⟨hpost.1, hpost.1 ▸ hK, fun a heq => hQ a (hpost.2.2 a heq)⟩

theorem Checked.ite {p : Prop} [Decidable p] {x y : Handler A ε α}
    (hx : p → Checked m r holds K Q x) (hy : ¬ p → Checked m r holds K Q y) :
    Checked m r holds K Q (if p then x else y) := by
  split_ifs with hp
  · exact hx hp
  · exact hy hp

theorem Checked.ensure {p : Prop} [Decidable p] {e : ε} {Q : Unit → (σ → Prop) → Prop}
    (h : p → Q () K) : Checked m r holds K Q (Handler.ensure p e : Handler A ε Unit) := by
  unfold Handler.ensure
  split_ifs with hp
  · exact Checked.pure (h hp)
  · exact Checked.throw e

theorem Checked.ofExcept {result : Except ε α} (h : ∀ a, result = .ok a → Q a K) :
    Checked m r holds K Q (Handler.ofExcept result : Handler A ε α) := by
  cases result with
  | ok a => exact Checked.pure (h a rfl)
  | error e => exact Checked.throw e

/-- A statement: the rules and what is known after it. -/
theorem Checked.act {st : S} {Q : A st → (σ → Prop) → Prop}
    (h : ∀ s d, r.inv s → K s →
      r.inv (m.exec s st d).1 ∧ r.may holds s (m.exec s st d).1 ∧
        ∃ K', K' (m.exec s st d).1 ∧ (r.Stable holds K → r.Stable holds K') ∧
          Q (m.exec s st d).2 K') :
    Checked m r holds K Q (Handler.act st : Handler A ε (A st)) := by
  intro hstable s d hinv hK
  obtain ⟨hinv', hmay, K', hK', hstable', hQ⟩ := h s d hinv hK
  exact ⟨hinv', hmay, K', hK', hstable' hstable, rfl, hstable' hstable,
    fun _ heq => Except.ok.inj heq ▸ hQ⟩

/-- The mutex: what is known after it is given back must survive every statement. -/
theorem Checked.locked {x : Handler A ε α}
    (h : Checked m r true K (fun a K' => ∃ P : σ → Prop, (∀ s, r.inv s → K' s → P s) ∧
      r.Stable false P ∧ Q a P) x) :
    Checked m r false K Q (Handler.locked x) := by
  intro hK
  refine ⟨rfl, Safe.bind (Safe.mono (h hK.holder) fun result holds' K' hpost => ?_)⟩
  obtain ⟨rfl, _, hok⟩ := hpost
  refine ⟨rfl, ?_⟩
  cases result with
  | ok a =>
    obtain ⟨P, hweak, hstable, hQ⟩ := hok a rfl
    exact ⟨P, hweak, hstable, rfl, hstable, fun _ heq => Except.ok.inj heq ▸ hQ⟩
  | error e =>
    exact ⟨fun _ => True, fun _ _ _ => trivial, r.stable_true false, rfl,
      r.stable_true false, nofun⟩

/-- A request keeps the rules to its end. -/
theorem Checked.run {Q : α → (σ → Prop) → Prop} {x : Handler A ε α}
    (h : Checked m r false (fun _ => True) Q x) :
    Safe m r (fun _ holds _ => holds = false) false (fun _ => True) x.run :=
  Safe.mono (h (r.stable_true false)) fun _ _ _ hpost => hpost.1

end Rules

/-! ## Runs -/

section Runs

variable {m : Machine σ δ A} {r : Rules σ} {start : ι → Prog A α}

/-- A program that keeps the rules from what it knows, and gives the mutex back. -/
def Call.Safe (m : Machine σ δ A) (r : Rules σ) (s : σ) (t : Call A α) : Prop :=
  ∃ K : σ → Prop, K s ∧ r.Stable t.holds K ∧
    Guarded.Safe m r (fun _ holds _ => holds = false) t.holds K t.prog

/-- Every program of the server keeps the rules. -/
structure Sound (m : Machine σ δ A) (r : Rules σ) (start : ι → Prog A α) : Prop where
  start : ∀ x, Safe m r (fun _ holds _ => holds = false) false (fun _ => True) (start x)
  restart : ∀ s, r.inv s → r.inv (m.restart s)

theorem Call.Safe.of_may {s s' : σ} {t u : Call A α} (hu : u.Safe m r s) (hinv : r.inv s)
    (hmay : r.may t.holds s s') (hapart : ¬ (t.holds = true ∧ u.holds = true)) :
    u.Safe m r s' := by
  obtain ⟨K, hK, hstable, hsafe⟩ := hu
  refine ⟨K, hstable s s' hinv ?_ hK, hstable, hsafe⟩
  unfold Rules.may at hmay
  split_ifs at hmay with hholds
  · exact Or.inr ⟨Bool.eq_false_iff.mpr fun hother => hapart ⟨hholds, hother⟩, hmay⟩
  · exact Or.inl hmay

/-- Programs that keep the rules keep them side by side, and one of them at most holds the mutex. -/
theorem Sound.stable (h : Sound m r start) :
    (m.server start).Stable .any (fun g => r.inv g.state)
      (fun g t => (t.holds = true → g.held = true) ∧ t.Safe m r g.state)
      (fun t u => ¬ (t.holds = true ∧ u.holds = true)) where
  symm _ _ hapart hboth := hapart hboth.symm
  enter g x g' calls hinv _ henter := by
    obtain ⟨rfl, rfl⟩ := Prod.mk.inj (Option.some.inj henter)
    refine ⟨hinv, fun t ht => ?_, List.pairwise_singleton _ _⟩
    obtain rfl := List.mem_singleton.mp ht
    exact ⟨nofun, fun _ => True, trivial, r.stable_true false, h.start x⟩
  enterBeside g x g' calls u hinv _ henter hu _ := by
    obtain ⟨rfl, rfl⟩ := Prod.mk.inj (Option.some.inj henter)
    refine ⟨hu, fun t ht hboth => ?_⟩
    obtain rfl := List.mem_singleton.mp ht
    cases hboth.2
  advance g t d g' next hinv ht _ hadvance := by
    obtain ⟨holds, prog⟩ := t
    obtain ⟨hheld, K, hK, hstable, hsafe⟩ := ht
    cases prog with
    | ret a =>
      obtain ⟨rfl, rfl⟩ := Prod.mk.inj (Option.some.inj hadvance)
      exact ⟨hinv, nofun⟩
    | lock p =>
      obtain ⟨hfree, heq⟩ := Option.ite_none_left_eq_some.mp hadvance
      obtain ⟨rfl, rfl⟩ := Prod.mk.inj (Option.some.inj heq)
      obtain ⟨rfl, hsafe⟩ := hsafe
      refine ⟨hinv, fun v hv => ?_⟩
      obtain rfl := Option.some.inj hv
      exact ⟨fun _ => rfl, K, hK, hstable.holder, hsafe⟩
    | unlock p =>
      obtain ⟨rfl, rfl⟩ := Prod.mk.inj (Option.some.inj hadvance)
      obtain ⟨rfl, K', hweak, hstable', hsafe⟩ := hsafe
      refine ⟨hinv, fun v hv => ?_⟩
      obtain rfl := Option.some.inj hv
      exact ⟨nofun, K', hweak _ hinv hK, hstable', hsafe⟩
    | act st p =>
      obtain ⟨rfl, rfl⟩ := Prod.mk.inj (Option.some.inj hadvance)
      obtain ⟨hinv', _, K', hK', hstable', hsafe⟩ := hsafe g.state d hinv hK
      refine ⟨hinv', fun v hv => ?_⟩
      obtain rfl := Option.some.inj hv
      exact ⟨hheld, K', hK', hstable', hsafe⟩
  advanceBeside g t d g' next u hinv ht _ hadvance hu hapart _ := by
    obtain ⟨holds, prog⟩ := t
    obtain ⟨hheld, K, hK, hstable, hsafe⟩ := ht
    cases prog with
    | ret a =>
      obtain ⟨rfl, rfl⟩ := Prod.mk.inj (Option.some.inj hadvance)
      exact ⟨hu, nofun⟩
    | lock p =>
      obtain ⟨hfree, heq⟩ := Option.ite_none_left_eq_some.mp hadvance
      obtain ⟨rfl, rfl⟩ := Prod.mk.inj (Option.some.inj heq)
      refine ⟨⟨fun _ => rfl, hu.2⟩, fun v hv hboth => ?_⟩
      exact hfree (hu.1 hboth.1)
    | unlock p =>
      obtain ⟨rfl, rfl⟩ := Prod.mk.inj (Option.some.inj hadvance)
      obtain ⟨rfl, _⟩ := hsafe
      refine ⟨⟨fun hholds => absurd ⟨rfl, hholds⟩ hapart, hu.2⟩, fun v hv hboth => ?_⟩
      obtain rfl := Option.some.inj hv
      cases hboth.2
    | act st p =>
      obtain ⟨rfl, rfl⟩ := Prod.mk.inj (Option.some.inj hadvance)
      obtain ⟨_, hmay, _⟩ := hsafe g.state d hinv hK
      refine ⟨⟨hu.1, hu.2.of_may hinv hmay hapart⟩, fun v hv hboth => ?_⟩
      obtain rfl := Option.some.inj hv
      exact hapart hboth.symm
  drop g t hinv _ := by
    show r.inv (if t.holds = true then _ else _ : Shared σ).state
    split_ifs <;> exact hinv
  dropBeside g t u _ _ hu hapart := by
    show (_ → (if t.holds = true then _ else _ : Shared σ).held = true) ∧
      u.Safe m r (if t.holds = true then _ else _ : Shared σ).state
    split_ifs with hholds
    · exact ⟨fun hother => absurd ⟨hholds, hother⟩ hapart, hu.2⟩
    · exact hu
  restart g hinv := h.restart g.state hinv

/-- The invariant holds in every state of every run. -/
theorem Sound.inv_run (h : Sound m r start) {s : σ} (hinv : r.inv s)
    {events : List (Interleave.Event ι δ)} {c : Interleave.Config (Shared σ) (Call A α)}
    (hrun : (m.server start).run ⟨⟨s, false⟩, []⟩ events = some c) : r.inv c.shared.state :=
  (h.stable.run (Interleave.Holds.start hinv) ((m.server start).meets_any _ _) hrun).shared

/-- What the statements and a restart do relates each state of a run to the later ones. -/
theorem Sound.rel_run (h : Sound m r start) {R : σ → σ → Prop} (hrefl : ∀ s, R s s)
    (htrans : ∀ s mid s', R s mid → R mid s' → R s s')
    (hmay : ∀ holds s s', r.inv s → r.may holds s s' → R s s')
    (hrestart : ∀ s, r.inv s → R s (m.restart s)) {s : σ} (hinv : r.inv s)
    {before after : List (Interleave.Event ι δ)}
    {c c' : Interleave.Config (Shared σ) (Call A α)}
    (hbefore : (m.server start).run ⟨⟨s, false⟩, []⟩ before = some c)
    (hafter : (m.server start).run c after = some c') : R c.shared.state c'.shared.state := by
  have hholds := h.stable.run (Interleave.Holds.start hinv) ((m.server start).meets_any _ _) hbefore
  refine h.stable.run_rel (R := fun g g' => R g.state g'.state) (fun g => hrefl g.state)
    (fun g mid g' => htrans g.state mid.state g'.state) (fun c c' e hc _ hnext => ?_) hholds
    ((m.server start).meets_any _ _) hafter
  cases e with
  | enter x =>
    obtain rfl := Option.some.inj hnext
    exact hrefl _
  | advance i d =>
    obtain ⟨t, ht, hmap⟩ := Option.bind_eq_some_iff.mp hnext
    obtain ⟨⟨g', next⟩, hadvance, rfl⟩ := Option.map_eq_some_iff.mp hmap
    obtain ⟨_, K, hK, _, hsafe⟩ := hc.calls t (List.mem_of_getElem? ht)
    obtain ⟨holds, prog⟩ := t
    cases prog with
    | ret a =>
      obtain ⟨rfl, _⟩ := Prod.mk.inj (Option.some.inj hadvance)
      exact hrefl _
    | lock p =>
      obtain ⟨_, heq⟩ := Option.ite_none_left_eq_some.mp hadvance
      obtain ⟨rfl, _⟩ := Prod.mk.inj (Option.some.inj heq)
      exact hrefl _
    | unlock p =>
      obtain ⟨rfl, _⟩ := Prod.mk.inj (Option.some.inj hadvance)
      exact hrefl _
    | act st p =>
      obtain ⟨rfl, _⟩ := Prod.mk.inj (Option.some.inj hadvance)
      exact hmay holds _ _ hc.shared (hsafe c.shared.state d hc.shared hK).2.1
  | drop i =>
    obtain ⟨t, _, rfl⟩ := Option.map_eq_some_iff.mp hnext
    show R _ (if t.holds = true then _ else _ : Shared σ).state
    split_ifs <;> exact hrefl _
  | restart =>
    obtain rfl := Option.some.inj hnext
    exact hrestart _ hc.shared

end Runs

end Guarded
