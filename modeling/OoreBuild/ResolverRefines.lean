import OoreBuild.PlainResolver

/-!
# The resolver and plain substitution

Whatever one resolver has resolved before (`Reached`), what it resolves a text to is what plain
substitution makes of it; it never runs out of the vars it may still go into; and it reports a
cycle exactly when one is met before anything else goes wrong (`resolve_refines`).

The vars it keeps are the invariant: each holds its expansion, and the vars it needs are kept, too
(`Settled`). No resolution breaks this, whatever chain it starts with (`resolveInner_settled`).
-/

namespace OoreBuild

open Text

/-! ## Scopes in the cache -/

/-- The scope part of a cache entry: a flavor is told apart by where its text lives. -/
def FlavorScope.cacheKey : FlavorScope → ℕ × ℕ × ℕ
  | .value place flavor => (0, place, byteLen flavor)
  | .noFlavors => (1, 0, 0)
  | .outside => (2, 0, 0)

/-- Where a text that lives at one place stays the same, these keys tell scopes apart. -/
theorem cacheKey_inj {a b : FlavorScope}
    (hstable : ∀ place flavor other, a = .value place flavor → b = .value place other →
      byteLen flavor = byteLen other → flavor = other) : a.cacheKey = b.cacheKey ↔ a = b := by
  constructor
  · intro h
    cases a with
    | value place flavor =>
      cases b with
      | value place' other =>
        simp only [FlavorScope.cacheKey, Prod.mk.injEq, true_and] at h
        obtain ⟨rfl, hlength⟩ := h
        rw [hstable place flavor other rfl rfl hlength]
      | noFlavors => simp [FlavorScope.cacheKey] at h
      | outside => simp [FlavorScope.cacheKey] at h
    | noFlavors => cases b <;> simp [FlavorScope.cacheKey] at h ⊢
    | outside => cases b <;> simp [FlavorScope.cacheKey] at h ⊢
  · rintro rfl
    rfl

/-! ## Termination -/

/-- The resolver with anything done where it would go deeper than `fuel` allows. -/
def resolveWithin (vars : List (Text × Text)) (deeper : Place → Text → Run Work Text Text) :
    ℕ → Place → Text → Run Work Text Text
  | 0, place, text => deeper place text
  | fuel + 1, place, text =>
    expandText place (expandVar vars place (resolveWithin vars deeper fuel)) text

variable {vars : List (Text × Text)}

/-- The resolver never goes deeper than there are vars that are not in its chain. -/
theorem resolveWithin_eq (deeper : Place → Text → Run Work Text Text) {fuel fuel' : ℕ}
    {place : Place} (henough : Enough vars fuel place.chain)
    (henough' : Enough vars fuel' place.chain) (text : Text) :
    resolveWithin vars deeper fuel place text = resolveInner vars fuel' place text := by
  induction fuel generalizing fuel' place text with
  | zero => exact absurd henough (Nat.not_lt_zero _)
  | succ fuel ih =>
    obtain ⟨fuel', rfl⟩ : ∃ n, fuel' = n + 1 := ⟨fuel' - 1, by unfold Enough at henough'; omega⟩
    have hvar : expandVar vars place (resolveWithin vars deeper fuel) =
        expandVar vars place (resolveInner vars fuel') := by
      funext name s
      cases hlookup : place.lookup vars name with
      | error error => rw [expandVar_of_error hlookup, expandVar_of_error hlookup]
      | ok value =>
        obtain ⟨hfresh, hvalue⟩ := lookup_eq_ok hlookup
        unfold expandVar
        rw [Run.bind_of_ok (ofExcept_of_ok hlookup), Run.bind_of_ok (ofExcept_of_ok hlookup),
          ih (henough.into hfresh hvalue) (henough'.into hfresh hvalue) value]
    rw [resolveWithin, resolveInner, hvar]

theorem enough_of_lt {fuel : ℕ} (h : vars.length < fuel) : Enough vars fuel [] :=
  Nat.lt_of_lt_of_le enough_nil h

/-! ## What one var does to the work -/

/-- The ways a var can go. -/
theorem expandVar_cases (place : Place) (resolveValue : Place → Text → Run Work Text Text)
    (name : Text) (s : Work) :
    (∃ error, expandVar vars place resolveValue name s = (.error error, s)) ∨
    (∃ error, expandVar vars place resolveValue name s = (.error error, s.spend)) ∨
    (∃ value resolved, place.lookup vars name = .ok value ∧
      s.cache.lookup (name, place.scope) = some resolved ∧
      expandVar vars place resolveValue name s = countBytes place.path resolved s.spend) ∨
    (∃ value error s', place.lookup vars name = .ok value ∧
      resolveValue (place.into name) value s.spend = (.error error, s') ∧
      expandVar vars place resolveValue name s = (.error error, s')) ∨
    ∃ value resolved s', place.lookup vars name = .ok value ∧
      s.cache.lookup (name, place.scope) = none ∧
      resolveValue (place.into name) value s.spend = (.ok resolved, s') ∧
      expandVar vars place resolveValue name s =
        countBytes place.path resolved (s'.remember (name, place.scope) resolved) := by
  cases hlookup : place.lookup vars name with
  | error error => exact .inl ⟨error, expandVar_of_error hlookup⟩
  | ok value =>
    rcases Nat.lt_or_ge maxVarExpansions s.spend.budget.expansions with hlimit | hunder
    · exact .inr (.inl ⟨_, expandVar_of_limit hlookup hlimit⟩)
    · cases hcached : s.cache.lookup (name, place.scope) with
      | some resolved =>
        exact .inr (.inr (.inl ⟨value, resolved, rfl, rfl,
          expandVar_of_hit hlookup hunder hcached⟩))
      | none =>
        rcases hinner : resolveValue (place.into name) value s.spend with ⟨result, s'⟩
        cases result with
        | error error =>
          exact .inr (.inr (.inr (.inl ⟨value, error, s', rfl, hinner,
            expandVar_of_inner_error hlookup hunder hcached hinner⟩)))
        | ok resolved =>
          exact .inr (.inr (.inr (.inr ⟨value, resolved, s', rfl, rfl, hinner,
            expandVar_of_miss hlookup hunder hcached hinner⟩)))

theorem countBytes_snd (path resolved : Text) (s : Work) :
    (countBytes path resolved s).2 = s.charge resolved :=
  rfl

theorem countBytes_eq_ok {path resolved out : Text} {s s' : Work}
    (h : countBytes path resolved s = (.ok out, s')) : out = resolved ∧ s' = s.charge resolved := by
  unfold countBytes at h
  obtain ⟨hresult, rfl⟩ := Prod.mk.inj h
  split at hresult
  · cases hresult
  · cases hresult
    exact ⟨rfl, rfl⟩

theorem Settled.spend {scope : FlavorScope} {s : Work} (h : Settled vars scope s) :
    Settled vars scope s.spend := h

theorem Settled.charge {scope : FlavorScope} {s : Work} (h : Settled vars scope s)
    (resolved : Text) : Settled vars scope (s.charge resolved) := h

/-- A var of the chain is not remembered. -/
theorem resolveInner_avoids (vars : List (Text × Text)) (fuel : ℕ) (place : Place) (text : Text)
    {earlier : Text} (hearlier : earlier ∈ place.chain) :
    Run.Moves (Run.Reflects fun s => (earlier, place.scope) ∈ s.keys)
      (resolveInner vars fuel place text) := by
  induction fuel generalizing place text with
  | zero => exact Run.moves_fail _
  | succ fuel ih =>
    refine expandText_moves (fun name => ?_) text
    intro s hkey
    rcases expandVar_cases place (resolveInner vars fuel) name s with ⟨error, h⟩ | ⟨error, h⟩ |
      ⟨value, resolved, -, -, h⟩ | ⟨value, error, s', -, hinner, h⟩ |
      ⟨value, resolved, s', hlookup, -, hinner, h⟩ <;> rw [h] at hkey
    · exact hkey
    · exact hkey
    · exact hkey
    · have hback := ih (place.into name) value (List.mem_append_left _ hearlier) s.spend
      rw [hinner] at hback
      exact hback hkey
    · have hback := ih (place.into name) value (List.mem_append_left _ hearlier) s.spend
      rw [hinner] at hback
      rw [countBytes_snd, keys_charge, keys_remember, Finset.mem_insert] at hkey
      rcases hkey with hsame | hkey
      · cases hsame
        exact absurd hearlier (lookup_eq_ok hlookup).1
      · exact hback hkey

/-! ## What is kept stays right -/

/-- Substitutions at places of one scope go together where their vars do. -/
theorem expandText_simulates {σ τ : Type} {R : σ → τ → Prop} {place place' : Place}
    {var : Text → Run σ Text Text} {var' : Text → Run τ Text Text}
    (hscope : place.scope = place'.scope)
    (hvar : ∀ name, Run.Simulates (fun _ => True) R Eq (var name) (var' name)) (text : Text) :
    Run.Simulates (fun _ => True) R Eq (expandText place var text)
      (expandText place' var' text) := by
  have hback : ∀ {α : Type} (x : Run σ Text α), Run.Moves (Run.Reflects fun _ => True) x :=
    fun x s _ => trivial
  have hfinish : ∀ tail out, Run.Simulates (fun _ => True) R Eq
      (finishText place text tail out : Run σ Text Text) (finishText place' text tail out) := by
    intro tail out
    unfold finishText
    split
    · intro s t a s' _ _ h
      cases h
    · exact Run.simulates_pure rfl
  have hpiece : ∀ piece, Run.Simulates (fun _ => True) R Eq (expandPiece place var piece)
      (expandPiece place' var' piece) := by
    intro piece
    unfold expandPiece
    cases piece.expression with
    | secret name => exact Run.simulates_pure rfl
    | flavor =>
      intro s t flavor s' _ hR h
      obtain ⟨hflavor, rfl⟩ := Prod.ext_iff.mp h
      exact ⟨flavor, t, Prod.ext (flavor_of_scope hscope hflavor) rfl, hR, rfl⟩
    | var name => exact hvar name
  have hpieces : ∀ pieces out, Run.Simulates (fun _ => True) R Eq
      (expandPieces place var text pieces out) (expandPieces place' var' text pieces out) := by
    intro pieces
    induction pieces with
    | nil => exact fun out => Run.simulates_pure rfl
    | cons piece rest ih =>
      intro out
      refine (hpiece piece).bind (fun added added' hadded => ?_) fun added => hback _
      subst hadded
      dsimp only
      split
      · intro s t a s' _ _ h
        cases h
      · exact ih _
  unfold expandText
  split
  · intro s t a s' _ _ h
    cases h
  · refine (hpieces _ _).bind (fun out out' hout => ?_) fun out => hback _
    subst hout
    exact hfinish _ out

/-- The work knows every var that the expansion has completed. -/
def Knows (vars : List (Text × Text)) (scope : FlavorScope) (s : Work) (t : Tally) : Prop :=
  Settled vars scope s ∧ t.keys ⊆ s.keys

/-- The place without its chain. -/
def Place.root (place : Place) : Place := { place with chain := [] }

/-- A value that is resolved inside a var is the expansion of this var, from an empty chain. -/
def KnowsAt (vars : List (Text × Text)) (fuel : ℕ) : Prop :=
  ∀ place text, Run.Moves (Run.Preserves (Settled vars place.scope))
      (resolveInner vars fuel place text) ∧
    Run.Simulates (fun _ => True) (Knows vars place.scope) Eq (resolveInner vars fuel place text)
      (walkInner vars (vars.length + 1) place.root text)

/-- A var that was resolved just now may be kept. -/
theorem settled_of_miss {fuel : ℕ} (ih : KnowsAt vars fuel) {place : Place} {s s' : Work}
    {name value resolved : Text} (hsettled : Settled vars place.scope s)
    (hlookup : place.lookup vars name = .ok value)
    (hcached : s.cache.lookup (name, place.scope) = none)
    (hinner : resolveInner vars fuel (place.into name) value s.spend = (.ok resolved, s')) :
    Settled vars place.scope (s'.remember (name, place.scope) resolved) ∧
      ∃ inner, walkInner vars vars.length (place.root.into name) value Tally.zero =
        (.ok resolved, inner) ∧ inner.keys ⊆ s'.keys := by
  obtain ⟨hfresh, hvalue⟩ := lookup_eq_ok hlookup
  obtain ⟨resolved', inner, hwalk, ⟨hsettled', hkeys⟩, heq⟩ :=
    (ih (place.into name) value).2 s.spend Tally.zero resolved s' trivial
      ⟨hsettled.spend, Finset.empty_subset _⟩ hinner
  subst heq
  have hnew : (name, place.scope) ∉ s'.keys := by
    intro hkey
    have hback := resolveInner_avoids vars fuel (place.into name) value
      (List.mem_append_right _ (List.mem_singleton_self name)) s.spend
    rw [hinner] at hback
    exact notMem_keys hcached (hback hkey)
  have hinto : walkInner vars vars.length (place.root.into name) value Tally.zero =
      (.ok resolved, inner) := by
    refine walkInner_transfers (place.into name).root (place.root.into name) value rfl
      (enough_nil.into List.not_mem_nil hvalue) Tally.zero resolved inner ?_ hwalk
    intro other hother hkey
    rw [List.mem_singleton.mp hother] at hkey
    exact hnew (hkeys hkey)
  refine ⟨?_, inner, hinto, hkeys⟩
  have hwhole := walkKey_of_walk hvalue hinto
  refine settled_remember hsettled' ?_ ?_
  · exact congrArg Prod.fst hwhole
  · have hsame : (walkKey vars (name, place.scope)).2 = inner := congrArg Prod.snd hwhole
    rw [hsame]
    exact hkeys

/-- What is kept stays right, and what is resolved is the expansion from an empty chain. -/
theorem resolveInner_knows (fuel : ℕ) : KnowsAt vars fuel := by
  induction fuel with
  | zero => exact fun place text => ⟨Run.moves_fail _, fun s t a s' _ _ h => by cases h⟩
  | succ fuel ih =>
    refine fun place text => ⟨expandText_moves (fun name => ?_) text,
      expandText_simulates (show place.scope = place.root.scope from rfl) (fun name => ?_) text⟩
    · intro s hsettled
      rcases expandVar_cases place (resolveInner vars fuel) name s with ⟨error, h⟩ | ⟨error, h⟩ |
        ⟨value, resolved, -, -, h⟩ | ⟨value, error, s', -, hinner, h⟩ |
        ⟨value, resolved, s', hlookup, hcached, hinner, h⟩ <;> rw [h]
      · exact hsettled
      · exact hsettled.spend
      · exact hsettled.spend.charge resolved
      · have hkept := (ih (place.into name) value).1 s.spend hsettled.spend
        rw [hinner] at hkept
        exact hkept
      · exact (settled_of_miss ih hsettled hlookup hcached hinner).1.charge resolved
    · intro s t out s' _ hknows h
      obtain ⟨hsettled, hkeys⟩ := hknows
      rcases expandVar_cases place (resolveInner vars fuel) name s with ⟨error, h'⟩ | ⟨error, h'⟩ |
        ⟨value, resolved, hlookup, hcached, h'⟩ | ⟨value, error, s'', -, hinner, h'⟩ |
        ⟨value, resolved, s'', hlookup, hcached, hinner, h'⟩ <;> rw [h'] at h
      · cases h
      · cases h
      · obtain ⟨rfl, rfl⟩ := countBytes_eq_ok h
        have hroot : place.root.lookup vars name = .ok value :=
          lookup_of_notMem List.not_mem_nil (lookup_eq_ok hlookup).2
        have hwalk : walkInner vars vars.length (place.root.into name) value Tally.zero =
            (.ok out, (walkKey vars (name, place.root.scope)).2) :=
          walk_of_settled hsettled nofun enough_nil hroot hcached
        refine ⟨out, _, walkVar_of_ok hroot hwalk, ⟨hsettled.spend.charge out, ?_⟩, rfl⟩
        refine Finset.insert_subset (mem_keys hcached) (Finset.union_subset hkeys ?_)
        exact (hsettled name out hcached).2
      · cases h
      · obtain ⟨rfl, rfl⟩ := countBytes_eq_ok h
        have hroot : place.root.lookup vars name = .ok value :=
          lookup_of_notMem List.not_mem_nil (lookup_eq_ok hlookup).2
        obtain ⟨hsettled', inner, hwalk, hinnerKeys⟩ :=
          settled_of_miss ih hsettled hlookup hcached hinner
        refine ⟨out, _, walkVar_of_ok hroot hwalk, ⟨hsettled'.charge out, ?_⟩, rfl⟩
        rw [keys_charge, keys_remember]
        refine Finset.insert_subset_insert _ (Finset.union_subset ?_ hinnerKeys)
        have hframe := resolveInner_frame vars fuel (place.into name) value s.spend
        rw [hinner] at hframe
        exact hkeys.trans hframe.keys

/-- No resolution breaks what is kept, in any scope. -/
theorem resolveInner_settled {scope : FlavorScope} {s : Work} (fuel : ℕ) (place : Place)
    (text : Text) (h : Settled vars scope s) :
    Settled vars scope (resolveInner vars fuel place text s).2 := by
  by_cases hscope : scope = place.scope
  · subst hscope
    exact (resolveInner_knows fuel place text).1 s h
  · exact h.of_frame (resolveInner_frame vars fuel place text s) hscope

/-! ## A resolver and its file -/

/-- The work of one resolver after any resolutions, while the other resolvers of the file spend
from the same budget. -/
inductive Reached (vars : List (Text × Text)) : Work → Prop
  | fresh (budget : Budget) : Reached vars ⟨budget, []⟩
  | resolved {s : Work} (earlier : Reached vars s) (text : Text) (scope : FlavorScope)
      (path : Text) (chain : List Text) : Reached vars (resolveFrom vars text scope path chain s).2
  | shared {s : Work} (earlier : Reached vars s) (budget : Budget) :
      Reached vars { s with budget := budget }

theorem Reached.settled {s : Work} (h : Reached vars s) (scope : FlavorScope) :
    Settled vars scope s := by
  induction h with
  | fresh budget =>
    intro name resolved hlookup
    cases hlookup
  | resolved _ text scope' path chain ih => exact resolveInner_settled _ _ _ ih
  | shared _ budget ih => exact ih

/-- The resolution ended with the message of a cycle. -/
def ReportsCycle (result : Except Text Text) : Prop :=
  ∃ error, result = .error error ∧ IsCycleError error

/-- What the expansion has come to is within the limits of the file, where the vars that are
resolved cost nothing more. -/
structure Affords (vars : List (Text × Text)) (s : Work) (t : Tally) : Prop where
  expansions : 0 < t.visits →
    s.budget.expansions + t.expansions vars s.keys ≤ maxVarExpansions
  bytes : t.keys.Nonempty → s.budget.bytes + t.added vars s.keys ≤ maxTotalExpandedBytes

section

variable {s : Work} {text path : Text} {scope : FlavorScope}

/-- What is resolved is what plain substitution gives. -/
theorem substitute_of_resolve (h : Reached vars s) {out : Text} {s' : Work}
    (hok : resolve vars text scope path s = (.ok out, s')) :
    ∃ depth, ∀ depth' ≥ depth, substitute vars scope.text depth' text = some out := by
  rcases resolve_agrees text path (h.settled scope) with ⟨heq, -⟩ | ⟨error, herror, -⟩
  · rw [hok, walk_eq_plain] at heq
    have hplain : plainInner vars (vars.length + 1) ⟨scope, path, 0, []⟩ text () = (.ok out, ()) :=
      Prod.ext heq.symm rfl
    have hfits := fitted_of_plainInner hplain
    exact ⟨_, fun depth' hle => substitute_mono hle (substitute_of_fitted hfits)⟩
  · rw [hok] at herror
    cases herror

/-- A cycle is reported when one is met within the limits, and only then. -/
theorem reportsCycle_iff (h : Reached vars s) :
    ReportsCycle (resolve vars text scope path s).1 ↔
      MeetsCycle vars scope.text [] text ∧ Affords vars s (walk vars text scope path).2 := by
  have hwalk : ReportsCycle (walk vars text scope path).1 ↔ MeetsCycle vars scope.text [] text := by
    rw [walk_eq_plain]
    exact plainInner_cycle_iff text path scope
  constructor
  · rintro ⟨error, herror, hcycle⟩
    rcases resolve_agrees text path (h.settled scope) with ⟨heq, htracks⟩ |
      ⟨error', herror', hstops⟩
    · refine ⟨hwalk.mp ⟨error, heq.symm.trans herror, hcycle⟩, fun hvisits => ?_, fun hkeys => ?_⟩
      · rw [← htracks.expansions]
        exact htracks.underExpansions hvisits
      · rw [← htracks.bytes]
        exact htracks.underBytes hkeys
    · rw [herror] at herror'
      cases herror'
      have hlimit := hstops.limit
      rw [not_limit_of_isCycleError hcycle] at hlimit
      cases hlimit
  · rintro ⟨hmeets, haffords⟩
    obtain ⟨error, herror, hcycle⟩ := hwalk.mpr hmeets
    rcases resolve_agrees text path (h.settled scope) with ⟨heq, -⟩ | ⟨error', -, hstops⟩
    · exact ⟨error, heq.trans herror, hcycle⟩
    · rcases hstops.passes with hpasses | ⟨hkeys, hpasses⟩
      · exact absurd (haffords.expansions hstops.visited) (Nat.not_le.mpr hpasses)
      · exact absurd (haffords.bytes hkeys) (Nat.not_le.mpr hpasses)

end

/-- Whatever a resolver has resolved before, it gives what plain substitution gives, its recursion
ends, and it reports a cycle exactly when one is met before any other error. -/
theorem resolve_refines {s : Work} (h : Reached vars s) (text path : Text) (scope : FlavorScope) :
    (∀ out s', resolve vars text scope path s = (.ok out, s') →
      ∃ depth, ∀ depth' ≥ depth, substitute vars scope.text depth' text = some out) ∧
    (∀ deeper fuel, vars.length < fuel →
      resolveWithin vars deeper fuel ⟨scope, path, 0, []⟩ text s =
        resolve vars text scope path s) ∧
    (ReportsCycle (resolve vars text scope path s).1 ↔
      MeetsCycle vars scope.text [] text ∧ Affords vars s (walk vars text scope path).2) := by
  refine ⟨fun out s' hok => substitute_of_resolve h hok, fun deeper fuel hlt => ?_,
    reportsCycle_iff h⟩
  rw [resolve, resolveFrom, resolveWithin_eq deeper (enough_of_lt hlt) enough_nil]
  rfl

/-- Two vars that refer to each other, and one that stands for itself. -/
def ringVars : List (Text × Text) :=
  [("a", "$\x7b\x7b vars.b \x7d\x7d"), ("b", "$\x7b\x7b vars.a \x7d\x7d"), ("c", "x")]

/-- A resolver that has resolved a var before comes to a cycle behind it. -/
theorem resolve_refines_ring :
    ReportsCycle (resolve ringVars "$\x7b\x7b vars.c \x7d\x7d$\x7b\x7b vars.a \x7d\x7d" .outside
      "env" (resolveFrom ringVars "$\x7b\x7b vars.c \x7d\x7d" .outside "env" [] ⟨⟨0, 0⟩, []⟩).2).1 ↔
    MeetsCycle ringVars none [] "$\x7b\x7b vars.c \x7d\x7d$\x7b\x7b vars.a \x7d\x7d" ∧
    Affords ringVars
      (resolveFrom ringVars "$\x7b\x7b vars.c \x7d\x7d" .outside "env" [] ⟨⟨0, 0⟩, []⟩).2
      (walk ringVars "$\x7b\x7b vars.c \x7d\x7d$\x7b\x7b vars.a \x7d\x7d" .outside "env").2 :=
  (resolve_refines (.resolved (.fresh ⟨0, 0⟩) "$\x7b\x7b vars.c \x7d\x7d" .outside "env" [])
    "$\x7b\x7b vars.c \x7d\x7d$\x7b\x7b vars.a \x7d\x7d" "env" .outside).2.2

/-- A cycle behind a flavor that is not available here is not reported, although no var is
undefined and no limit is near. -/
theorem flavor_hides_cycle : ¬ ∀ vars s, Reached vars s → ∀ text path scope,
    ReportsCycle (resolve vars text scope path s).1 ↔
      MeetsCycle vars (some (scope.text.getD [])) [] text ∧
      Affords vars s (walk vars text scope path).2 := by
  intro h
  have hreports := (h [("a", "$\x7b\x7b vars.a \x7d\x7d")] ⟨⟨0, 0⟩, []⟩ (.fresh _)
    "$\x7b\x7b flavor \x7d\x7d$\x7b\x7b vars.a \x7d\x7d" "env" .outside).mpr ⟨?_, ?_⟩
  · obtain ⟨error, herror, hcycle⟩ := hreports
    have hflavor : (⟨.outside, "env", 0, []⟩ : Place).flavor = .error error := herror
    exact not_isCycleError_flavor hflavor hcycle
  · refine .into ⟨[⟨[], "$\x7b\x7b flavor \x7d\x7d", .flavor⟩,
      ⟨[], "$\x7b\x7b vars.a \x7d\x7d", .var "a"⟩], [],
      [⟨[], "$\x7b\x7b flavor \x7d\x7d", .flavor⟩],
      ⟨[], "$\x7b\x7b vars.a \x7d\x7d", .var "a"⟩, [], 1, [], ?_, rfl, rfl, rfl, by decide⟩
      List.not_mem_nil rfl ?_
    · decide +kernel
    · refine .back ⟨[⟨[], "$\x7b\x7b vars.a \x7d\x7d", .var "a"⟩], [], [],
        ⟨[], "$\x7b\x7b vars.a \x7d\x7d", .var "a"⟩, [], 0, [], ?_, rfl, rfl, rfl, by decide⟩
        (List.mem_singleton_self _)
      decide +kernel
  · have hwalk : (walk [("a", "$\x7b\x7b vars.a \x7d\x7d")]
        "$\x7b\x7b flavor \x7d\x7d$\x7b\x7b vars.a \x7d\x7d" .outside "env").2 = Tally.zero := rfl
    rw [hwalk]
    exact ⟨fun h => absurd h (by decide), fun h => absurd h Finset.not_nonempty_empty⟩

end OoreBuild
