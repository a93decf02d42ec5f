import Mathlib.Data.List.Basic

/-!
# Computations that fail and keep their state

A computation takes a state and returns a value or an error together with the state it left,
also when it failed. Two computations of one program over different states are compared by
`Agree`: they end alike in related states, or the first one has failed for a reason of its own.
-/

/-- A computation over a state that it keeps when it fails. -/
def Run (σ ε α : Type) : Type := σ → Except ε α × σ

namespace Run

variable {σ τ ε δ α β : Type}

instance : Monad (Run σ ε) where
  pure a := fun s => (.ok a, s)
  bind x f := fun s =>
    match x s with
    | (.ok a, s') => f a s'
    | (.error e, s') => (.error e, s')

def fail (e : ε) : Run σ ε α := fun s => (.error e, s)

/-- Read the state. -/
def read (f : σ → α) : Run σ ε α := fun s => (.ok (f s), s)

/-- Change the state. -/
def update (f : σ → σ) : Run σ ε Unit := fun s => (.ok (), f s)

/-- Run the computation and go on with what it came to, a failure too. -/
def attempt (x : Run σ δ α) : Run σ ε (Except δ α) := fun s => (.ok (x s).1, (x s).2)

/-- The computation for every element in order, collecting the values. -/
def forEach (f : α → Run σ ε β) : List α → Run σ ε (List β)
  | [] => pure []
  | a :: rest => do
    let b ← f a
    let bs ← forEach f rest
    return b :: bs

/-- The computation for every element in order, each from the value before it. -/
def foldEach (f : β → α → Run σ ε β) : β → List α → Run σ ε β
  | b, [] => pure b
  | b, a :: rest => do
    let b ← f b a
    foldEach f b rest

@[simp] theorem pure_apply (a : α) (s : σ) : (pure a : Run σ ε α) s = (.ok a, s) := rfl

@[simp] theorem read_apply (f : σ → α) (s : σ) : (read f : Run σ ε α) s = (.ok (f s), s) := rfl

@[simp] theorem update_apply (f : σ → σ) (s : σ) :
    (update f : Run σ ε Unit) s = (.ok (), f s) := rfl

theorem bind_of_ok {x : Run σ ε α} {f : α → Run σ ε β} {s s' : σ} {a : α}
    (h : x s = (.ok a, s')) : (x >>= f) s = f a s' := by
  change (match x s with
    | (.ok a, s') => f a s'
    | (.error e, s') => (.error e, s')) = _
  rw [h]

theorem bind_of_error {x : Run σ ε α} {f : α → Run σ ε β} {s s' : σ} {e : ε}
    (h : x s = (.error e, s')) : (x >>= f) s = (.error e, s') := by
  change (match x s with
    | (.ok a, s') => f a s'
    | (.error e, s') => (.error e, s')) = _
  rw [h]

/-- A sequence succeeds when both parts do. -/
theorem bind_eq_ok_iff {x : Run σ ε α} {f : α → Run σ ε β} {s s' : σ} {b : β} :
    (x >>= f) s = (.ok b, s') ↔ ∃ a s₁, x s = (.ok a, s₁) ∧ f a s₁ = (.ok b, s') := by
  rcases hx : x s with ⟨r, s₁⟩
  cases r with
  | ok a =>
    rw [bind_of_ok hx]
    constructor
    · exact fun h => ⟨a, s₁, rfl, h⟩
    · rintro ⟨a', s₂, heq, h⟩
      cases heq
      exact h
  | error e =>
    rw [bind_of_error hx]
    constructor
    · nofun
    · rintro ⟨a', s₂, heq, -⟩
      cases heq

/-! ## States along a run -/

/-- The computation changes the state as `P` says, also where it fails. -/
def Moves (P : σ → σ → Prop) (x : Run σ ε α) : Prop := ∀ s, P s (x s).2

/-- The computation changes the state as `P` says where it succeeds. -/
def MovesOk (P : σ → σ → Prop) (x : Run σ ε α) : Prop := ∀ s a s', x s = (.ok a, s') → P s s'

section Moves

variable {P : σ → σ → Prop}

theorem Moves.movesOk {x : Run σ ε α} (h : Moves P x) : MovesOk P x := by
  intro s a s' hx
  have := h s
  rwa [hx] at this

theorem moves_pure [Std.Refl P] (a : α) : Moves P (pure a : Run σ ε α) :=
  fun s => Std.Refl.refl s

theorem moves_fail [Std.Refl P] (e : ε) : Moves P (fail e : Run σ ε α) :=
  fun s => Std.Refl.refl s

theorem Moves.bind [IsTrans σ P] {x : Run σ ε α} {f : α → Run σ ε β} (hx : Moves P x)
    (hf : ∀ a, Moves P (f a)) : Moves P (x >>= f) := by
  intro s
  have hs := hx s
  rcases h : x s with ⟨r, s'⟩
  rw [h] at hs
  cases r with
  | ok a =>
    rw [bind_of_ok h]
    exact Trans.trans hs (hf a s')
  | error e =>
    rw [bind_of_error h]
    exact hs

theorem movesOk_fail (e : ε) : MovesOk P (fail e : Run σ ε α) := by
  intro s a s' h
  cases h

theorem MovesOk.bind [IsTrans σ P] {x : Run σ ε α} {f : α → Run σ ε β} (hx : MovesOk P x)
    (hf : ∀ a, MovesOk P (f a)) : MovesOk P (x >>= f) := by
  intro s b s' h
  obtain ⟨a, s₁, h₁, h₂⟩ := bind_eq_ok_iff.mp h
  exact Trans.trans (hx s a s₁ h₁) (hf a s₁ b s' h₂)

end Moves

/-- A change of the state that keeps `Q`. -/
def Preserves (Q : σ → Prop) (s s' : σ) : Prop := Q s → Q s'

/-- A change of the state after which `Q` only holds where it did before. -/
def Reflects (Q : σ → Prop) (s s' : σ) : Prop := Q s' → Q s

instance (Q : σ → Prop) : Std.Refl (Preserves Q) := ⟨fun _ h => h⟩

instance (Q : σ → Prop) : IsTrans σ (Preserves Q) := ⟨fun _ _ _ h h' hQ => h' (h hQ)⟩

instance (Q : σ → Prop) : Std.Refl (Reflects Q) := ⟨fun _ h => h⟩

instance (Q : σ → Prop) : IsTrans σ (Reflects Q) := ⟨fun _ _ _ h h' hQ => h (h' hQ)⟩

/-! ## Agreement -/

/-- What two runs come to: they end alike in related states, or the first has failed for a reason
of its own. -/
def Agree (I : σ → τ → Prop) (Own : ε → σ → τ → Prop) (x : Except ε α × σ) (y : Except ε α × τ) :
    Prop :=
  (x.1 = y.1 ∧ I x.2 y.2) ∨ ∃ e, x.1 = .error e ∧ Own e x.2 y.2

/-- The computations agree from related states. -/
def Agrees (I : σ → τ → Prop) (Own : ε → σ → τ → Prop) (x : Run σ ε α) (y : Run τ ε α) : Prop :=
  ∀ s t, I s t → Agree I Own (x s) (y t)

/-- A failure of its own stays one along this change of the second state. -/
def Kept (Own : ε → σ → τ → Prop) (t t' : τ) : Prop := ∀ e s, Own e s t → Own e s t'

section Agrees

variable {I : σ → τ → Prop} {Own : ε → σ → τ → Prop}

instance : Std.Refl (Kept Own) := ⟨fun _ _ _ h => h⟩

instance : IsTrans τ (Kept Own) := ⟨fun _ _ _ h h' e s hO => h' e s (h e s hO)⟩

theorem agrees_pure (a : α) : Agrees I Own (pure a) (pure a) := fun _ _ h => .inl ⟨rfl, h⟩

theorem agrees_fail (e : ε) : Agrees I Own (fail e : Run σ ε α) (fail e) :=
  fun _ _ h => .inl ⟨rfl, h⟩

/-- Sequences agree where their parts do, if a failure of its own stays one while the second
computation goes on. -/
theorem Agrees.bind {x : Run σ ε α} {y : Run τ ε α} {f : α → Run σ ε β} {g : α → Run τ ε β}
    (hxy : Agrees I Own x y) (hfg : ∀ a, Agrees I Own (f a) (g a))
    (hkept : ∀ a, Moves (Kept Own) (g a)) : Agrees I Own (x >>= f) (y >>= g) := by
  intro s t h
  have hagree := hxy s t h
  rcases hx : x s with ⟨r, s'⟩
  rcases hy : y t with ⟨q, t'⟩
  rw [hx, hy] at hagree
  rcases hagree with ⟨hr, hI⟩ | ⟨e, hr, hO⟩
  · change r = q at hr
    subst hr
    cases r with
    | ok a =>
      rw [bind_of_ok hx, bind_of_ok hy]
      exact hfg a s' t' hI
    | error e =>
      rw [bind_of_error hx, bind_of_error hy]
      exact .inl ⟨rfl, hI⟩
  · change r = .error e at hr
    subst hr
    rw [bind_of_error hx]
    refine .inr ⟨e, rfl, ?_⟩
    cases q with
    | ok a =>
      rw [bind_of_ok hy]
      exact hkept a t' e s' hO
    | error e' =>
      rw [bind_of_error hy]
      exact hO

end Agrees

/-! ## Success from one computation to another -/

/-- Where the first computation succeeds in a state that satisfies `Q`, so does the second, in the
same way. -/
def Transfers (Q : σ → Prop) (x y : Run σ ε α) : Prop :=
  ∀ s a s', Q s' → x s = (.ok a, s') → y s = (.ok a, s')

section Transfers

variable {Q : σ → Prop}

theorem transfers_refl (x : Run σ ε α) : Transfers Q x x := fun _ _ _ _ h => h

theorem transfers_fail (e : ε) (y : Run σ ε α) : Transfers Q (fail e) y := by
  intro s a s' _ h
  cases h

theorem Transfers.bind {x y : Run σ ε α} {f g : α → Run σ ε β} (hxy : Transfers Q x y)
    (hfg : ∀ a, Transfers Q (f a) (g a)) (hback : ∀ a, MovesOk (Reflects Q) (f a)) :
    Transfers Q (x >>= f) (y >>= g) := by
  intro s b s' hQ h
  obtain ⟨a, s₁, h₁, h₂⟩ := bind_eq_ok_iff.mp h
  rw [bind_of_ok (hxy s a s₁ (hback a s₁ b s' h₂ hQ) h₁)]
  exact hfg a s₁ b s' hQ h₂

end Transfers

/-! ## Loops -/

section Loops

variable {P : σ → σ → Prop} [Std.Refl P] [IsTrans σ P]

theorem forEach_moves {f : α → Run σ ε β} (hf : ∀ a, Moves P (f a)) (l : List α) :
    Moves P (forEach f l) := by
  induction l with
  | nil => exact moves_pure _
  | cons a rest ih => exact (hf a).bind fun b => ih.bind fun bs => moves_pure _

theorem foldEach_moves {f : β → α → Run σ ε β} (hf : ∀ b a, Moves P (f b a)) (l : List α) (b : β) :
    Moves P (foldEach f b l) := by
  induction l generalizing b with
  | nil => exact moves_pure _
  | cons a rest ih => exact (hf b a).bind fun b => ih b

omit [Std.Refl P] [IsTrans σ P] in
theorem foldEach_of_ok {f : β → α → Run σ ε β} {b b' : β} {a : α} {rest : List α} {s s' : σ}
    (h : f b a s = (.ok b', s')) : foldEach f b (a :: rest) s = foldEach f b' rest s' :=
  bind_of_ok h

omit [Std.Refl P] [IsTrans σ P] in
theorem foldEach_append (f : β → α → Run σ ε β) (b : β) (l l' : List α) :
    foldEach f b (l ++ l') = foldEach f b l >>= fun b => foldEach f b l' := by
  induction l generalizing b with
  | nil => rfl
  | cons a rest ih =>
    funext s
    rw [List.cons_append]
    rcases h : f b a s with ⟨r, s'⟩
    cases r with
    | ok b' =>
      have hleft : foldEach f b (a :: (rest ++ l')) s = foldEach f b' (rest ++ l') s' :=
        bind_of_ok h
      have hright : (foldEach f b (a :: rest)) s = foldEach f b' rest s' := bind_of_ok h
      rw [hleft, ih]
      rcases h' : foldEach f b' rest s' with ⟨r, s''⟩
      rw [h'] at hright
      cases r with
      | ok b'' => rw [bind_of_ok h', bind_of_ok hright]
      | error e => rw [bind_of_error h', bind_of_error hright]
    | error e =>
      have hleft : foldEach f b (a :: (rest ++ l')) s = (.error e, s') := bind_of_error h
      have hright : foldEach f b (a :: rest) s = (.error e, s') := bind_of_error h
      rw [hleft, bind_of_error hright]

end Loops

/-! ## Errors -/

/-- Every error of the computation satisfies `P`. -/
def FailsWith (P : ε → Prop) (x : Run σ ε α) : Prop := ∀ s e s', x s = (.error e, s') → P e

section FailsWith

variable {P : ε → Prop}

theorem failsWith_pure (a : α) : FailsWith P (pure a : Run σ ε α) := by
  intro s e s' h
  cases h

theorem failsWith_fail {e : ε} (h : P e) : FailsWith P (fail e : Run σ ε α) := by
  intro s e' s' h'
  cases h'
  exact h

theorem FailsWith.bind {x : Run σ ε α} {f : α → Run σ ε β} (hx : FailsWith P x)
    (hf : ∀ a, FailsWith P (f a)) : FailsWith P (x >>= f) := by
  intro s e s' h
  rcases hxs : x s with ⟨r, s₁⟩
  cases r with
  | ok a =>
    rw [bind_of_ok hxs] at h
    exact hf a s₁ e s' h
  | error e' =>
    rw [bind_of_error hxs] at h
    cases h
    exact hx s e s' hxs

theorem forEach_failsWith {f : α → Run σ ε β} (hf : ∀ a, FailsWith P (f a)) (l : List α) :
    FailsWith P (forEach f l) := by
  induction l with
  | nil => exact failsWith_pure _
  | cons a rest ih => exact (hf a).bind fun b => ih.bind fun bs => failsWith_pure _

theorem foldEach_failsWith {f : β → α → Run σ ε β} (hf : ∀ b a, FailsWith P (f b a)) (l : List α)
    (b : β) : FailsWith P (foldEach f b l) := by
  induction l generalizing b with
  | nil => exact failsWith_pure _
  | cons a rest ih => exact (hf b a).bind fun b => ih b

end FailsWith

/-! ## Simulation

The second computation does what the first does, or a part of it: where the first succeeds in a
state that satisfies `Q`, the second succeeds, too.
-/

/-- The second computation succeeds where the first does, from and in related states. -/
def Simulates (Q : σ → Prop) (R : σ → τ → Prop) (V : α → β → Prop) (x : Run σ ε α)
    (y : Run τ δ β) : Prop :=
  ∀ s t a s', Q s' → R s t → x s = (.ok a, s') → ∃ b t', y t = (.ok b, t') ∧ R s' t' ∧ V a b

/-- The second state stays related while only the first computation runs. -/
def Passes (Q : σ → Prop) (R : σ → τ → Prop) (x : Run σ ε α) : Prop :=
  ∀ s t a s', Q s' → R s t → x s = (.ok a, s') → R s' t

section Simulates

variable {γ ω : Type} {Q : σ → Prop} {R : σ → τ → Prop} {V : α → β → Prop} {W : γ → ω → Prop}

theorem simulates_pure {a : α} {b : β} (h : V a b) :
    Simulates Q R V (pure a : Run σ ε α) (pure b : Run τ δ β) := by
  intro s t a' s' _ hR heq
  cases heq
  exact ⟨b, t, rfl, hR, h⟩

theorem Simulates.bind {x : Run σ ε α} {y : Run τ δ β} {f : α → Run σ ε γ} {g : β → Run τ δ ω}
    (hxy : Simulates Q R V x y) (hfg : ∀ a b, V a b → Simulates Q R W (f a) (g b))
    (hback : ∀ a, Moves (Reflects Q) (f a)) : Simulates Q R W (x >>= f) (y >>= g) := by
  intro s t c s' hQ hR h
  obtain ⟨a, s₁, h₁, h₂⟩ := bind_eq_ok_iff.mp h
  obtain ⟨b, t₁, hy, hR₁, hV⟩ := hxy s t a s₁ ((hback a).movesOk s₁ c s' h₂ hQ) hR h₁
  obtain ⟨d, t', hg, hR', hW⟩ := hfg a b hV s₁ t₁ c s' hQ hR₁ h₂
  exact ⟨d, t', (bind_of_ok hy).trans hg, hR', hW⟩

theorem passes_pure (a : α) : Passes Q R (pure a : Run σ ε α) := by
  intro s t a' s' _ hR heq
  cases heq
  exact hR

theorem Passes.bind {x : Run σ ε α} {f : α → Run σ ε β} (hx : Passes Q R x)
    (hf : ∀ a, Passes Q R (f a)) (hback : ∀ a, Moves (Reflects Q) (f a)) :
    Passes Q R (x >>= f) := by
  intro s t b s' hQ hR h
  obtain ⟨a, s₁, h₁, h₂⟩ := bind_eq_ok_iff.mp h
  exact hf a s₁ t b s' hQ (hx s t a s₁ ((hback a).movesOk s₁ b s' h₂ hQ) hR h₁) h₂

theorem forEach_passes {f : α → Run σ ε β} {l : List α} (hf : ∀ a ∈ l, Passes Q R (f a))
    (hback : ∀ a, Moves (Reflects Q) (f a)) : Passes Q R (forEach f l) := by
  induction l with
  | nil => exact passes_pure _
  | cons a rest ih =>
    have ih := ih fun a ha => hf a (List.mem_cons_of_mem _ ha)
    refine (hf a List.mem_cons_self).bind (fun b => ?_) fun b => ?_
    · exact ih.bind (fun bs => passes_pure _) fun bs => moves_pure _
    · exact (forEach_moves hback rest).bind fun bs => moves_pure _

theorem foldEach_passes {f : β → α → Run σ ε β} {l : List α}
    (hf : ∀ a ∈ l, ∀ b, Passes Q R (f b a)) (hback : ∀ b a, Moves (Reflects Q) (f b a)) (b : β) :
    Passes Q R (foldEach f b l) := by
  induction l generalizing b with
  | nil => exact passes_pure _
  | cons a rest ih =>
    exact (hf a List.mem_cons_self b).bind
      (fun b => ih (fun a ha => hf a (List.mem_cons_of_mem _ ha)) b)
      fun b => foldEach_moves hback rest b

/-- A loop over some of the elements, where the first runs over all of them. -/
theorem forEach_simulates {f : α → Run σ ε β} {g : α → Run τ δ β} {l : List α} (keep : α → Bool)
    (hkeep : ∀ a ∈ l, keep a = true → Simulates Q R Eq (f a) (g a))
    (hdrop : ∀ a ∈ l, keep a = false → Passes Q R (f a))
    (hback : ∀ a, Moves (Reflects Q) (f a)) :
    Simulates Q R (fun bs cs : List β => cs ⊆ bs) (forEach f l) (forEach g (l.filter keep)) := by
  induction l with
  | nil => exact simulates_pure (List.Subset.refl _)
  | cons a rest ih =>
    have ih := ih (fun a ha => hkeep a (List.mem_cons_of_mem _ ha))
      fun a ha => hdrop a (List.mem_cons_of_mem _ ha)
    have hrest : ∀ b, Moves (Reflects Q) (forEach f rest >>= fun bs => pure (b :: bs)) :=
      fun b => (forEach_moves hback rest).bind fun bs => moves_pure _
    cases h : keep a with
    | true =>
      rw [List.filter_cons_of_pos h]
      refine (hkeep a List.mem_cons_self h).bind (fun b c hV => ?_) hrest
      subst hV
      refine ih.bind (fun bs cs hsub => ?_) fun bs => moves_pure _
      exact simulates_pure (List.cons_subset_cons b hsub)
    | false =>
      rw [List.filter_cons_of_neg (by simp [h])]
      intro s t bs s' hQ hR hx
      obtain ⟨b, s₁, h₁, h₂⟩ := bind_eq_ok_iff.mp hx
      have hQ₁ := (hrest b).movesOk s₁ bs s' h₂ hQ
      have hR₁ := hdrop a List.mem_cons_self h s t b s₁ hQ₁ hR h₁
      obtain ⟨bs', s₂, h₃, h₄⟩ := bind_eq_ok_iff.mp h₂
      cases h₄
      obtain ⟨cs, t', hy, hR', hsub⟩ := ih s₁ t bs' s' hQ hR₁ h₃
      exact ⟨cs, t', hy, hR', List.subset_cons_of_subset b hsub⟩

/-- A loop over the same elements. -/
theorem forEach_simulates_self {f : α → Run σ ε β} {g : α → Run τ δ β} {l : List α}
    (h : ∀ a ∈ l, Simulates Q R Eq (f a) (g a)) (hback : ∀ a, Moves (Reflects Q) (f a)) :
    Simulates Q R Eq (forEach f l) (forEach g l) := by
  induction l with
  | nil => exact simulates_pure rfl
  | cons a rest ih =>
    refine (h a List.mem_cons_self).bind (fun b c hV => ?_) fun b =>
      (forEach_moves hback rest).bind fun bs => moves_pure _
    subst hV
    refine (ih fun a ha => h a (List.mem_cons_of_mem _ ha)).bind (fun bs cs hV => ?_)
      fun bs => moves_pure _
    subst hV
    exact simulates_pure rfl

/-- A fold over some of the elements, where the first runs over all of them. -/
theorem foldEach_simulates {f : β → α → Run σ ε β} {g : ω → α → Run τ δ ω} {V : β → ω → Prop}
    {l : List α} (keep : α → Bool)
    (hkeep : ∀ a ∈ l, keep a = true → ∀ b c, V b c → Simulates Q R V (f b a) (g c a))
    (hdrop : ∀ a ∈ l, keep a = false → ∀ b c, V b c → ∀ s t b' s', Q s' → R s t →
      f b a s = (.ok b', s') → R s' t ∧ V b' c)
    (hback : ∀ b a, Moves (Reflects Q) (f b a)) {b : β} {c : ω} (hV : V b c) :
    Simulates Q R V (foldEach f b l) (foldEach g c (l.filter keep)) := by
  induction l generalizing b c with
  | nil => exact simulates_pure hV
  | cons a rest ih =>
    have ih := @ih (fun a ha => hkeep a (List.mem_cons_of_mem _ ha))
      fun a ha => hdrop a (List.mem_cons_of_mem _ ha)
    cases h : keep a with
    | true =>
      rw [List.filter_cons_of_pos h]
      exact (hkeep a List.mem_cons_self h b c hV).bind (fun b c hV => ih hV)
        fun b => foldEach_moves hback rest b
    | false =>
      rw [List.filter_cons_of_neg (by simp [h])]
      intro s t b'' s' hQ hR hx
      obtain ⟨b', s₁, h₁, h₂⟩ := bind_eq_ok_iff.mp hx
      have hQ₁ := (foldEach_moves hback rest b').movesOk s₁ b'' s' h₂ hQ
      obtain ⟨hR₁, hV₁⟩ := hdrop a List.mem_cons_self h b c hV s t b' s₁ hQ₁ hR h₁
      exact ih hV₁ s₁ t b'' s' hQ hR₁ h₂

/-- A fold over the same elements. -/
theorem foldEach_simulates_self {f : β → α → Run σ ε β} {g : ω → α → Run τ δ ω}
    {V : β → ω → Prop} {l : List α}
    (h : ∀ a ∈ l, ∀ b c, V b c → Simulates Q R V (f b a) (g c a))
    (hback : ∀ b a, Moves (Reflects Q) (f b a)) {b : β} {c : ω} (hV : V b c) :
    Simulates Q R V (foldEach f b l) (foldEach g c l) := by
  have := foldEach_simulates (fun _ => true) (fun a ha _ => h a ha) (by simp) hback hV
  rwa [List.filter_true] at this

end Simulates

end Run
