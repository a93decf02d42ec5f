import Mathlib.Data.List.Basic

/-!
# Programs whose steps may fail or be the last

A program works on a state that outlives it, such as the files on a disk. Each of its steps takes
effect, fails, or takes effect and is the last before the process dies. `Triple` says what holds
where the program ends, where it fails and where it dies.
-/

namespace Crash

/-- What happens at a step. -/
inductive Fate where
  | succeeds
  | fails
  /-- The process dies after the step. -/
  | stops
  deriving DecidableEq

/-- How a program ends, with what happens at the steps that follow it. -/
inductive Outcome (σ α : Type) where
  | done (a : α) (s : σ) (fates : List Fate)
  | failed (s : σ) (fates : List Fate)
  | stopped (s : σ)

/-- What happens at each step is given; steps beyond the list succeed. -/
def Prog (σ α : Type) : Type := List Fate → σ → Outcome σ α

variable {σ α β : Type}

/-- The state that is left. -/
def Outcome.state : Outcome σ α → σ
  | done _ s _ => s
  | failed s _ => s
  | stopped s => s

def Outcome.isDone : Outcome σ α → Bool
  | done .. => true
  | _ => false

theorem Outcome.exists_of_isDone {o : Outcome σ α} (h : o.isDone = true) :
    ∃ a s rest, o = .done a s rest := by
  cases o with
  | done a s rest => exact ⟨a, s, rest, rfl⟩
  | failed s rest => cases h
  | stopped s => cases h

instance : Monad (Prog σ) where
  pure a := fun fates s => .done a s fates
  bind m f := fun fates s =>
    match m fates s with
    | .done a s' rest => f a rest s'
    | .failed s' rest => .failed s' rest
    | .stopped s' => .stopped s'

/-- A step; it fails where it is not possible. -/
def act (f : σ → Option σ) : Prog σ Unit := fun fates s =>
  match fates.headD .succeeds with
  | .fails => .failed s fates.tail
  | .stops => .stopped ((f s).getD s)
  | .succeeds =>
    match f s with
    | some s' => .done () s' fates.tail
    | none => .failed s fates.tail

/-- A step without an effect. -/
def check : Prog σ Unit := act some

/-- A step that fails unless the state meets a condition. -/
def ensure (p : σ → Bool) : Prog σ Unit := act fun s => if p s then some s else none

def get (f : σ → α) : Prog σ α := fun fates s => .done (f s) s fates

def fail : Prog σ α := fun fates s => .failed s fates

/-- The program, where the condition holds. -/
def when (b : Bool) (m : Prog σ Unit) : Prog σ Unit := if b then m else pure ()

/-- Go on where the program fails. -/
def attempt (m : Prog σ α) : Prog σ (Option α) := fun fates s =>
  match m fates s with
  | .done a s' rest => .done (some a) s' rest
  | .failed s' rest => .done none s' rest
  | .stopped s' => .stopped s'

/-- Go on whether the program fails or not. -/
def ignore (m : Prog σ α) : Prog σ Unit := do
  let _ ← attempt m
  pure ()

/-- One step after another. -/
def each (f : β → Prog σ Unit) : List β → Prog σ Unit
  | [] => pure ()
  | b :: bs => do
    f b
    each f bs

/-- What is left after runs of a program, one after another. -/
def runs (m : Prog σ α) (s : σ) (fates : List (List Fate)) : σ :=
  fates.foldl (fun s fates => (m fates s).state) s

/-! ## Triples -/

/-- From a state that meets `P`, the program ends with `Q`, fails with `F` or dies with `X`. -/
def Triple (P : σ → Prop) (m : Prog σ α) (Q : α → σ → Prop) (F X : σ → Prop) : Prop :=
  ∀ fates s, P s →
    match m fates s with
    | .done a s' _ => Q a s'
    | .failed s' _ => F s'
    | .stopped s' => X s'

section

variable {P : σ → Prop} {Q : α → σ → Prop} {F X : σ → Prop} {m : Prog σ α}

theorem Triple.pure {a : α} (h : ∀ s, P s → Q a s) : Triple P (pure a) Q F X := fun _ s => h s

theorem Triple.bind {R : β → σ → Prop} {m : Prog σ β} {f : β → Prog σ α}
    (h : Triple P m R F X) (hf : ∀ b, Triple (R b) (f b) Q F X) : Triple P (m >>= f) Q F X := by
  intro fates s hs
  have hm := h fates s hs
  show match (match m fates s with
    | .done b s' rest => f b rest s'
    | .failed s' rest => .failed s' rest
    | .stopped s' => .stopped s') with
    | .done a s' _ => Q a s'
    | .failed s' _ => F s'
    | .stopped s' => X s'
  cases hrun : m fates s with
  | done b s' rest =>
    rw [hrun] at hm
    exact hf b rest s' hm
  | failed s' rest =>
    rw [hrun] at hm
    exact hm
  | stopped s' =>
    rw [hrun] at hm
    exact hm

/-- A step fails where it was, and dies where it was or where it leads. -/
theorem Triple.act {Q : Unit → σ → Prop} {f : σ → Option σ} (hfail : ∀ s, P s → F s)
    (hstop : ∀ s, P s → X s) (h : ∀ s s', P s → f s = some s' → Q () s' ∧ X s') :
    Triple P (act f) Q F X := by
  intro fates s hs
  unfold Crash.act
  cases fates.headD .succeeds with
  | fails => exact hfail s hs
  | stops =>
    cases hf : f s with
    | none => exact hstop s hs
    | some s' => exact (h s s' hs hf).2
  | succeeds =>
    cases hf : f s with
    | none => exact hfail s hs
    | some s' => exact (h s s' hs hf).1

theorem Triple.check (hfail : ∀ s, P s → F s) (hstop : ∀ s, P s → X s) :
    Triple P check (fun _ => P) F X :=
  .act hfail hstop fun s s' hs heq => by
    cases heq
    exact ⟨hs, hstop s hs⟩

theorem Triple.ensure {p : σ → Bool} (hfail : ∀ s, P s → F s) (hstop : ∀ s, P s → X s) :
    Triple P (ensure p) (fun _ s => P s ∧ p s = true) F X := by
  refine .act hfail hstop fun s s' hs heq => ?_
  split at heq
  · rename_i hp
    cases heq
    exact ⟨⟨hs, hp⟩, hstop s hs⟩
  · cases heq

theorem Triple.get {f : σ → α} (h : ∀ s, P s → Q (f s) s) : Triple P (get f) Q F X := fun _ s => h s

theorem Triple.fail (h : ∀ s, P s → F s) : Triple P fail Q F X := fun _ s => h s

theorem Triple.when {Q : σ → Prop} {b : Bool} {m : Prog σ Unit}
    (h : b = true → Triple P m (fun _ => Q) F X) (hskip : b = false → ∀ s, P s → Q s) :
    Triple P (when b m) (fun _ => Q) F X := by
  cases b with
  | true => exact h rfl
  | false => exact .pure (hskip rfl)

/-- What holds where the program fails holds where it is caught. -/
theorem Triple.attempt {Q : Option α → σ → Prop} {F' : σ → Prop}
    (h : Triple P m (fun a => Q (some a)) (Q none) X) : Triple P (attempt m) Q F' X := by
  intro fates s hs
  have hm := h fates s hs
  unfold Crash.attempt
  cases hrun : m fates s with
  | done a s' rest =>
    rw [hrun] at hm
    exact hm
  | failed s' rest =>
    rw [hrun] at hm
    exact hm
  | stopped s' =>
    rw [hrun] at hm
    exact hm

theorem Triple.ignore {Q F' : σ → Prop} (h : Triple P m (fun _ => Q) Q X) :
    Triple P (ignore m) (fun _ => Q) F' X :=
  .bind (R := fun _ => Q) (.attempt h) fun _ => .pure fun _ => id

theorem Triple.consequence {P' : σ → Prop} {Q' : α → σ → Prop} {F' X' : σ → Prop}
    (h : Triple P' m Q' F' X') (hP : ∀ s, P s → P' s) (hQ : ∀ a s, Q' a s → Q a s)
    (hF : ∀ s, F' s → F s) (hX : ∀ s, X' s → X s) : Triple P m Q F X := by
  intro fates s hs
  have hm := h fates s (hP s hs)
  cases hrun : m fates s with
  | done a s' rest =>
    rw [hrun] at hm
    exact hQ a s' hm
  | failed s' rest =>
    rw [hrun] at hm
    exact hF s' hm
  | stopped s' =>
    rw [hrun] at hm
    exact hX s' hm

theorem Triple.pre {P' : σ → Prop} (h : Triple P' m Q F X) (hP : ∀ s, P s → P' s) :
    Triple P m Q F X :=
  h.consequence hP (fun _ _ => id) (fun _ => id) fun _ => id

theorem Triple.post {Q' : α → σ → Prop} (h : Triple P m Q' F X) (hQ : ∀ a s, Q' a s → Q a s) :
    Triple P m Q F X :=
  h.consequence (fun _ => id) hQ (fun _ => id) fun _ => id

/-- A part of the state's condition that does not change may be used on the way. -/
theorem Triple.of_forall {p : Prop} (hp : ∀ s, P s → p) (h : p → Triple P m Q F X) :
    Triple P m Q F X := fun fates s hs => h (hp s hs) fates s hs

/-- The loop: what holds once some elements are done. -/
theorem Triple.each {f : β → Prog σ Unit} (I : List β → σ → Prop) {bs : List β}
    (h : ∀ done b, b ∈ bs → Triple (I done) (f b) (fun _ => I (done ++ [b])) F X)
    (ds : List β) : Triple (I ds) (each f bs) (fun _ => I (ds ++ bs)) F X := by
  induction bs generalizing ds with
  | nil =>
    refine .pure fun s hs => ?_
    rw [List.append_nil]
    exact hs
  | cons b bs ih =>
    refine .bind (h ds b List.mem_cons_self) fun _ => ?_
    have hrest := ih (fun done b hb => h done b (List.mem_cons_of_mem _ hb)) (ds ++ [b])
    rw [List.append_assoc] at hrest
    exact hrest

/-- A loop whose steps each keep a condition. -/
theorem Triple.each_keep {f : β → Prog σ Unit} {bs : List β}
    (h : ∀ b ∈ bs, Triple P (f b) (fun _ => P) F X) :
    Triple P (Crash.each f bs) (fun _ => P) F X :=
  Triple.each (fun _ => P) (fun _ b hb => h b hb) []

/-- What holds however the program ends holds of the state that is left. -/
theorem Triple.state {I : σ → Prop} (h : Triple P m (fun _ => I) I I) {s : σ} (hs : P s)
    (fates : List Fate) : I (m fates s).state := by
  have hm := h fates s hs
  cases hrun : m fates s with
  | done a s' rest =>
    rw [hrun] at hm
    exact hm
  | failed s' rest =>
    rw [hrun] at hm
    exact hm
  | stopped s' =>
    rw [hrun] at hm
    exact hm

end

/-- What every run of a program keeps, whether it ends, fails or dies, repeated runs keep. -/
theorem Triple.runs {I : σ → Prop} {m : Prog σ α} (h : Triple I m (fun _ => I) I I) {s : σ}
    (hs : I s) (fates : List (List Fate)) : I (runs m s fates) := by
  induction fates generalizing s with
  | nil => exact hs
  | cons fate fates ih => exact ih (h.state hs fate)

end Crash
