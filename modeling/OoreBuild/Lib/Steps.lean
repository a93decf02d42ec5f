import Mathlib.Data.List.Basic

/-!
# Runs of a step function

A system that takes one input at a time: a step answers the next state, or `none` where the input
is not possible. What a step keeps, every run keeps (`keeps_run`), also where it does so only for
inputs that meet a condition.
-/

namespace Steps

variable {σ ι : Type} (step : σ → ι → Option σ)

/-- A run: the inputs one after another. -/
def run (s : σ) : List ι → Option σ
  | [] => some s
  | x :: xs => (step s x).bind fun s' => run s' xs

/-- Every step of the run meets the condition. -/
def Meets (cond : σ → ι → Prop) (s : σ) : List ι → Prop
  | [] => True
  | x :: xs => cond s x ∧ ∀ s', step s x = some s' → Meets cond s' xs

/-- A run of steps that each pass a check. -/
def checks (check : σ → ι → Bool) (s : σ) : List ι → Bool
  | [] => true
  | x :: xs => check s x && (step s x).all fun s' => checks check s' xs

variable {step} {cond : σ → ι → Prop}

/-- A check that implies the condition decides it along a run. -/
theorem meets_of_checks {check : σ → ι → Bool} (hcheck : ∀ s x, check s x = true → cond s x)
    {s : σ} {xs : List ι} (h : checks step check s xs = true) : Meets step cond s xs := by
  induction xs generalizing s with
  | nil => trivial
  | cons x xs ih =>
    rw [checks, Bool.and_eq_true, Option.all_eq_true] at h
    exact ⟨hcheck s x h.1, fun s' hstep => ih (h.2 s' hstep)⟩

theorem Meets.and {cond' : σ → ι → Prop} {s : σ} {xs : List ι} (h : Meets step cond s xs)
    (h' : Meets step cond' s xs) : Meets step (fun s x => cond s x ∧ cond' s x) s xs := by
  induction xs generalizing s with
  | nil => trivial
  | cons x xs ih =>
    exact ⟨⟨h.1, h'.1⟩, fun s' hstep => ih (h.2 s' hstep) (h'.2 s' hstep)⟩

/-- What every step keeps under the condition, a run keeps. -/
theorem keeps_run {P : σ → Prop}
    (hstep : ∀ s x s', P s → cond s x → step s x = some s' → P s') {s s' : σ} {xs : List ι}
    (h : P s) (hmeets : Meets step cond s xs) (hrun : run step s xs = some s') : P s' := by
  induction xs generalizing s with
  | nil =>
    cases hrun
    exact h
  | cons x xs ih =>
    obtain ⟨mid, hmid, hrest⟩ := Option.bind_eq_some_iff.mp hrun
    exact ih (hstep s x mid h hmeets.1 hmid) (hmeets.2 mid hmid) hrest

/-- A condition that follows from what the run keeps. -/
theorem Meets.of_keeps {P : σ → Prop} {cond' : σ → ι → Prop}
    (hstep : ∀ s x s', P s → cond s x → step s x = some s' → P s')
    (hcond : ∀ s x, P s → cond s x → cond' s x) {s : σ} {xs : List ι} (h : P s)
    (hmeets : Meets step cond s xs) : Meets step cond' s xs := by
  induction xs generalizing s with
  | nil => trivial
  | cons x xs ih =>
    refine ⟨hcond s x h hmeets.1, fun s' hnext => ?_⟩
    exact ih (hstep s x s' h hmeets.1 hnext) (hmeets.2 s' hnext)

theorem run_append (s : σ) (xs ys : List ι) :
    run step s (xs ++ ys) = (run step s xs).bind fun s' => run step s' ys := by
  induction xs generalizing s with
  | nil => rfl
  | cons x xs ih =>
    rw [List.cons_append, run, run, Option.bind_assoc]
    exact Option.bind_congr fun s' _ => ih s'

end Steps
