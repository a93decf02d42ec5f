import Mathlib.Data.List.Basic
import Mathlib.Data.List.Induction
import Mathlib.Data.List.TakeWhile
import Mathlib.Order.Lattice

/-!
# Starts within a sliding window

A queue of the times of past starts, pruned at its front and refused when it is full, limits how
many starts fall into any window. The times need not be in order: `Recalls` says that the queue has
lost nothing later than a cutoff, and that is all the bound needs.
-/

namespace RateWindow

/-- The queue without the times at its front up to the cutoff. -/
def prune (cutoff : ℤ) (starts : List ℤ) : List ℤ := starts.dropWhile (· ≤ cutoff)

/-- The queue is the history but for times up to the cutoff. -/
def Recalls (cutoff : ℤ) (history starts : List ℤ) : Prop :=
  ∃ lost, history = lost ++ starts ∧ ∀ time ∈ lost, time ≤ cutoff

/-- Each start found less than `limit` starts before it that are later than `reach` ago. -/
def Limited (limit : ℕ) (reach : ℤ) (history : List ℤ) : Prop :=
  ∀ before now after, history = before ++ now :: after →
    (before.filter (now - reach < ·)).length < limit

variable {cutoff cutoff' now reach : ℤ} {history starts : List ℤ} {limit : ℕ}

theorem recalls_nil (cutoff : ℤ) : Recalls cutoff [] [] := ⟨[], rfl, nofun⟩

/-- Pruning up to a cutoff loses nothing that is later. -/
theorem Recalls.prune (h : Recalls cutoff history starts) (cutoff' : ℤ) :
    Recalls (max cutoff cutoff') history (prune cutoff' starts) := by
  obtain ⟨lost, hhistory, hlost⟩ := h
  refine ⟨lost ++ starts.takeWhile (· ≤ cutoff'), ?_, fun time htime => ?_⟩
  · rw [List.append_assoc, RateWindow.prune, List.takeWhile_append_dropWhile, hhistory]
  · rcases List.mem_append.mp htime with hmem | hmem
    · exact (hlost time hmem).trans (le_max_left _ _)
    · have hle : time ≤ cutoff' := by simpa using List.mem_takeWhile_imp hmem
      exact hle.trans (le_max_right _ _)

theorem Recalls.push (h : Recalls cutoff history starts) (now : ℤ) :
    Recalls cutoff (history ++ [now]) (starts ++ [now]) := by
  obtain ⟨lost, rfl, hlost⟩ := h
  exact ⟨lost, List.append_assoc _ _ _, hlost⟩

/-- What is later than the cutoff is still in the queue. -/
theorem Recalls.length_filter_le (h : Recalls cutoff history starts) (hle : cutoff ≤ cutoff') :
    (history.filter (cutoff' < ·)).length ≤ starts.length := by
  obtain ⟨lost, rfl, hlost⟩ := h
  have hnone : lost.filter (cutoff' < ·) = [] := by
    refine List.filter_eq_nil_iff.mpr fun time htime => ?_
    simpa using (hlost time htime).trans hle
  rw [List.filter_append, hnone, List.nil_append]
  exact List.length_filter_le _ _

theorem limited_nil (limit : ℕ) (reach : ℤ) : Limited limit reach [] := by
  intro before now after h
  exact absurd h.symm (by simp)

/-- A start into a queue that is not full. -/
theorem Limited.push (h : Limited limit reach history) (hrecalls : Recalls cutoff history starts)
    (hcutoff : cutoff ≤ now - reach) (hroom : starts.length < limit) :
    Limited limit reach (history ++ [now]) := by
  intro before start after heq
  rcases List.eq_nil_or_concat after with rfl | ⟨rest, newest, rfl⟩
  · obtain ⟨hbefore, hstart⟩ := List.append_inj' heq rfl
    rw [← hbefore, ← (List.cons.inj hstart).1]
    exact (hrecalls.length_filter_le hcutoff).trans_lt hroom
  · have hsplit : history ++ [now] = (before ++ start :: rest) ++ [newest] := by
      rw [heq, List.concat_eq_append, List.append_assoc, List.cons_append]
    exact h before start rest (List.append_inj' hsplit rfl).1

/-- No window of the length `reach` holds more than `limit` starts. -/
theorem Limited.window (h : Limited limit reach history) (last : ℤ) :
    (history.filter fun time => last - reach < time ∧ time ≤ last).length ≤ limit := by
  induction history using List.reverseRecOn with
  | nil => exact Nat.zero_le _
  | append_singleton before now ih =>
    have hbefore : Limited limit reach before := by
      intro first start after heq
      refine h first start (after ++ [now]) ?_
      rw [heq, List.append_assoc, List.cons_append]
    rw [List.filter_append, List.length_append]
    by_cases hin : last - reach < now ∧ now ≤ last
    · have hcount := h before now [] rfl
      have hsub : (before.filter fun time => last - reach < time ∧ time ≤ last).length ≤
          (before.filter (now - reach < ·)).length := by
        refine (List.monotone_filter_right before fun time htime => ?_).length_le
        simp only [decide_eq_true_eq] at htime ⊢
        omega
      have hlast : ([now].filter fun time => last - reach < time ∧ time ≤ last).length ≤ 1 :=
        List.length_filter_le _ _
      omega
    · have hlast : [now].filter (fun time => decide (last - reach < time ∧ time ≤ last)) = [] :=
        List.filter_eq_nil_iff.mpr fun time htime => by
          obtain rfl := List.mem_singleton.mp htime
          simpa using hin
      rw [hlast, List.length_nil, Nat.add_zero]
      exact ih hbefore

end RateWindow
