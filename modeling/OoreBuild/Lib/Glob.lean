import OoreBuild.Lib.Text

/-!
# Wildcard matching with one retry point

`wildcardMatch` runs the usual matcher for `*` (any bytes) and `?` (one byte): it walks pattern
and value together, remembers the last `*` it passed with the value left there, and on a
mismatch lets that `*` take one more byte. A byte of the pattern that equals the byte of the
value is consumed before it is read as a wildcard, so a `*` that meets a `*` stands for itself.
-/

namespace Glob

/-- The byte of `*`. -/
def star : UInt8 := 42

/-- The byte of `?`. -/
def question : UInt8 := 63

/-- The loop of the matcher: the pattern and the value left, and the pattern and the value left
after the last `*`. -/
def matchLoop : ℕ → List UInt8 → List UInt8 → Option (List UInt8 × List UInt8) → Bool
  | 0, _, _, _ => false
  | _ + 1, pattern, [], _ => (pattern.dropWhile (· == star)).isEmpty
  | fuel + 1, pattern, c :: value, retry =>
    match pattern, retry with
    | b :: pattern, retry =>
      if b == question || b == c then matchLoop fuel pattern value retry
      else if b == star then matchLoop fuel pattern (c :: value) (some (pattern, c :: value))
      else match retry with
        | some (retryPattern, _ :: retryValue) =>
          matchLoop fuel retryPattern retryValue (some (retryPattern, retryValue))
        | _ => false
    | [], some (retryPattern, _ :: retryValue) =>
      matchLoop fuel retryPattern retryValue (some (retryPattern, retryValue))
    | [], _ => false

/-- Turns that are enough for the loop: a `*` can only move to a shorter rest of the pattern,
for one `*` the value left there only gets shorter, and between two retries both sides do. -/
def matchFuel (pattern value : List UInt8) : ℕ :=
  (pattern.length + 2) * (value.length + 1) * (pattern.length + value.length + 1)

/-- Whether the value matches the pattern. -/
def wildcardMatch (pattern value : List UInt8) : Bool :=
  matchLoop (matchFuel pattern value) pattern value none

theorem matchLoop_self (retry : Option (List UInt8 × List UInt8)) (p : List UInt8) :
    ∀ fuel, p.length < fuel → matchLoop fuel p p retry = true := by
  induction p with
  | nil =>
    rintro (_ | fuel) h
    · omega
    · rfl
  | cons b p ih =>
    rintro (_ | fuel) h
    · omega
    · have hb : (b == question || b == b) = true := by rw [beq_self_eq_true, Bool.or_true]
      unfold matchLoop
      dsimp only
      rw [if_pos hb]
      exact ih fuel (Nat.lt_of_succ_lt_succ h)

/-- Every pattern matches itself. -/
theorem wildcardMatch_self (p : List UInt8) : wildcardMatch p p = true := by
  refine matchLoop_self none p _ ?_
  unfold matchFuel
  calc p.length < 1 * 1 * (p.length + p.length + 1) := by omega
    _ ≤ (p.length + 2) * (p.length + 1) * (p.length + p.length + 1) := by gcongr <;> omega

/-- Whether the path's segments match the pattern's, where a `**` segment spans any number of
segments. -/
def pathMatches {α : Type} [DecidableEq α] (any : α) (matches_ : α → α → Bool) :
    List α → List α → Bool
  | [], path => path.isEmpty
  | segment :: rest, path =>
    if segment = any then path.tails.any fun suffix => pathMatches any matches_ rest suffix
    else match path with
      | [] => false
      | name :: path => matches_ segment name && pathMatches any matches_ rest path

end Glob
