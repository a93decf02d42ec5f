import OoreBuild.Lib.Glob

/-!
# The language of a wildcard pattern

In a pattern `*` stands for any bytes, `?` for any one byte, and every other byte for itself. The
matcher with one retry point ends on every input (`answerWithin_of_rank`), and it accepts the
values that are split among the pattern so that a `*` before a byte `*` of the value takes exactly
that byte (`wildcardMatch_iff`): all of the language only where this makes no difference.
-/

namespace Glob

/-- What a byte of a pattern stands for. -/
def symbol (b : UInt8) : Language UInt8 :=
  ({w | b = star ∨ ∃ c, w = [c] ∧ (b = question ∨ b = c)} : Set (List UInt8))

/-- The values that a pattern describes. -/
def language (pattern : List UInt8) : Language UInt8 := (pattern.map symbol).prod

theorem mem_language_nil {v : List UInt8} : v ∈ language [] ↔ v = [] := Language.mem_one v

theorem mem_language_cons {b : UInt8} {p v : List UInt8} :
    v ∈ language (b :: p) ↔ ∃ taken, (b = star ∨ ∃ c, taken = [c] ∧ (b = question ∨ b = c)) ∧
      ∃ w, w ∈ language p ∧ taken ++ w = v :=
  Language.mem_mul

theorem mem_language_star {p v : List UInt8} :
    v ∈ language (star :: p) ↔ ∃ w, w <:+ v ∧ w ∈ language p := by
  rw [mem_language_cons]
  constructor
  · rintro ⟨taken, -, w, hw, rfl⟩
    exact ⟨w, List.suffix_append _ _, hw⟩
  · rintro ⟨w, ⟨taken, rfl⟩, hw⟩
    exact ⟨taken, .inl rfl, w, hw, rfl⟩

theorem mem_language_byte {b : UInt8} (hb : b ≠ star) {p v : List UInt8} :
    v ∈ language (b :: p) ↔ ∃ c w, v = c :: w ∧ (b = question ∨ b = c) ∧ w ∈ language p := by
  rw [mem_language_cons]
  constructor
  · rintro ⟨taken, htaken, w, hw, rfl⟩
    obtain ⟨c, rfl, hmatch⟩ := htaken.resolve_left hb
    exact ⟨c, w, rfl, hmatch, hw⟩
  · rintro ⟨c, w, rfl, hmatch, hw⟩
    exact ⟨[c], .inr ⟨c, rfl, hmatch⟩, w, hw, rfl⟩

/-- The value is split among the pattern, and a `*` before a byte `*` takes exactly that byte. -/
inductive Literally : List UInt8 → List UInt8 → Prop
  | nil : Literally [] []
  | byte {b c : UInt8} {p v : List UInt8} (hmatch : b = question ∨ b = c) (h : Literally p v) :
      Literally (b :: p) (c :: v)
  | star {p v w : List UInt8} (hhead : v.head? ≠ some star) (hw : w <:+ v) (h : Literally p w) :
      Literally (star :: p) v

theorem Literally.mem_language {p v : List UInt8} (h : Literally p v) : v ∈ language p := by
  induction h with
  | nil => exact mem_language_nil.mpr rfl
  | @byte b c p v hmatch _ ih =>
    by_cases hb : b = Glob.star
    · rw [hb]
      exact mem_language_star.mpr ⟨v, List.suffix_cons c v, ih⟩
    · exact (mem_language_byte hb).mpr ⟨c, v, rfl, hmatch, ih⟩
  | star _ hw _ ih => exact mem_language_star.mpr ⟨_, hw, ih⟩

/-- Every pattern describes itself. -/
theorem Literally.self (p : List UInt8) : Literally p p := by
  induction p with
  | nil => exact .nil
  | cons b p ih => exact .byte (.inr rfl) ih

/-! ## Turns of the loop -/

/-- The pattern and the value left, and the pattern and the value left after the last `*`. -/
abbrev State := List UInt8 × List UInt8 × Option (List UInt8 × List UInt8)

/-- After a mismatch the last `*` takes one byte more, if there is one. -/
def retryTurn : Option (List UInt8 × List UInt8) → Bool ⊕ State
  | some (retryPattern, _ :: retryValue) =>
    .inr (retryPattern, retryValue, some (retryPattern, retryValue))
  | _ => .inl false

/-- One turn of the loop: the answer, or the next state. -/
def turn : State → Bool ⊕ State
  | (pattern, [], _) => .inl (pattern.dropWhile (· == star)).isEmpty
  | ([], _ :: _, retry) => retryTurn retry
  | (b :: pattern, c :: value, retry) =>
    if b == question || b == c then .inr (pattern, value, retry)
    else if b == star then .inr (pattern, c :: value, some (pattern, c :: value))
    else retryTurn retry

section Turns

variable {b c : UInt8} (pattern value : List UInt8) (retry : Option (List UInt8 × List UInt8))

theorem turn_end : turn (pattern, [], retry) = .inl (pattern.dropWhile (· == star)).isEmpty := by
  cases pattern <;> rfl

theorem turn_match (h : b = question ∨ b = c) :
    turn (b :: pattern, c :: value, retry) = .inr (pattern, value, retry) :=
  if_pos (by simpa using h)

theorem turn_star (h : star ≠ c) :
    turn (star :: pattern, c :: value, retry) =
      .inr (pattern, c :: value, some (pattern, c :: value)) := by
  refine (if_neg ?_).trans (if_pos (beq_self_eq_true _))
  simpa [show star ≠ question by decide] using h

theorem turn_mismatch (h : ¬(b = question ∨ b = c)) (hb : b ≠ star) :
    turn (b :: pattern, c :: value, retry) = retryTurn retry :=
  (if_neg (by simpa using h)).trans (if_neg (by simpa using hb))

end Turns

/-- The answer, when it comes within so many turns. -/
def answerWithin : ℕ → State → Option Bool
  | 0, _ => none
  | fuel + 1, s =>
    match turn s with
    | .inl answer => some answer
    | .inr s' => answerWithin fuel s'

theorem matchLoop_eq (fuel : ℕ) (s : State) :
    matchLoop fuel s.1 s.2.1 s.2.2 = (answerWithin fuel s).getD false := by
  induction fuel generalizing s with
  | zero => rfl
  | succ fuel ih =>
    obtain ⟨pattern, value, retry⟩ := s
    have hretry : ∀ retry : Option (List UInt8 × List UInt8),
        (match retry with
          | some (retryPattern, _ :: retryValue) =>
            matchLoop fuel retryPattern retryValue (some (retryPattern, retryValue))
          | _ => false) =
        (match retryTurn retry with
          | .inl answer => some answer
          | .inr s' => answerWithin fuel s').getD false := by
      rintro (_ | ⟨retryPattern, _ | ⟨c, retryValue⟩⟩)
      · rfl
      · rfl
      · exact ih (retryPattern, retryValue, some (retryPattern, retryValue))
    rcases value with _ | ⟨c, value⟩
    · cases pattern <;> rfl
    · rcases pattern with _ | ⟨b, pattern⟩
      · rcases retry with _ | ⟨retryPattern, _ | ⟨d, retryValue⟩⟩
        · rfl
        · rfl
        · exact ih (retryPattern, retryValue, some (retryPattern, retryValue))
      · unfold matchLoop answerWithin turn
        dsimp only
        split
        · exact ih (pattern, value, retry)
        · split
          · exact ih (pattern, c :: value, some (pattern, c :: value))
          · exact hretry retry

/-! ## The answer -/

/-- The pattern since the last `*` has met its bytes one by one. -/
def Tied : State → Prop
  | (_, _, none) => True
  | (p, v, some (retryPattern, retryValue)) =>
    ∃ q u, retryPattern = q ++ p ∧ retryValue = u ++ v ∧
      List.Forall₂ (fun b c => b = question ∨ b = c) q u

/-- The value can be split when the last `*` takes more. -/
def Later : Option (List UInt8 × List UInt8) → Prop
  | none => False
  | some (retryPattern, retryValue) =>
    ∃ w, w <:+ retryValue.tail ∧ retryValue ≠ [] ∧ Literally retryPattern w

/-- A split that comes after the bytes the pattern has met leaves a split of what is left. -/
theorem exists_of_tied {q u : List UInt8}
    (hmet : List.Forall₂ (fun b c => b = question ∨ b = c) q u) {p v w : List UInt8}
    (hw : w <:+ u ++ v) (h : Literally (q ++ p) w) :
    ∃ w', w' <:+ v ∧ Literally p w' := by
  induction hmet generalizing w with
  | nil => exact ⟨w, hw, h⟩
  | @cons b c q u hmatch _ ih =>
    rw [List.cons_append] at h hw
    cases h with
    | @byte _ d _ rest _ h =>
      refine ih (?_ : rest <:+ u ++ v) h
      rcases List.suffix_cons_iff.mp hw with heq | hsuffix
      · cases heq
        exact List.suffix_refl _
      · exact (List.suffix_cons d rest).trans hsuffix
    | @star _ _ rest hhead hrest h =>
      -- The `*` has met a byte `*`, so it does not stand there in this split.
      have hc : c = star := by
        rcases hmatch with hquestion | heq
        · exact absurd hquestion (by decide)
        · exact heq.symm
      rcases List.suffix_cons_iff.mp hw with rfl | hsuffix
      · exact absurd (by rw [hc]; rfl) hhead
      · exact ih (hrest.trans hsuffix) h

theorem literally_nil_iff {p : List UInt8} :
    Literally p [] ↔ (p.dropWhile (· == star)).isEmpty = true := by
  rw [List.isEmpty_iff, List.dropWhile_eq_nil_iff]
  induction p with
  | nil => simp [Literally.nil]
  | cons b p ih =>
    rw [List.forall_mem_cons, ← ih]
    constructor
    · rintro (_ | _ | ⟨-, hw, h⟩)
      rw [List.suffix_nil.mp hw] at h
      exact ⟨rfl, h⟩
    · rintro ⟨hb, h⟩
      rw [beq_iff_eq.mp hb]
      exact .star (by nofun) (List.suffix_refl _) h

theorem later_iff {p v : List UInt8} :
    (Literally p v ∨ Later (some (p, v))) ↔ ∃ w, w <:+ v ∧ Literally p w := by
  constructor
  · rintro (h | ⟨w, hw, -, h⟩)
    · exact ⟨v, List.suffix_refl _, h⟩
    · exact ⟨w, hw.trans (List.tail_suffix _), h⟩
  · rintro ⟨w, hw, h⟩
    rcases v with _ | ⟨c, v⟩
    · rw [List.suffix_nil.mp hw] at h
      exact .inl h
    · rcases List.suffix_cons_iff.mp hw with rfl | hw
      · exact .inl h
      · exact .inr ⟨w, hw, by nofun, h⟩

/-- That the turn leaves the question whether the value can be split as it was. -/
def Keeps (asked : Prop) : Bool ⊕ State → Prop
  | .inl answer => answer = true ↔ asked
  | .inr s => Tied s ∧ ((Literally s.1 s.2.1 ∨ Later s.2.2) ↔ asked)

theorem retryTurn_keeps (retry : Option (List UInt8 × List UInt8)) :
    Keeps (Later retry) (retryTurn retry) := by
  rcases retry with _ | ⟨retryPattern, _ | ⟨c, retryValue⟩⟩
  · simp [Keeps, retryTurn, Later]
  · simp [Keeps, retryTurn, Later]
  · refine ⟨⟨[], [], rfl, rfl, .nil⟩, later_iff.trans ?_⟩
    simp [Later]

theorem literally_cons_iff {b c : UInt8} (hmatch : b = question ∨ b = c) {p v : List UInt8} :
    Literally (b :: p) (c :: v) ↔ Literally p v := by
  constructor
  · intro h
    cases h with
    | byte _ h => exact h
    | star hhead _ _ =>
      have hc : Glob.star = c := hmatch.resolve_left (by decide)
      exact absurd (congrArg some hc.symm) hhead
  · exact .byte hmatch

theorem literally_star_iff {p v : List UInt8} (hhead : v.head? ≠ some star) :
    Literally (star :: p) v ↔ ∃ w, w <:+ v ∧ Literally p w := by
  constructor
  · intro h
    cases h with
    | byte hmatch _ =>
      have hc := hmatch.resolve_left (by decide)
      exact absurd (congrArg some hc.symm) hhead
    | star _ hw h => exact ⟨_, hw, h⟩
  · rintro ⟨w, hw, h⟩
    exact .star hhead hw h

theorem eq_of_literally {b c : UInt8} {p v : List UInt8} (h : Literally (b :: p) (c :: v)) :
    (b = question ∨ b = c) ∨ b = star := by
  cases h with
  | byte hmatch _ => exact .inl hmatch
  | star => exact .inr rfl

/-- A `*` can be skipped within any split. -/
theorem exists_of_star {p v : List UInt8} (h : Literally (star :: p) v) :
    ∃ w, w <:+ v ∧ Literally p w := by
  cases h with
  | byte _ h => exact ⟨_, List.suffix_cons _ _, h⟩
  | star _ hw h => exact ⟨_, hw, h⟩

theorem turn_keeps {s : State} (h : Tied s) :
    Keeps (Literally s.1 s.2.1 ∨ Later s.2.2) (turn s) := by
  obtain ⟨pattern, value, retry⟩ := s
  -- A split by the last `*` goes through what is left of the pattern.
  have hlater : Later retry → ∃ w, w <:+ value ∧ Literally pattern w := by
    intro hlater
    rcases retry with _ | ⟨retryPattern, retryValue⟩
    · exact hlater.elim
    · obtain ⟨q, u, rfl, rfl, hmet⟩ := h
      obtain ⟨w, hw, -, hsplit⟩ := hlater
      exact exists_of_tied hmet (hw.trans (List.tail_suffix _)) hsplit
  rcases value with _ | ⟨c, value⟩
  · rw [turn_end]
    refine (literally_nil_iff.symm.trans ?_ : _ ↔ _)
    refine ⟨.inl, fun hsplit => hsplit.elim id fun h => ?_⟩
    obtain ⟨w, hw, hsplit⟩ := hlater h
    rwa [List.suffix_nil.mp hw] at hsplit
  rcases pattern with _ | ⟨b, pattern⟩
  · have hnone : ¬Literally [] (c :: value) := nofun
    simpa only [turn, hnone, false_or] using retryTurn_keeps retry
  by_cases hmatch : b = question ∨ b = c
  · rw [turn_match _ _ _ hmatch]
    refine ⟨?_, or_congr_left (literally_cons_iff hmatch).symm⟩
    rcases retry with _ | ⟨retryPattern, retryValue⟩
    · trivial
    · obtain ⟨q, u, rfl, rfl, hmet⟩ := h
      exact ⟨q ++ [b], u ++ [c], by simp, by simp, List.rel_append hmet (.cons hmatch .nil)⟩
  by_cases hb : b = star
  · subst hb
    have hc : star ≠ c := fun heq => hmatch (.inr heq)
    have hhead : (c :: value).head? ≠ some star := fun heq => hc (Option.some.inj heq).symm
    rw [turn_star _ _ _ hc]
    refine ⟨⟨[], [], rfl, rfl, .nil⟩, later_iff.trans ((literally_star_iff hhead).symm.trans ?_)⟩
    refine ⟨.inl, fun hsplit => hsplit.elim id fun h => ?_⟩
    obtain ⟨w, hw, hsplit⟩ := hlater h
    obtain ⟨w', hw', hsplit'⟩ := exists_of_star hsplit
    exact .star hhead (hw'.trans hw) hsplit'
  · have hnone : ¬Literally (b :: pattern) (c :: value) := by
      intro h
      exact (eq_of_literally h).elim hmatch hb
    rw [turn_mismatch _ _ _ hmatch hb]
    simpa only [hnone, false_or] using retryTurn_keeps retry

/-- An answer is the right one. -/
theorem answer_iff {fuel : ℕ} {s : State} (h : Tied s) {answer : Bool}
    (hanswer : answerWithin fuel s = some answer) :
    answer = true ↔ Literally s.1 s.2.1 ∨ Later s.2.2 := by
  induction fuel generalizing s with
  | zero => cases hanswer
  | succ fuel ih =>
    have hkeeps := turn_keeps h
    unfold answerWithin at hanswer
    cases hturn : turn s with
    | inl now =>
      rw [hturn] at hkeeps hanswer
      cases hanswer
      exact hkeeps
    | inr s' =>
      rw [hturn] at hkeeps hanswer
      exact (ih hkeeps.1 hanswer).trans hkeeps.2

/-! ## The number of turns -/

/-- Lengths that the loop stays within. -/
def Within (m n : ℕ) : State → Prop
  | (p, v, none) => p.length ≤ m ∧ v.length ≤ n
  | (p, v, some (retryPattern, retryValue)) =>
    p.length ≤ retryPattern.length ∧ retryPattern.length ≤ m ∧
      v.length ≤ retryValue.length ∧ retryValue.length ≤ n

/-- What gets smaller: first the pattern after the last `*`, then the value there, then the rest. -/
def rank (m n : ℕ) : State → ℕ
  | (p, v, none) => (m + 1) * ((n + 1) * (m + n + 1)) + n * (m + n + 1) + (p.length + v.length)
  | (p, v, some (retryPattern, retryValue)) =>
    retryPattern.length * ((n + 1) * (m + n + 1)) + retryValue.length * (m + n + 1) +
      (p.length + v.length)

theorem retryTurn_rank {m n : ℕ} {p v : List UInt8} {retry : Option (List UInt8 × List UInt8)}
    (h : Within m n (p, v, retry)) {s : State} (hturn : retryTurn retry = .inr s) :
    Within m n s ∧ rank m n s < rank m n (p, v, retry) := by
  rcases retry with _ | ⟨retryPattern, _ | ⟨c, retryValue⟩⟩
  · cases hturn
  · cases hturn
  · cases hturn
    obtain ⟨hp, hm, hv, hn⟩ := h
    rw [List.length_cons] at hv hn
    refine ⟨⟨le_rfl, hm, le_rfl, by omega⟩, ?_⟩
    show _ + _ * _ + _ < _ + (retryValue.length + 1) * _ + _
    rw [Nat.add_mul retryValue.length 1]
    omega

theorem turn_rank {m n : ℕ} {s s' : State} (h : Within m n s) (hturn : turn s = .inr s') :
    Within m n s' ∧ rank m n s' < rank m n s := by
  obtain ⟨pattern, value, retry⟩ := s
  rcases value with _ | ⟨c, value⟩
  · rw [turn_end] at hturn
    cases hturn
  rcases pattern with _ | ⟨b, pattern⟩
  · exact retryTurn_rank h hturn
  by_cases hmatch : b = question ∨ b = c
  · rw [turn_match _ _ _ hmatch] at hturn
    cases hturn
    rcases retry with _ | ⟨retryPattern, retryValue⟩
    · simp only [Within, rank, List.length_cons] at h ⊢
      omega
    · simp only [Within, rank, List.length_cons] at h ⊢
      omega
  by_cases hb : b = star
  · subst hb
    rw [turn_star _ _ _ fun heq => hmatch (.inr heq)] at hturn
    cases hturn
    -- The rest of the pattern after the new `*` is shorter by one at least.
    have hless : ∀ longer x rest : ℕ, pattern.length + 1 ≤ longer → value.length + 1 ≤ n →
        pattern.length ≤ m →
        pattern.length * ((n + 1) * (m + n + 1)) + (value.length + 1) * (m + n + 1) +
          (pattern.length + (value.length + 1)) <
        longer * ((n + 1) * (m + n + 1)) + x * (m + n + 1) + (pattern.length + 1 + rest) := by
      intro longer x rest hlonger hvalue hpattern
      have hfirst := Nat.mul_le_mul_right ((n + 1) * (m + n + 1)) hlonger
      have hsecond := Nat.mul_le_mul_right (m + n + 1) hvalue
      rw [Nat.add_mul pattern.length 1] at hfirst
      have hexpand : (n + 1) * (m + n + 1) = n * (m + n + 1) + (m + n + 1) := Nat.succ_mul _ _
      omega
    rcases retry with _ | ⟨retryPattern, retryValue⟩
    · obtain ⟨hp, hv⟩ := h
      rw [List.length_cons] at hp hv
      refine ⟨⟨le_rfl, by omega, le_rfl, hv⟩, ?_⟩
      exact hless (m + 1) n (value.length + 1) (by omega) hv (by omega)
    · obtain ⟨hp, hm, hv, hn⟩ := h
      rw [List.length_cons] at hp hv
      refine ⟨⟨le_rfl, by omega, le_rfl, hv.trans hn⟩, ?_⟩
      exact hless _ _ (value.length + 1) hp (hv.trans hn) (by omega)
  · rw [turn_mismatch _ _ _ hmatch hb] at hturn
    exact retryTurn_rank h hturn

/-- The loop ends, whatever it starts with. -/
theorem answerWithin_of_rank {m n fuel : ℕ} {s : State} (h : Within m n s)
    (hfuel : rank m n s < fuel) : (answerWithin fuel s).isSome := by
  induction fuel generalizing s with
  | zero => omega
  | succ fuel ih =>
    unfold answerWithin
    cases hturn : turn s with
    | inl answer => rfl
    | inr s' =>
      obtain ⟨hwithin, hless⟩ := turn_rank h hturn
      exact ih hwithin (by omega)

/-- The turns that the matcher is given are enough. -/
theorem answerWithin_matchFuel (pattern value : List UInt8) :
    (answerWithin (matchFuel pattern value) (pattern, value, none)).isSome := by
  refine answerWithin_of_rank (m := pattern.length) (n := value.length) ⟨le_rfl, le_rfl⟩ ?_
  show (pattern.length + 1) * _ + _ + (pattern.length + value.length) < _
  unfold matchFuel
  generalize pattern.length = m, value.length = n
  have houter : (m + 2) * ((n + 1) * (m + n + 1)) =
      (m + 1) * ((n + 1) * (m + n + 1)) + (n + 1) * (m + n + 1) := Nat.succ_mul _ _
  have hinner : (n + 1) * (m + n + 1) = n * (m + n + 1) + (m + n + 1) := Nat.succ_mul _ _
  rw [Nat.mul_assoc, houter]
  omega

/-- What the matcher accepts. -/
theorem wildcardMatch_iff {pattern value : List UInt8} :
    wildcardMatch pattern value = true ↔ Literally pattern value := by
  obtain ⟨answer, hanswer⟩ := Option.isSome_iff_exists.mp (answerWithin_matchFuel pattern value)
  have hmatch : wildcardMatch pattern value = answer := by
    have heq := matchLoop_eq (matchFuel pattern value) (pattern, value, none)
    rw [hanswer] at heq
    exact heq
  have hiff := answer_iff (s := (pattern, value, none)) trivial hanswer
  rw [hmatch, hiff]
  exact or_iff_left not_false

/-! ## Paths -/

section

variable {α : Type} {any : α} {matches_ : α → α → Bool}

/-- The names are split among the segments: `any` takes any number of names, another segment one
name that it matches. -/
def Splits (any : α) (matches_ : α → α → Bool) (pattern path : List α) : Prop :=
  ∃ parts : List (List α), parts.flatten = path ∧
    List.Forall₂ (fun segment part =>
      segment = any ∨ ∃ name, part = [name] ∧ matches_ segment name = true) pattern parts

theorem splits_nil {path : List α} : Splits any matches_ [] path ↔ path = [] := by
  constructor
  · rintro ⟨parts, rfl, h⟩
    cases h
    rfl
  · rintro rfl
    exact ⟨[], rfl, .nil⟩

theorem splits_any {pattern path : List α} :
    Splits any matches_ (any :: pattern) path ↔
      ∃ rest, rest <:+ path ∧ Splits any matches_ pattern rest := by
  constructor
  · rintro ⟨_, rfl, h⟩
    cases h with
    | @cons _ part _ parts _ h =>
      exact ⟨parts.flatten, List.suffix_append _ _, parts, rfl, h⟩
  · rintro ⟨_, ⟨part, rfl⟩, parts, rfl, h⟩
    exact ⟨part :: parts, rfl, .cons (.inl rfl) h⟩

theorem splits_cons {segment : α} (hany : segment ≠ any) {pattern path : List α} :
    Splits any matches_ (segment :: pattern) path ↔
      ∃ name rest, path = name :: rest ∧ matches_ segment name = true ∧
        Splits any matches_ pattern rest := by
  constructor
  · rintro ⟨_, rfl, h⟩
    cases h with
    | @cons _ part _ parts hpart h =>
      obtain ⟨name, rfl, hname⟩ := hpart.resolve_left hany
      exact ⟨name, parts.flatten, rfl, hname, parts, rfl, h⟩
  · rintro ⟨name, _, rfl, hname, parts, rfl, h⟩
    exact ⟨[name] :: parts, rfl, .cons (.inr ⟨name, rfl, hname⟩) h⟩

/-- The paths that a pattern of segments matches. -/
theorem pathMatches_iff [DecidableEq α] {pattern path : List α} :
    pathMatches any matches_ pattern path = true ↔ Splits any matches_ pattern path := by
  induction pattern generalizing path with
  | nil => rw [pathMatches, List.isEmpty_iff, splits_nil]
  | cons segment pattern ih =>
    unfold pathMatches
    by_cases hany : segment = any
    · subst hany
      rw [if_pos rfl, List.any_eq_true, splits_any]
      refine exists_congr fun rest => ?_
      rw [List.mem_tails, ih]
    · rw [if_neg hany, splits_cons hany]
      cases path with
      | nil => simp
      | cons name path => simp [ih]

end

end Glob
