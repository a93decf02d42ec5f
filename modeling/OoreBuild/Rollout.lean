import OoreBuild.Release

/-!
# The crash-rate guard of the rollout monitor

A step must not be taken while the recorded crash rate is at or above the threshold. A turn of
the monitor that finds a release rolling under a recorded breach takes the due step anyway when
it does not read the rate again, or is told that there is none (`sent_not_breached` says what
rules that out). Where the store accepts every halt and resumes no halted release, no release is
ever found so (`Quiet`).
-/

namespace OoreBuild

open Text

/-- The recorded crash rate is at or above the threshold. -/
def Release.breached (release : Release) : Bool :=
  match release.crashRate, release.policy.crashRateThreshold with
  | some rate, some threshold => threshold.le rate
  | _, _ => false

/-! ## What a transition does -/

/-- A transition either writes the changed row or leaves the table as it was. -/
theorem transitionRelease_cases (out : Outcomes) (releases : Releases) (id : Text)
    (change : ReleaseChange) :
    (∃ current, releases.find id = some current ∧ checkChange current change = .ok () ∧
      (transitionRelease out releases id change).result = .ok () ∧
      (transitionRelease out releases id change).releases = releases.modify id
        (fun row => { change.applyTo current (out.clock change.toState) with id := row.id })
        fun _ => rfl) ∨
    ((∃ error, (transitionRelease out releases id change).result = .error error) ∧
      (transitionRelease out releases id change).releases = releases) := by
  unfold transitionRelease
  cases hfind : releases.find id with
  | none => exact .inr ⟨⟨_, rfl⟩, rfl⟩
  | some current =>
    dsimp only
    cases hcheck : checkChange current change with
    | error error => exact .inr ⟨⟨_, rfl⟩, rfl⟩
    | ok _ =>
      dsimp only
      cases happly : (change.sends current).elim (.ok ()) out.apply with
      | error error => exact .inr ⟨⟨_, rfl⟩, rfl⟩
      | ok _ =>
        dsimp only
        split
        · exact .inl ⟨current, rfl, hcheck, rfl, rfl⟩
        · exact .inr ⟨⟨_, rfl⟩, rfl⟩

/-- What a transition sends was decided on the recorded row. -/
theorem find_of_mem_sent {out : Outcomes} {releases : Releases} {id : Text}
    {change : ReleaseChange} {s : Sent} (h : s ∈ (transitionRelease out releases id change).sent) :
    releases.find id = some s.release := by
  unfold transitionRelease at h
  cases hfind : releases.find id with
  | none => simp [hfind] at h
  | some current =>
    have hs : s ∈ ((change.sends current).map (Sent.mk current)).toList := by
      rw [hfind] at h
      dsimp only at h
      split at h
      · cases h
      · split at h
        · exact h
        · split at h <;> exact h
    obtain ⟨sc, -, rfl⟩ := by simpa using hs
    rfl

/-- The row a transition leaves under a key: the changed one, or the one that was there. -/
theorem find_transition {out : Outcomes} {releases : Releases} {id : Text}
    {change : ReleaseChange} {k : Text} {row : Release}
    (h : (transitionRelease out releases id change).releases.find k = some row) :
    releases.find k = some row ∨
      (k = id ∧ ∃ current, releases.find id = some current ∧ checkChange current change = .ok () ∧
        row = change.applyTo current (out.clock change.toState)) := by
  obtain ⟨current, hfind, hcheck, -, hmodify⟩ | ⟨-, hsame⟩ :=
    transitionRelease_cases out releases id change
  · rw [hmodify, Table.find_modify] at h
    split at h
    · rename_i hk
      rw [hfind, Option.map_some, Option.some.injEq] at h
      exact .inr ⟨hk, current, hfind, hcheck, h.symm⟩
    · exact .inl h
  · exact .inl (hsame ▸ h)

/-- What `checkChange` lets through. -/
theorem checkChange_ok {current : Release} {change : ReleaseChange}
    (h : checkChange current change = .ok ()) :
    movedSince change.expect current = false ∧
      validateFraction (change.fractionOf current) = .ok () := by
  unfold checkChange at h
  split at h
  · cases h
  · rename_i hmoved
    split at h
    · cases h
    · split at h
      · cases h
      · rename_i hvalid
        exact ⟨Bool.eq_false_of_not_eq_true hmoved, hvalid⟩

/-! ## What a turn leaves alone -/

/-- Under every key but one, two tables have the same rows. -/
def SameElsewhere (id : Text) (before after : Releases) : Prop :=
  ∀ k, k ≠ id → after.find k = before.find k

namespace SameElsewhere

variable {id : Text} {a b c : Releases}

theorem refl (a : Releases) : SameElsewhere id a a := fun _ _ => rfl

theorem trans (hab : SameElsewhere id a b) (hbc : SameElsewhere id b c) : SameElsewhere id a c :=
  fun k hk => (hbc k hk).trans (hab k hk)

theorem modify {f : Release → Release} {hf : ∀ row, (f row).id = row.id} :
    SameElsewhere id a (a.modify id f hf) :=
  fun _ hk => Table.find_modify_of_ne a hk f hf

end SameElsewhere

/-- The crash rates and policies of the rows. -/
def healthOf (releases : Releases) (id : Text) : Option (Option F64 × ReleasePolicy) :=
  (releases.find id).map fun row => (row.crashRate, row.policy)

theorem healthOf_modify (releases : Releases) (id : Text) (f : Release → Release)
    (hf : ∀ row, (f row).id = row.id)
    (hh : ∀ row, releases.find id = some row →
      (f row).crashRate = row.crashRate ∧ (f row).policy = row.policy) (k : Text) :
    healthOf (releases.modify id f hf) k = healthOf releases k := by
  unfold healthOf
  rw [Table.find_modify]
  split
  · rename_i hk
    subst hk
    cases hfind : releases.find k with
    | none => rfl
    | some row =>
      obtain ⟨hrate, hpolicy⟩ := hh row hfind
      simp [hrate, hpolicy]
  · rfl

theorem sameElsewhere_transition (out : Outcomes) (releases : Releases) (id : Text)
    (change : ReleaseChange) :
    SameElsewhere id releases (transitionRelease out releases id change).releases := by
  obtain ⟨current, -, -, -, hmodify⟩ | ⟨-, hsame⟩ := transitionRelease_cases out releases id change
  · rw [hmodify]
    exact .modify
  · rw [hsame]
    exact .refl releases

/-- A transition records no crash rate. -/
theorem healthOf_transition (out : Outcomes) (releases : Releases) (id : Text)
    (change : ReleaseChange) (k : Text) :
    healthOf (transitionRelease out releases id change).releases k = healthOf releases k := by
  obtain ⟨current, hfind, -, -, hmodify⟩ | ⟨-, hsame⟩ :=
    transitionRelease_cases out releases id change
  · rw [hmodify]
    refine healthOf_modify releases id _ _ (fun row hrow => ?_) k
    rw [hfind, Option.some.injEq] at hrow
    rw [← hrow]
    exact ⟨rfl, rfl⟩
  · rw [hsame]

theorem applySyncChanges_frame (out : Outcomes) (id : Text)
    (changes : List (ReleaseState × Option F64)) (expect : Option (ReleaseState × F64))
    (releases : Releases) :
    SameElsewhere id releases (applySyncChanges out id changes expect releases).2 ∧
      ∀ k, healthOf (applySyncChanges out id changes expect releases).2 k = healthOf releases k := by
  induction changes generalizing expect releases with
  | nil => exact ⟨.refl releases, fun _ => rfl⟩
  | cons change rest ih =>
    obtain ⟨toState, toFraction⟩ := change
    unfold applySyncChanges
    have hsame := sameElsewhere_transition out releases id
      { toState, toFraction, expect, fromStore := true }
    have hhealth := healthOf_transition out releases id
      { toState, toFraction, expect, fromStore := true }
    dsimp only
    split
    · exact ⟨hsame, hhealth⟩
    · obtain ⟨hsame', hhealth'⟩ := ih none
        (transitionRelease out releases id
          { toState, toFraction, expect, fromStore := true }).releases
      exact ⟨hsame.trans hsame', fun k => (hhealth' k).trans (hhealth k)⟩

/-- A sync touches one row and records no crash rate. -/
theorem syncReleaseWithStore_frame (out : Outcomes) (now : ℤ) (release : Release)
    (releases : Releases) :
    SameElsewhere release.id releases (syncReleaseWithStore out now release releases).2 ∧
      ∀ k, healthOf (syncReleaseWithStore out now release releases).2 k = healthOf releases k := by
  unfold syncReleaseWithStore
  have hsame : SameElsewhere release.id releases (releases.modify release.id
      (fun row => { row with storeCheckedAt := some now }) fun _ => rfl) := .modify
  have hhealth := healthOf_modify releases release.id
    (fun row => { row with storeCheckedAt := some now }) (fun _ => rfl) fun _ _ => ⟨rfl, rfl⟩
  dsimp only
  split
  · exact ⟨hsame, hhealth⟩
  · exact ⟨hsame, hhealth⟩
  · rename_i observed _
    split
    · exact ⟨hsame, hhealth⟩
    · have hframe := applySyncChanges_frame out release.id
        (storeSyncChanges release.state release.rolloutFraction observed)
        (some (release.state, release.rolloutFraction)) (releases.modify release.id
          (fun row => { row with storeCheckedAt := some now }) fun _ => rfl)
      split <;> rename_i heq <;> rw [heq] at hframe <;>
        exact ⟨hsame.trans hframe.1, fun k => (hframe.2 k).trans (hhealth k)⟩

theorem syncTurn_frame (out : Outcomes) (now : ℤ) (release : Release) (releases : Releases) :
    SameElsewhere release.id releases (syncTurn out now release releases).1 ∧
      ∀ k, healthOf (syncTurn out now release releases).1 k = healthOf releases k := by
  have hframe := syncReleaseWithStore_frame out now release releases
  unfold syncTurn
  split
  · split <;> rename_i heq <;> rw [heq] at hframe <;> exact hframe
  · exact ⟨.refl releases, fun _ => rfl⟩

theorem sameElsewhere_checkHealth (out : Outcomes) (now : ℤ) (release : Release)
    (releases : Releases) :
    SameElsewhere release.id releases (checkHealth out now release releases).releases := by
  unfold checkHealth
  split
  · exact .refl releases
  · split
    · exact .refl releases
    · split
      · dsimp only
        split
        · exact SameElsewhere.modify.trans (sameElsewhere_transition out _ _ _)
        · dsimp only
          exact .modify
      · dsimp only
        exact .modify

theorem sameElsewhere_takeStep (out : Outcomes) (now : ℤ) (release : Release)
    (healthError : Option Text) (releases : Releases) :
    SameElsewhere release.id releases (takeStep out now release healthError releases).1 := by
  unfold takeStep
  split
  · exact .refl releases
  · split
    · exact .refl releases
    · split
      · exact .refl releases
      · exact sameElsewhere_transition out releases release.id _

/-- A turn touches one row. -/
theorem sameElsewhere_releaseTurn (out : Outcomes) (now : ℤ) (release : Release)
    (releases : Releases) :
    SameElsewhere release.id releases (releaseTurn out now release releases).1 := by
  have hsync := (syncTurn_frame out now release releases).1
  unfold releaseTurn
  dsimp only
  split
  · exact hsync
  · have hchecked := hsync.trans
      (sameElsewhere_checkHealth out now release (syncTurn out now release releases).1)
    split
    · exact hchecked.trans (sameElsewhere_takeStep out now release _ _)
    · exact hchecked

/-! ## A turn under the guard -/

/-- A step is only sent on the recorded row, and only where it is due and no health error holds
the schedule. -/
theorem sent_takeStep {out : Outcomes} {now : ℤ} {release : Release} {healthError : Option Text}
    {releases : Releases} {s : Sent} (h : s ∈ (takeStep out now release healthError releases).2) :
    releases.find release.id = some s.release ∧
      (release.nextStepAt.any fun at_ => at_ ≤ now) = true ∧
      (release.policy.crashRateThreshold.isSome → healthError = none) := by
  unfold takeStep at h
  split at h
  · cases h
  · rename_i hhold
    split at h
    · cases h
    · rename_i hdue
      split at h
      · cases h
      · refine ⟨find_of_mem_sent h, ?_, fun hthreshold => ?_⟩
        · simp only [Bool.or_eq_true, Bool.not_eq_true'] at hdue
          simpa using (not_or.mp hdue).1
        · simpa [hthreshold] using hhold

/-- What a turn is to do with a due step of a release under a recorded breach: read the crash
rate again and be told one, or be held by a health error. -/
def Turn.RechecksBreach (turn : Turn) : Prop :=
  stepDue turn.now turn.release → turn.release.breached →
    if checkDue turn.release.crashRateCheckedAt turn.now then turn.out.crashRate ≠ .ok none
    else turn.release.healthError.isSome

/-- What the health check leaves, when the turn goes on and no health error holds the schedule:
the rate was not read, was not there, or is below the threshold. -/
theorem checkHealth_cases {out : Outcomes} {now : ℤ} {release : Release} {releases : Releases}
    {threshold : F64} (hthreshold : release.policy.crashRateThreshold = some threshold)
    (hgoes : (checkHealth out now release releases).goesOn = true)
    (herror : (checkHealth out now release releases).healthError = none) :
    (checkDue release.crashRateCheckedAt now = false ∧ release.healthError = none ∧
      (checkHealth out now release releases).releases = releases) ∨
    (checkDue release.crashRateCheckedAt now = true ∧ out.crashRate = .ok none ∧
      ∀ k, healthOf (checkHealth out now release releases).releases k = healthOf releases k) ∨
    ∃ rate, threshold.le rate = false ∧
      (checkHealth out now release releases).releases.find release.id =
        (releases.find release.id).map fun row =>
          { row with crashRate := some rate, crashRateCheckedAt := some now,
                     healthError := none } := by
  unfold checkHealth at hgoes herror ⊢
  rw [hthreshold] at hgoes herror ⊢
  dsimp only at hgoes herror ⊢
  cases hdue : checkDue release.crashRateCheckedAt now with
  | false =>
    rw [hdue] at hgoes herror
    exact .inl ⟨rfl, herror, rfl⟩
  | true =>
    rw [hdue] at hgoes herror
    simp only [Bool.not_true, Bool.false_eq_true, if_false] at hgoes herror ⊢
    cases hrate : out.crashRate with
    | error error =>
      rw [hrate] at herror
      cases herror
    | ok rate =>
      rw [hrate] at hgoes herror
      dsimp only at hgoes herror ⊢
      cases rate with
      | none =>
        refine .inr (.inl ⟨trivial, rfl, fun k => ?_⟩)
        simp only [Option.any_none, Bool.false_eq_true, if_false]
        refine healthOf_modify releases release.id _ _ ?_ k
        exact fun row _ => ⟨rfl, rfl⟩
      | some rate =>
        rw [Option.any_some] at hgoes herror ⊢
        cases hle : threshold.le rate with
        | true =>
          rw [hle] at hgoes
          cases hgoes
        | false =>
          refine .inr (.inr ⟨rate, hle, ?_⟩)
          simp only [Bool.false_eq_true, if_false, Table.find_modify_self, Option.some_or]

/-- A turn that rechecks a breach sends no step under one. -/
theorem sent_not_breached {out : Outcomes} {now : ℤ} {release : Release} {releases : Releases}
    (hfind : releases.find release.id = some release) {s : Sent}
    (hs : s ∈ (releaseTurn out now release releases).2)
    (hrecheck : Turn.RechecksBreach ⟨release, now, out, (releaseTurn out now release releases).2⟩) :
    s.release.breached = false := by
  have hhealth := (syncTurn_frame out now release releases).2 release.id
  unfold releaseTurn at hs
  dsimp only at hs
  split at hs
  · cases hs
  · rename_i hgo
    split at hs
    · rename_i hgoes
      obtain ⟨hrow, hdue, herror⟩ := sent_takeStep hs
      have hrolling : release.state = .rolling := by
        by_contra hne
        exact hgo (by simp [hne])
      have hstep : stepDue now release = true := by simp [stepDue, hrolling, hdue]
      have hrecheck := hrecheck hstep
      dsimp only at hrecheck
      rw [healthOf, healthOf, hfind] at hhealth
      -- the recorded health is the one the turn began with, unless a rate was read
      have hsame (h : healthOf
          (checkHealth out now release (syncTurn out now release releases).1).releases release.id =
            healthOf (syncTurn out now release releases).1 release.id) :
          s.release.breached = release.breached := by
        rw [healthOf, healthOf, hrow, hhealth] at h
        simp only [Option.map_some, Option.some.injEq, Prod.mk.injEq] at h
        unfold Release.breached
        rw [h.1, h.2]
      cases hthreshold : release.policy.crashRateThreshold with
      | none =>
        rw [hsame (by rw [checkHealth, hthreshold])]
        unfold Release.breached
        rw [hthreshold]
        cases release.crashRate <;> rfl
      | some threshold =>
        obtain ⟨hnot, hnone, htable⟩ | ⟨hcheck, hrate, htable⟩ | ⟨rate, hbelow, htable⟩ :=
          checkHealth_cases hthreshold hgoes (herror (by rw [hthreshold]; rfl))
        · rw [hsame (by rw [htable])]
          by_contra hbreached
          have := hrecheck (by simpa using hbreached)
          rw [hnot, hnone] at this
          cases this
        · rw [hsame (htable _)]
          by_contra hbreached
          have := hrecheck (by simpa using hbreached)
          rw [hcheck] at this
          exact this hrate
        · rw [htable] at hrow
          obtain ⟨old, hold, hrow⟩ := Option.map_eq_some_iff.mp hrow
          rw [hold] at hhealth
          simp only [Option.map_some, Option.some.injEq, Prod.mk.injEq] at hhealth
          unfold Release.breached
          rw [← hrow]
          dsimp only
          rw [hhealth.2, hthreshold]
          exact hbelow
    · cases hs

/-! ## Whole passes -/

theorem runTurns_cons (tick : Tick) (release : Release) (rest : List Release)
    (releases : Releases) :
    runTurns tick (release :: rest) releases =
      let turn := releaseTurn (tick.outcomes release.id) tick.now release releases
      ((runTurns tick rest turn.1).1,
        ⟨release, tick.now, tick.outcomes release.id, turn.2⟩ :: (runTurns tick rest turn.1).2) :=
  rfl

/-- The rows of a pass are rows of the table, each once. -/
theorem tickRows_spec (tick : Tick) (releases : Releases) :
    ((tickRows tick releases).map Release.id).Nodup ∧
      ∀ release ∈ tickRows tick releases, releases.find release.id = some release := by
  unfold tickRows
  dsimp only
  set live := releases.rows.filter fun release => release.store = .googlePlay &&
    (release.state = .rolling || release.state = .paused || release.state = .halted)
  set sorted := live.mergeSort _ with hsorted
  have hperm : sorted.Perm live := List.mergeSort_perm _ _
  have hnodup : (sorted.map Release.id).Nodup :=
    (hperm.map Release.id).nodup_iff.mpr
      (releases.nodup.sublist (List.Sublist.map Release.id List.filter_sublist))
  have hmem (release : Release) (h : release ∈ sorted) :
      releases.find release.id = some release :=
    Table.find_of_mem (List.mem_of_mem_filter (hperm.mem_iff.mp h))
  split
  · exact ⟨hnodup, hmem⟩
  · exact ⟨hnodup.sublist (List.Sublist.map Release.id (List.take_sublist _ _)),
      fun release h => hmem release (List.mem_of_mem_take h)⟩

/-- Rows that are still to come keep the row they were read as. -/
theorem find_after_turn {tick : Tick} {release : Release} {rest : List Release}
    {releases : Releases} (hnodup : ((release :: rest).map Release.id).Nodup)
    (hfind : ∀ row ∈ release :: rest, releases.find row.id = some row) :
    ∀ row ∈ rest, (releaseTurn (tick.outcomes release.id) tick.now release releases).1.find row.id =
      some row := by
  intro row hrow
  rw [List.map_cons, List.nodup_cons] at hnodup
  have hne : row.id ≠ release.id := fun heq => hnodup.1 (heq ▸ List.mem_map_of_mem hrow)
  rw [sameElsewhere_releaseTurn _ _ _ _ _ hne]
  exact hfind row (List.mem_cons_of_mem _ hrow)

/-- Every turn of a pass was given the row as it was recorded, and that release's answers. -/
theorem turns_of_runTurns {tick : Tick} {rows : List Release} {releases : Releases}
    (hnodup : (rows.map Release.id).Nodup)
    (hfind : ∀ row ∈ rows, releases.find row.id = some row) {turn : Turn}
    (h : turn ∈ (runTurns tick rows releases).2) :
    turn.release ∈ rows ∧ turn.out = tick.outcomes turn.release.id ∧
      ∃ before : Releases, before.find turn.release.id = some turn.release ∧ turn.sent =
        (releaseTurn turn.out turn.now turn.release before).2 := by
  induction rows generalizing releases with
  | nil => cases h
  | cons release rest ih =>
    rw [runTurns_cons] at h
    rcases List.mem_cons.mp h with rfl | h
    · exact ⟨List.mem_cons_self, rfl, releases, hfind _ List.mem_cons_self, rfl⟩
    · obtain ⟨hmem, hrest⟩ := ih (List.nodup_cons.mp hnodup).2 (find_after_turn hnodup hfind) h
      exact ⟨List.mem_cons_of_mem _ hmem, hrest⟩

/-- A pass whose turns recheck breaches sends no step under one. -/
theorem runRolloutTick_sent {tick : Tick} {releases : Releases} {turn : Turn}
    (h : turn ∈ (runRolloutTick tick releases).2) (hrecheck : turn.RechecksBreach) {s : Sent}
    (hs : s ∈ turn.sent) : s.release.breached = false := by
  obtain ⟨hnodup, hfind⟩ := tickRows_spec tick releases
  obtain ⟨-, -, before, hbefore, hsent⟩ := turns_of_runTurns hnodup hfind h
  rw [hsent] at hs
  exact sent_not_breached hbefore hs hrecheck

theorem runRollout_cons (tick : Tick) (ticks : List Tick) (releases : Releases) :
    runRollout (tick :: ticks) releases =
      ((runRollout ticks (runRolloutTick tick releases).1).1,
        (runRolloutTick tick releases).2 ++
          (runRollout ticks (runRolloutTick tick releases).1).2) := rfl

theorem runRollout_sent {ticks : List Tick} {releases : Releases} {turn : Turn}
    (h : turn ∈ (runRollout ticks releases).2) (hrecheck : turn.RechecksBreach) {s : Sent}
    (hs : s ∈ turn.sent) : s.release.breached = false := by
  induction ticks generalizing releases with
  | nil => cases h
  | cons tick ticks ih =>
    rw [runRollout_cons] at h
    rcases List.mem_append.mp h with h | h
    · exact runRolloutTick_sent h hrecheck hs
    · exact ih h

/-! ## Where the store heeds every halt -/

/-- The release has a fraction between 0 and 1, and is not rolling under a recorded breach. -/
def Release.Quiet (release : Release) : Prop :=
  validateFraction release.rolloutFraction = .ok () ∧
    (release.state = .rolling → release.breached = false)

/-- No release is rolling under a recorded breach. -/
def Quiet (releases : Releases) : Prop := ∀ row ∈ releases.rows, row.Quiet

/-- In a turn, the store accepts the halt that a breach asks for, and does not report a release
that was halted under a breach as rolling again. -/
structure Turn.StoreHeeds (turn : Turn) : Prop where
  accepts : ∀ threshold rate, turn.release.policy.crashRateThreshold = some threshold →
    turn.out.crashRate = .ok (some rate) → threshold.le rate → turn.out.apply .halt = .ok ()
  stays : turn.release.state = .halted → turn.release.breached → ∀ fraction,
    turn.out.observe ≠ .ok (some (.rolling fraction))

/-- The row of one key is quiet, if there is one. -/
def QuietAt (id : Text) (releases : Releases) : Prop :=
  ∀ row, releases.find id = some row → row.Quiet

theorem quiet_of_sameElsewhere {id : Text} {a b : Releases} (ha : Quiet a)
    (hsame : SameElsewhere id a b) (hb : QuietAt id b) : Quiet b := by
  rw [Quiet, Table.forall_mem_iff]
  intro k row hrow
  by_cases hk : k = id
  · exact hb row (hk ▸ hrow)
  · exact ha row (Table.mem_of_find ((hsame k hk) ▸ hrow))

theorem quietAt_of_quiet {releases : Releases} (h : Quiet releases) (id : Text) :
    QuietAt id releases := fun row hrow => h row (Table.mem_of_find hrow)

theorem quietAt_modify {id : Text} {releases : Releases} {f : Release → Release}
    {hf : ∀ row, (f row).id = row.id} (h : ∀ row, releases.find id = some row → (f row).Quiet) :
    QuietAt id (releases.modify id f hf) := by
  intro row hrow
  rw [Table.find_modify_self, Option.map_eq_some_iff] at hrow
  obtain ⟨old, hold, rfl⟩ := hrow
  exact h old hold

/-- A transition keeps the row quiet unless it sets a breached release rolling that was not. -/
theorem quietAt_transition {out : Outcomes} {releases : Releases} {id : Text}
    {change : ReleaseChange} (h : QuietAt id releases)
    (hroll : change.toState = .rolling → ∀ current, releases.find id = some current →
      checkChange current change = .ok () → current.state = .rolling ∨ current.breached = false) :
    QuietAt id (transitionRelease out releases id change).releases := by
  intro row hrow
  obtain hsame | ⟨-, current, hfind, hcheck, rfl⟩ := find_transition hrow
  · exact h row hsame
  · refine ⟨(checkChange_ok hcheck).2, fun hstate => ?_⟩
    obtain hrolling | hbreached := hroll hstate current hfind hcheck
    · exact (h current hfind).2 hrolling
    · exact hbreached

/-- A change held against a state goes from that state. -/
theorem state_of_checkChange {current : Release} {change : ReleaseChange} {state : ReleaseState}
    {fraction : F64} (hexpect : change.expect = some (state, fraction))
    (h : checkChange current change = .ok ()) : current.state = state := by
  have hmoved := (checkChange_ok h).1
  rw [hexpect] at hmoved
  by_contra hne
  simp [movedSince, Ne.symm hne] at hmoved

/-- A release with a valid fraction that the store lets halt is not rolling afterwards. -/
theorem halt_not_rolling {out : Outcomes} {releases : Releases} {id : Text}
    (h : ∀ row, releases.find id = some row → validateFraction row.rolloutFraction = .ok ())
    (happly : out.apply .halt = .ok ()) {row : Release}
    (hrow : (transitionRelease out releases id haltChange).releases.find id = some row) :
    row.state ≠ .rolling := by
  obtain hsame | ⟨-, current, -, -, rfl⟩ := find_transition hrow
  · intro hrolling
    have hvalid := h row hsame
    have hcheck : checkChange row haltChange = .ok () := by
      unfold checkChange
      have hfraction : haltChange.fractionOf row = row.rolloutFraction := rfl
      rw [hfraction, hvalid, hrolling]
      simp [movedSince, haltChange, ReleaseState.canTransitionTo, ReleaseState.validTransitions]
    have hsends : haltChange.sends row = some .halt := by
      unfold ReleaseChange.sends
      rw [hrolling]
      rfl
    have hfinite : row.rolloutFraction.isFinite = true := by
      unfold validateFraction at hvalid
      split at hvalid
      · rename_i hin
        simp only [Bool.and_eq_true] at hin
        exact hin.1.1
      · cases hvalid
    -- every check passes, so the row was changed after all
    unfold transitionRelease at hrow
    rw [hsame] at hrow
    dsimp only at hrow
    rw [hcheck] at hrow
    dsimp only at hrow
    rw [hsends, Option.elim_some, happly] at hrow
    dsimp only at hrow
    rw [if_pos (F64.eq_self_of_isFinite hfinite), Table.find_modify_self, hsame] at hrow
    simp only [Option.map_some, Option.some.injEq] at hrow
    rw [← hrow] at hrolling
    cases hrolling
  · intro hrolling
    cases hrolling

theorem applySyncChanges_single (out : Outcomes) (id : Text) (state : ReleaseState)
    (fraction : Option F64) (expect : Option (ReleaseState × F64)) (releases : Releases) :
    (applySyncChanges out id [(state, fraction)] expect releases).2 =
      (transitionRelease out releases id
        { toState := state, toFraction := fraction, expect, fromStore := true }).releases := by
  unfold applySyncChanges
  dsimp only
  split
  · rfl
  · rfl

/-- A rolling release at 100% that the store completed is recorded as complete. -/
theorem transition_complete {out : Outcomes} {releases : Releases} {id : Text} {row : Release}
    (hfind : releases.find id = some row) (hstate : row.state = .rolling)
    (hfraction : row.rolloutFraction = .finite 1) :
    (transitionRelease out releases id
      { toState := .complete, toFraction := none, expect := none, fromStore := true }).result =
        .ok () := by
  have hone : validateFraction (.finite 1) = .ok () := by decide +kernel
  unfold transitionRelease
  rw [hfind]
  dsimp only
  have hcheck : checkChange row
      { toState := .complete, toFraction := none, expect := none, fromStore := true } = .ok () := by
    unfold checkChange
    simp only [ReleaseChange.fractionOf, hone, hstate]
    simp [movedSince, ReleaseState.canTransitionTo, ReleaseState.validTransitions]
  rw [hcheck]
  dsimp only [ReleaseChange.sends]
  rw [if_pos rfl, Option.elim_none, hfraction]
  rfl

/-- A sync keeps a release quiet that the store does not set rolling again. -/
theorem quietAt_applySyncChanges (out : Outcomes) {release : Release} {releases : Releases}
    (observed : StoreObservation) (h : QuietAt release.id releases)
    (hstays : release.state = .halted → (∀ row, releases.find release.id = some row →
      row.breached = true → ∀ fraction, observed ≠ .rolling fraction)) :
    QuietAt release.id (applySyncChanges out release.id
      (storeSyncChanges release.state release.rolloutFraction observed)
      (some (release.state, release.rolloutFraction)) releases).2 := by
  -- a single change to another state than rolling
  have hother (state : ReleaseState) (hne : state ≠ .rolling) :
      QuietAt release.id (applySyncChanges out release.id [(state, none)]
        (some (release.state, release.rolloutFraction)) releases).2 := by
    rw [applySyncChanges_single]
    exact quietAt_transition h fun hroll => absurd hroll hne
  unfold storeSyncChanges
  split
  · exact hother .failed (by decide)
  · exact hother .failed (by decide)
  · exact hother .failed (by decide)
  · exact hother .complete (by decide)
  · exact hother .complete (by decide)
  · -- a halted release that the store completed passes through rolling at 100%
    unfold applySyncChanges
    dsimp only
    obtain ⟨current, hfind, hcheck, hresult, hmodify⟩ | ⟨⟨error, herror⟩, hsame⟩ :=
      transitionRelease_cases out releases release.id
        { toState := .rolling, toFraction := some (.finite 1),
          expect := some (release.state, release.rolloutFraction), fromStore := true }
    · rw [hresult]
      dsimp only
      rw [applySyncChanges_single, hmodify]
      intro row hrow
      obtain ⟨changed, hchanged, hok, -, htable⟩ | ⟨⟨error, herror⟩, -⟩ :=
        transitionRelease_cases out _ release.id
          { toState := .complete, toFraction := none, expect := none, fromStore := true }
      · rw [htable, Table.find_modify_self, hchanged] at hrow
        simp only [Option.map_some, Option.some.injEq] at hrow
        rw [← hrow]
        exact ⟨(checkChange_ok hok).2, fun hstate => by cases hstate⟩
      · rw [transition_complete (by rw [Table.find_modify_self, hfind]; rfl) rfl rfl] at herror
        cases herror
    · rw [herror, hsame]
      exact h
  · exact hother .halted (by decide)
  · exact hother .halted (by decide)
  · rename_i store hstate
    split
    · rw [applySyncChanges_single]
      refine quietAt_transition h fun _ current _ hcheck => .inl ?_
      exact (state_of_checkChange rfl hcheck).trans hstate
    · exact h
  · rename_i store hstate
    rw [applySyncChanges_single]
    refine quietAt_transition h fun _ current hfind _ => .inr ?_
    by_contra hbreached
    exact hstays hstate current hfind (by simpa using hbreached) store rfl
  · exact h

theorem quietAt_syncTurn {turn : Turn} {releases : Releases}
    (hfind : releases.find turn.release.id = some turn.release) (h : Quiet releases)
    (hheeds : turn.StoreHeeds) :
    QuietAt turn.release.id (syncTurn turn.out turn.now turn.release releases).1 := by
  have hsynced : QuietAt turn.release.id
      (syncReleaseWithStore turn.out turn.now turn.release releases).2 := by
    have hmodify : QuietAt turn.release.id (releases.modify turn.release.id
        (fun row => { row with storeCheckedAt := some turn.now }) fun _ => rfl) :=
      quietAt_modify fun row hrow => quietAt_of_quiet h _ row hrow
    unfold syncReleaseWithStore
    dsimp only
    split
    · exact hmodify
    · exact hmodify
    · rename_i observed hobserve
      split
      · exact hmodify
      · have hchanges := quietAt_applySyncChanges turn.out observed hmodify ?_
        · split <;> rename_i heq <;> rw [heq] at hchanges <;> exact hchanges
        · intro hhalted row hrow hbreached fraction heq
          rw [Table.find_modify_self, hfind, Option.map_some, Option.some.injEq] at hrow
          rw [← hrow] at hbreached
          exact hheeds.stays hhalted hbreached fraction (heq ▸ hobserve)
  unfold syncTurn
  split
  · split <;> rename_i heq <;> rw [heq] at hsynced <;> exact hsynced
  · exact quietAt_of_quiet h _

/-- The health check keeps a release quiet whose halt the store accepts. -/
theorem quietAt_checkHealth {turn : Turn} {releases : Releases}
    (h : QuietAt turn.release.id releases)
    (hhealth : healthOf releases turn.release.id =
      some (turn.release.crashRate, turn.release.policy))
    (hheeds : turn.StoreHeeds) :
    QuietAt turn.release.id (checkHealth turn.out turn.now turn.release releases).releases := by
  unfold checkHealth
  split
  · exact h
  · rename_i threshold hthreshold
    split
    · exact h
    · split
      · rename_i rate hrate
        dsimp only
        have hvalid : ∀ row, (releases.modify turn.release.id (fun row =>
            { row with crashRate := rate.or row.crashRate, crashRateCheckedAt := some turn.now,
                       healthError := none }) fun _ => rfl).find turn.release.id = some row →
            validateFraction row.rolloutFraction = .ok () := by
          intro row hrow
          rw [Table.find_modify_self, Option.map_eq_some_iff] at hrow
          obtain ⟨old, hold, rfl⟩ := hrow
          exact (h old hold).1
        split
        · -- a breach: the release is halted
          rename_i hbreach
          cases rate with
          | none => cases hbreach
          | some rate =>
            intro row hrow
            have happly := hheeds.accepts threshold rate hthreshold hrate hbreach
            have hnot := halt_not_rolling hvalid happly hrow
            refine ⟨?_, fun hrolling => absurd hrolling hnot⟩
            obtain hsame | ⟨-, current, -, hcheck, rfl⟩ := find_transition hrow
            · exact hvalid row hsame
            · exact (checkChange_ok hcheck).2
        · rename_i hbelow
          dsimp only
          refine quietAt_modify fun row hrow => ⟨(h row hrow).1, fun hrolling => ?_⟩
          rw [healthOf, hrow] at hhealth
          simp only [Option.map_some, Option.some.injEq, Prod.mk.injEq] at hhealth
          cases rate with
          | none => exact (h row hrow).2 hrolling
          | some rate =>
            unfold Release.breached
            dsimp only [Option.some_or]
            rw [hhealth.2, hthreshold]
            simpa using hbelow
      · dsimp only
        exact quietAt_modify fun row hrow => h row hrow

theorem quietAt_takeStep {out : Outcomes} {now : ℤ} {release : Release}
    {healthError : Option Text} {releases : Releases} (h : QuietAt release.id releases) :
    QuietAt release.id (takeStep out now release healthError releases).1 := by
  unfold takeStep
  split
  · exact h
  · split
    · exact h
    · split
      · exact h
      · refine quietAt_transition h fun _ current _ hcheck => .inl ?_
        exact state_of_checkChange rfl hcheck

/-- A turn in which the store heeds the monitor keeps every release quiet. -/
theorem quiet_releaseTurn {turn : Turn} {releases : Releases}
    (hfind : releases.find turn.release.id = some turn.release) (h : Quiet releases)
    (hheeds : turn.StoreHeeds) :
    Quiet (releaseTurn turn.out turn.now turn.release releases).1 := by
  refine quiet_of_sameElsewhere h (sameElsewhere_releaseTurn _ _ _ _) ?_
  have hsync := quietAt_syncTurn hfind h hheeds
  have hhealth := (syncTurn_frame turn.out turn.now turn.release releases).2 turn.release.id
  unfold releaseTurn
  dsimp only
  split
  · exact hsync
  · have hchecked := quietAt_checkHealth hsync
      (hhealth.trans (by rw [healthOf, hfind]; rfl)) hheeds
    split
    · exact quietAt_takeStep hchecked
    · exact hchecked

theorem quiet_runTurns {tick : Tick} {rows : List Release} {releases : Releases}
    (hnodup : (rows.map Release.id).Nodup)
    (hfind : ∀ row ∈ rows, releases.find row.id = some row) (h : Quiet releases)
    (hheeds : ∀ turn ∈ (runTurns tick rows releases).2, turn.StoreHeeds) :
    Quiet (runTurns tick rows releases).1 := by
  induction rows generalizing releases with
  | nil => exact h
  | cons release rest ih =>
    rw [runTurns_cons] at hheeds ⊢
    have hturn := hheeds _ List.mem_cons_self
    exact ih (List.nodup_cons.mp hnodup).2 (find_after_turn hnodup hfind)
      (quiet_releaseTurn (hfind _ List.mem_cons_self) h hturn)
      fun turn hmem => hheeds turn (List.mem_cons_of_mem _ hmem)

/-- In a run from a quiet table in which the store heeds the monitor, every turn meets a quiet
release. -/
theorem quiet_runRollout {ticks : List Tick} {releases : Releases} (h : Quiet releases)
    (hheeds : ∀ turn ∈ (runRollout ticks releases).2, turn.StoreHeeds) :
    ∀ turn ∈ (runRollout ticks releases).2, turn.release.Quiet := by
  induction ticks generalizing releases with
  | nil =>
    intro turn hturn
    cases hturn
  | cons tick ticks ih =>
    rw [runRollout_cons] at hheeds ⊢
    obtain ⟨hnodup, hfind⟩ := tickRows_spec tick releases
    intro turn hturn
    rcases List.mem_append.mp hturn with hturn | hturn
    · obtain ⟨hmem, -⟩ := turns_of_runTurns hnodup hfind hturn
      exact h _ (Table.mem_of_find (hfind _ hmem))
    · refine ih ?_ (fun turn hmem => hheeds turn (List.mem_append_right _ hmem)) turn hturn
      exact quiet_runTurns hnodup hfind h fun turn hmem =>
        hheeds turn (List.mem_append_left _ hmem)

/-- No scheduled step is sent while the recorded crash rate is at or above the threshold: in every
run whose turns recheck a breach before the step, and in every run from a quiet table in which
the store accepts the halts and resumes no breached release. -/
theorem no_step_under_breach (ticks : List Tick) (releases : Releases)
    (h : (∀ turn ∈ (runRollout ticks releases).2, turn.RechecksBreach) ∨
      (Quiet releases ∧ ∀ turn ∈ (runRollout ticks releases).2, turn.StoreHeeds)) :
    ∀ turn ∈ (runRollout ticks releases).2, ∀ s ∈ turn.sent, s.release.breached = false := by
  intro turn hturn s hs
  refine runRollout_sent hturn ?_ hs
  obtain hrecheck | ⟨hquiet, hheeds⟩ := h
  · exact hrecheck turn hturn
  · intro hdue hbreached
    have hq := quiet_runRollout hquiet hheeds turn hturn
    have hrolling : turn.release.state = .rolling := by
      simp only [stepDue, Bool.and_eq_true, decide_eq_true_eq] at hdue
      exact hdue.1
    rw [hq.2 hrolling] at hbreached
    cases hbreached

/-- A Google Play release at 1/64 with a step to 1/2 due at 100 and a threshold of 1/32. -/
def playRelease : Release :=
  { id := "r", store := .googlePlay, track := "beta", state := .rolling
    rolloutFraction := .finite (1 / 64), nextStepAt := some 100, crashRate := none
    crashRateCheckedAt := none, healthError := none, storeCheckedAt := none
    policy := { steps := [.finite (1 / 64), .finite (1 / 2), .finite 1], intervalHours := .finite 24
                crashRateThreshold := some (.finite (1 / 32)), approval := .none }
    approvedAt := none }

/-- A table with that release only. -/
def playReleases : Releases := ⟨[playRelease], List.nodup_singleton _⟩

/-- A pass that reads a crash rate and is answered so when it changes the store. -/
def playTick (now : ℤ) (rate : ℚ) (answer : Except Text Unit) : Tick :=
  { now, batch := 100
    outcomes := fun _ =>
      { observe := .ok none, crashRate := .ok (some (.finite rate)), apply := fun _ => answer
        clock := fun _ => now } }

theorem no_step_under_breach_healthy :
    ((runRollout [playTick 100 (1 / 64) (.ok ())] playReleases).2.flatMap Turn.sent).map
        (fun s => (s.release.crashRate, s.change)) =
      [(some (.finite (1 / 64)), .rollout (.finite (1 / 2)))] ∧
    ∀ turn ∈ (runRollout [playTick 100 (1 / 64) (.ok ())] playReleases).2, ∀ s ∈ turn.sent,
      s.release.breached = false := by
  refine ⟨by decide +kernel, no_step_under_breach _ _ (.inr ⟨?_, ?_⟩)⟩
  · intro row hrow
    rw [List.mem_singleton.mp hrow]
    exact ⟨by decide +kernel, fun _ => rfl⟩
  · intro turn hturn
    rw [runRollout_cons] at hturn
    obtain ⟨hnodup, hfind⟩ := tickRows_spec (playTick 100 (1 / 64) (.ok ())) playReleases
    rcases List.mem_append.mp hturn with hturn | hturn
    · obtain ⟨-, hout, -⟩ := turns_of_runTurns hnodup hfind hturn
      constructor
      · intro _ _ _ _ _
        rw [hout]
        rfl
      · intro _ _ _ h
        rw [hout] at h
        cases h
    · cases hturn

/-- The halt of a breach is refused, and a minute later the scheduled step is taken. -/
theorem step_after_refused_halt :
    ((runRollout [playTick 100 (1 / 16) (.error "unavailable"), playTick 160 (1 / 16) (.ok ())]
      playReleases).2.flatMap Turn.sent).map (fun s => (s.release.breached, s.change)) =
        [(true, .rollout (.finite (1 / 2)))] := by
  decide +kernel

end OoreBuild
