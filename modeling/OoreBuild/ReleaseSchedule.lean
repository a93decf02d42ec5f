import OoreBuild.Environments
import OoreBuild.Rollout

/-!
# The schedule of a release

The time of a release's next step is kept in its row, beside the state, the fraction and the
approval that decide it. Inserting a release, moving it and approving it write all of them together;
the monitor's checks of the store and the crash rate write other columns. In every table that these
writes lead to, whatever their order, the time is set exactly for the releases that the monitor
drives (`reached_ok`).
-/

namespace OoreBuild

open Text

/-! ## Writes -/

/-- The row of a release when it is inserted. -/
def insertedRelease (id : Text) (input : NewRelease) (now : ℤ) : Release :=
  let row : Release :=
    { id, store := input.store, track := trim input.track, state := input.state
      rolloutFraction := input.rolloutFraction, nextStepAt := none, crashRate := none
      crashRateCheckedAt := none, healthError := none, storeCheckedAt := none
      policy := input.policy, approvedAt := none }
  { row with nextStepAt := nextStepAt row now }

/-- The row of a release with an approval. A draft starts at the next tick; a live release waits a
full interval. -/
def approvedRelease (row : Release) (now : ℤ) : Release :=
  let approved := { row with approvedAt := some now }
  { approved with nextStepAt := (nextStepAt approved now).map fun at_ =>
      if row.rolloutFraction.eq (.finite 0) then now else at_ }

/-- What one statement, or one change under the lock of a release, does to the table. -/
inductive ReleaseWrite where
  | insert (id : Text) (input : NewRelease) (now : ℤ)
  | transition (id : Text) (change : ReleaseChange) (out : Outcomes)
  | approve (id : Text) (now : ℤ)
  | checkStore (id : Text) (now : ℤ)
  | recordCrashRate (id : Text) (rate : Option F64) (now : ℤ)
  | recordHealthError (id : Text) (message : Text) (now : ℤ)
  /-- With its build or its project. -/
  | remove (id : Text)

def writeRelease (releases : Releases) : ReleaseWrite → Releases
  | .insert id input now =>
    if h : id ∉ releases.rows.map Release.id then
      if (checkNewRelease input).toBool then releases.insert (insertedRelease id input now) h
      else releases
    else releases
  | .transition id change out => (transitionRelease out releases id change).releases
  | .approve id now =>
    if (releases.find id).any awaitingApproval then
      releases.modify id (fun row => approvedRelease row now) fun _ => rfl
    else releases
  | .checkStore id now =>
    releases.modify id (fun row => { row with storeCheckedAt := some now }) (storeChecked_id now)
  | .recordCrashRate id rate now => releases.modify id (fun row =>
      { row with crashRate := rate.or row.crashRate, crashRateCheckedAt := some now,
                 healthError := none }) fun _ => rfl
  | .recordHealthError id message now => releases.modify id (fun row =>
      { row with crashRateCheckedAt := some now, healthError := some message }) fun _ => rfl
  | .remove id => releases.erase id

/-- The second table comes of writes to the first. -/
def Reaches (before after : Releases) : Prop :=
  ∃ writes : List ReleaseWrite, after = writes.foldl writeRelease before

theorem Reaches.refl (releases : Releases) : Reaches releases releases := ⟨[], rfl⟩

theorem Reaches.trans {a b c : Releases} (hab : Reaches a b) (hbc : Reaches b c) : Reaches a c := by
  obtain ⟨first, rfl⟩ := hab
  obtain ⟨second, rfl⟩ := hbc
  exact ⟨first ++ second, List.foldl_append.symm⟩

theorem reaches_write (releases : Releases) (write : ReleaseWrite) :
    Reaches releases (writeRelease releases write) := ⟨[write], rfl⟩

/-! ## Which releases have a next step -/

/-- The monitor takes the steps of the release: it is rolling out on Google Play, not held for
approval, and its policy has a step above its fraction. -/
def Release.driven (row : Release) : Bool :=
  row.store = .googlePlay && row.state = .rolling && !awaitingApproval row &&
    (row.policy.nextStep row.rolloutFraction).isSome

structure Release.Ok (row : Release) : Prop where
  policy : row.policy.validate = .ok ()
  fraction : validateFraction row.rolloutFraction = .ok ()
  scheduled : row.nextStepAt.isSome = row.driven

def ReleasesOk (releases : Releases) : Prop := ∀ row ∈ releases.rows, row.Ok

theorem isSome_nextStepAt (row : Release) (now : ℤ) : (nextStepAt row now).isSome = row.driven := by
  unfold nextStepAt
  show Option.isSome (if row.driven = true then _ else none) = row.driven
  cases row.driven <;> rfl

theorem releasesOk_iff {releases : Releases} :
    ReleasesOk releases ↔ ∀ id row, releases.find id = some row → row.Ok := Table.forall_mem_iff

theorem ReleasesOk.modify {releases : Releases} (h : ReleasesOk releases) {id : Text}
    {f : Release → Release} (hf : ∀ row, (f row).id = row.id)
    (hok : ∀ row : Release, row.Ok → (f row).Ok) : ReleasesOk (releases.modify id f hf) := by
  rw [releasesOk_iff] at h ⊢
  intro k row hrow
  rw [Table.find_modify] at hrow
  split_ifs at hrow with hk
  · subst hk
    obtain ⟨old, hold, rfl⟩ := Option.map_eq_some_iff.mp hrow
    exact hok old (h k old hold)
  · exact h k row hrow

/-- Columns that no schedule depends on. -/
theorem Release.Ok.congr {row row' : Release} (h : row.Ok) (hpolicy : row'.policy = row.policy)
    (hfraction : row'.rolloutFraction = row.rolloutFraction)
    (hstep : row'.nextStepAt = row.nextStepAt) (hdriven : row'.driven = row.driven) : row'.Ok := by
  constructor
  · rw [hpolicy]
    exact h.policy
  · rw [hfraction]
    exact h.fraction
  · rw [hstep, hdriven]
    exact h.scheduled

theorem checkNewRelease_ok {input : NewRelease} (h : (checkNewRelease input).toBool = true) :
    input.policy.validate = .ok () ∧ validateFraction input.rolloutFraction = .ok () := by
  unfold checkNewRelease at h
  cases hpolicy : input.policy.validate with
  | error error =>
    rw [hpolicy] at h
    cases h
  | ok _ =>
    rw [hpolicy] at h
    cases hfraction : validateFraction input.rolloutFraction with
    | error error =>
      rw [hfraction] at h
      cases h
    | ok _ => exact ⟨rfl, rfl⟩

theorem insertedRelease_ok {id : Text} {input : NewRelease} {now : ℤ}
    (h : (checkNewRelease input).toBool = true) : (insertedRelease id input now).Ok := by
  obtain ⟨hpolicy, hfraction⟩ := checkNewRelease_ok h
  exact ⟨hpolicy, hfraction, isSome_nextStepAt _ now⟩

theorem approvedRelease_ok {row : Release} (h : row.Ok) (now : ℤ) :
    (approvedRelease row now).Ok := by
  refine ⟨h.policy, h.fraction, ?_⟩
  show ((nextStepAt _ now).map _).isSome = _
  rw [Option.isSome_map]
  exact isSome_nextStepAt _ now

/-- A change writes the time together with what it depends on. -/
theorem applyTo_ok {change : ReleaseChange} {current : Release} {now : ℤ} (h : current.Ok)
    (hcheck : checkChange current change = .ok ()) : (change.applyTo current now).Ok :=
  ⟨h.policy, (checkChange_ok hcheck).2, isSome_nextStepAt _ now⟩

theorem writeRelease_ok {releases : Releases} (h : ReleasesOk releases) (write : ReleaseWrite) :
    ReleasesOk (writeRelease releases write) := by
  cases write with
  | insert id input now =>
    simp only [writeRelease]
    split
    · rename_i hnew
      split
      · rename_i hchecked
        rw [releasesOk_iff] at h ⊢
        intro k row hrow
        have hrow :=
          (Table.find_insert releases (insertedRelease id input now) hnew k).symm.trans hrow
        split_ifs at hrow
        · obtain rfl := Option.some.inj hrow
          exact insertedRelease_ok hchecked
        · exact h k row hrow
      · exact h
    · exact h
  | transition id change out =>
    rw [releasesOk_iff] at h ⊢
    intro k row hrow
    rcases find_transition hrow with hsame | ⟨-, current, hfind, hcheck, rfl⟩
    · exact h k row hsame
    · exact applyTo_ok (h id current hfind) hcheck
  | approve id now =>
    simp only [writeRelease]
    split_ifs
    · exact h.modify _ fun row hrow => approvedRelease_ok hrow now
    · exact h
  | checkStore id now =>
    apply h.modify
    · exact fun _ => rfl
    · exact fun row hrow => hrow.congr rfl rfl rfl rfl
  | recordCrashRate id rate now =>
    apply h.modify
    · exact fun _ => rfl
    · exact fun row hrow => hrow.congr rfl rfl rfl rfl
  | recordHealthError id message now =>
    apply h.modify
    · exact fun _ => rfl
    · exact fun row hrow => hrow.congr rfl rfl rfl rfl
  | remove id =>
    rw [releasesOk_iff] at h ⊢
    intro k row hrow
    refine h k row ?_
    rw [writeRelease, Table.find_erase] at hrow
    split_ifs at hrow
    exact hrow

theorem reached_ok {before after : Releases} (h : ReleasesOk before)
    (hreach : Reaches before after) : ReleasesOk after := by
  obtain ⟨writes, rfl⟩ := hreach
  induction writes generalizing before with
  | nil => exact h
  | cons write writes ih => exact ih (writeRelease_ok h write)

/-! ## The monitor -/

theorem reaches_applySyncChanges (out : Outcomes) (id : Text)
    (changes : List (ReleaseState × Option F64)) (expect : Option (ReleaseState × F64))
    (releases : Releases) :
    Reaches releases (applySyncChanges out id changes expect releases).2 := by
  induction changes generalizing expect releases with
  | nil => exact .refl releases
  | cons change rest ih =>
    obtain ⟨toState, toFraction⟩ := change
    have hfirst := reaches_write releases
      (.transition id { toState, toFraction, expect, fromStore := true } out)
    unfold applySyncChanges
    dsimp only
    split
    · exact hfirst
    · exact hfirst.trans (ih none _)

theorem reaches_syncReleaseWithStore (out : Outcomes) (now : ℤ) (release : Release)
    (releases : Releases) :
    Reaches releases (syncReleaseWithStore out now release releases).2 := by
  have hcheck := reaches_write releases (.checkStore release.id now)
  unfold syncReleaseWithStore
  dsimp only
  split
  · exact hcheck
  · exact hcheck
  · rename_i observed _
    split
    · exact hcheck
    · have hsync := hcheck.trans (reaches_applySyncChanges out release.id
        (storeSyncChanges release.state release.rolloutFraction observed)
        (some (release.state, release.rolloutFraction)) _)
      split <;> rename_i heq <;> simp only [writeRelease, heq] at hsync <;> exact hsync

theorem reaches_syncTurn (out : Outcomes) (now : ℤ) (release : Release) (releases : Releases) :
    Reaches releases (syncTurn out now release releases).1 := by
  have hsync := reaches_syncReleaseWithStore out now release releases
  unfold syncTurn
  split
  · split <;> rename_i heq <;> rw [heq] at hsync <;> exact hsync
  · exact .refl releases

theorem reaches_checkHealth (out : Outcomes) (now : ℤ) (release : Release) (releases : Releases) :
    Reaches releases (checkHealth out now release releases).releases := by
  unfold checkHealth
  split
  · exact .refl releases
  · split
    · exact .refl releases
    · split
      · rename_i rate _
        have hrate := reaches_write releases (.recordCrashRate release.id rate now)
        dsimp only
        split
        · exact hrate.trans (reaches_write _ (.transition release.id haltChange out))
        · exact hrate
      · rename_i error _
        exact reaches_write releases (.recordHealthError release.id (error.take maxReasonLen) now)

theorem reaches_takeStep (out : Outcomes) (now : ℤ) (release : Release)
    (healthError : Option Text) (releases : Releases) :
    Reaches releases (takeStep out now release healthError releases).1 := by
  unfold takeStep
  split
  · exact .refl releases
  · split
    · exact .refl releases
    · split
      · exact .refl releases
      · rename_i fraction _
        exact reaches_write releases (.transition release.id (stepChange release fraction) out)

theorem reaches_releaseTurn (out : Outcomes) (now : ℤ) (release : Release) (releases : Releases) :
    Reaches releases (releaseTurn out now release releases).1 := by
  have hsync := reaches_syncTurn out now release releases
  unfold releaseTurn
  dsimp only
  split
  · exact hsync
  · have hhealth := hsync.trans (reaches_checkHealth out now release _)
    split
    · exact hhealth.trans (reaches_takeStep out now release _ _)
    · exact hhealth

theorem reaches_runTurns (tick : Tick) (rows : List Release) (releases : Releases) :
    Reaches releases (runTurns tick rows releases).1 := by
  induction rows generalizing releases with
  | nil => exact .refl releases
  | cons release rest ih =>
    rw [runTurns_cons]
    exact (reaches_releaseTurn _ _ _ _).trans (ih _)

/-- A pass of the monitor makes only such writes. -/
theorem reaches_runRolloutTick (tick : Tick) (releases : Releases) :
    Reaches releases (runRolloutTick tick releases).1 :=
  reaches_runTurns tick (tickRows tick releases) releases

end OoreBuild
