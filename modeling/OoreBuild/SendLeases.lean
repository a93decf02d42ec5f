import OoreBuild.NotificationSends

/-!
# A delivery settles once

While attempts end within their leases, only one of them holds a delivery, and it alone writes the
result. The other two things that go wrong are attempts that are cut off at the last try and emails
that fail after some of their recipients got the message (`sends_settle`).
-/

namespace OoreBuild

namespace Sends

open Text Notifications Interleave

/-! ## What must hold -/

/-- The attempts do not hold the same delivery. -/
def Attempt.Apart (t u : Attempt) : Prop :=
  ∀ a b, t.claimed = some a → u.claimed = some b → a.id ≠ b.id

/-- A delivery that is delivered or failed stays as it is. -/
def Store.KeepsSettled (s s' : Store) : Prop :=
  ∀ id row, s.deliveries.find id = some row → row.status ≠ .pending →
    s'.deliveries.find id = some row

/-- Nobody who got the message gets it again because the send failed for somebody after. -/
def Store.NoRepeat (s : Store) : Prop :=
  ∀ e ∈ s.sent, ∀ e' ∈ s.sent, e'.deliveryId = e.deliveryId → e'.recipient = e.recipient →
    (e.deliveryId, e.attempt) ∈ s.failedSends → e'.attempt ≤ e.attempt

/-- Of two moments of a run, the later one has one sender for each delivery, what was settled
before, no attempt too many and no message repeated. -/
structure SettlesOnce (c c' : Config Store Attempt) : Prop where
  apart : c'.calls.Pairwise Attempt.Apart
  settled : c.shared.KeepsSettled c'.shared
  attempts : ∀ row ∈ c'.shared.deliveries.rows, row.attemptCount ≤ maxDeliveryAttempts
  noRepeat : c'.shared.NoRepeat

/-- Attempts end before their leases do, counted from the time they read before the claim; none is
started whose last try was cut off; and no email fails that some recipient got and that will be
tried again. -/
def inTime : Condition Store Attempt Input Answer where
  enter s
    | .tick now => s.clock ≤ now ∧ ∀ a ∈ s.underWay, now < a.leaseEnd
    | _ => True
  enterBeside _ _ _ := True
  advance s attempt answer := match attempt with
    | .claim id now =>
      s.clock < now + deliveryLeaseSecs ∧ (id, maxDeliveryAttempts) ∉ s.cutOff
    | .send claimed (_ :: _) => claimed.attempt < maxDeliveryAttempts →
      (∃ e, answer.post = .error e) →
        ∀ e ∈ s.sent, ¬ (e.deliveryId = claimed.id ∧ e.attempt = claimed.attempt)
    | _ => True
  advanceBeside _ _ _ _ := True

/-! ## The invariant -/

structure Store.Sound (s : Store) : Prop where
  held : ∀ a ∈ s.underWay, ∃ row, s.deliveries.find a.id = some row ∧ row.status = .pending ∧
    row.attemptCount = a.attempt ∧ row.nextAttemptAt = some a.leaseEnd ∧ s.clock < a.leaseEnd
  attempts : ∀ id row, s.deliveries.find id = some row → row.attemptCount ≤ maxDeliveryAttempts
  last : ∀ id row, s.deliveries.find id = some row → row.status = .pending →
    row.attemptCount = maxDeliveryAttempts →
      (∃ a ∈ s.underWay, a.id = id) ∨ (id, maxDeliveryAttempts) ∈ s.cutOff
  sent : ∀ e ∈ s.sent, ∃ row, s.deliveries.find e.deliveryId = some row ∧
    e.attempt ≤ row.attemptCount
  failed : ∀ p ∈ s.failedSends, ∃ row, s.deliveries.find p.1 = some row ∧ p.2 ≤ row.attemptCount
  reached : ∀ e ∈ s.sent, (e.deliveryId, e.attempt) ∈ s.failedSends →
    maxDeliveryAttempts ≤ e.attempt

/-- The attempt still holds what it claimed. -/
def Attempt.Ok (s : Store) : Attempt → Prop
  | .start _ => True
  | .claim _ now => now ≤ s.clock
  | .load claimed | .send claimed _ =>
    claimed ∈ s.underWay ∧ (claimed.id, claimed.attempt) ∉ s.failedSends
  | .settle claimed _ retry =>
    claimed ∈ s.underWay ∧ (retry = true → claimed.attempt < maxDeliveryAttempts)

theorem Attempt.Ok.mono {s s' : Store} {u : Attempt} (h : u.Ok s)
    (hclock : s.clock ≤ s'.clock)
    (hheld : ∀ a, u.claimed = some a → a ∈ s.underWay → a ∈ s'.underWay)
    (hfailed : ∀ a, u.claimed = some a → (a.id, a.attempt) ∈ s'.failedSends →
      (a.id, a.attempt) ∈ s.failedSends) : u.Ok s' := by
  cases u with
  | start id => trivial
  | claim id now => exact le_trans h hclock
  | load claimed | send claimed recipients =>
    exact ⟨hheld claimed rfl h.1, fun hmem => h.2 (hfailed claimed rfl hmem)⟩
  | settle claimed result retry => exact ⟨hheld claimed rfl h.1, h.2⟩

theorem Attempt.Apart.symm {t u : Attempt} (h : t.Apart u) : u.Apart t :=
  fun a b ha hb => (h b a hb ha).symm

theorem Attempt.apart_of_none {t u : Attempt} (h : u.claimed = none) : t.Apart u := by
  intro a b _ hb
  rw [h] at hb
  cases hb

/-! ## The steps -/

theorem claim_eq_some {s s' : Store} {id : ℕ} {now : ℤ} {claimed : Claimed}
    (h : s.claim id now = some (s', claimed)) :
    ∃ row, s.deliveries.find id = some row ∧ row.status = .pending ∧
      (∃ next, row.nextAttemptAt = some next ∧ next ≤ now) ∧
      claimed =
        ⟨id, row.attemptCount + 1, row.channelId, row.readable, now + deliveryLeaseSecs⟩ ∧
      s' = { s with
        deliveries := s.deliveries.modify id (·.claim now) fun row => row.claim_id now
        underWay := claimed :: s.underWay } := by
  obtain ⟨row, hrow, h⟩ := Option.bind_eq_some_iff.mp h
  split at h
  · rename_i hdue
    cases h
    obtain ⟨next, hnext, hle⟩ := (Option.any_eq_true _ _).mp hdue.2
    exact ⟨row, hrow, hdue.1, ⟨next, hnext, of_decide_eq_true hle⟩, rfl, rfl⟩
  · cases h

theorem find_insert_of_find {α κ : Type} [DecidableEq κ] {key : α → κ} {t : Table key} {row old : α}
    {k : κ} (hnew : key row ∉ t.rows.map key) (h : t.find k = some old) :
    (t.insert row hnew).find k = some old := by
  rw [Table.find_insert, if_neg, h]
  rintro rfl
  exact hnew (List.mem_map.mpr ⟨old, Table.mem_of_find h, Table.key_of_find h⟩)

theorem mem_release_iff {s : Store} {claimed a : Claimed} : a ∈ (s.release claimed).underWay ↔
    a ∈ s.underWay ∧ (a.id ≠ claimed.id ∨ a.attempt ≠ claimed.attempt) := by
  unfold Store.release
  rw [List.mem_filter, decide_eq_true_eq]

namespace Store.Sound

variable {s : Store}

/-- A due delivery is not held. -/
theorem not_held (h : s.Sound) {id : ℕ} {now next : ℤ} {row : DeliveryRow}
    (hrow : s.deliveries.find id = some row) (hnext : row.nextAttemptAt = some next)
    (hle : next ≤ now) (hnow : now ≤ s.clock) : ∀ a ∈ s.underWay, a.id ≠ id := by
  rintro a ha rfl
  obtain ⟨row', hrow', -, -, hlease, hclock⟩ := h.held a ha
  rw [hrow] at hrow'
  cases hrow'
  rw [hnext] at hlease
  cases hlease
  omega

theorem claim (h : s.Sound) {id : ℕ} {now : ℤ} {s' : Store} {claimed : Claimed}
    (hclaim : s.claim id now = some (s', claimed)) (hnow : now ≤ s.clock)
    (hlease : s.clock < now + deliveryLeaseSecs) (hcut : (id, maxDeliveryAttempts) ∉ s.cutOff) :
    s'.Sound ∧ claimed ∈ s'.underWay ∧ (claimed.id, claimed.attempt) ∉ s'.failedSends ∧
      ∀ a ∈ s.underWay, a.id ≠ claimed.id := by
  obtain ⟨row, hrow, hpending, ⟨next, hnext, hle⟩, rfl, rfl⟩ := claim_eq_some hclaim
  have hnot := h.not_held hrow hnext hle hnow
  have hfew : row.attemptCount < maxDeliveryAttempts := by
    refine lt_of_le_of_ne (h.attempts id row hrow) fun heq => ?_
    rcases h.last id row hrow hpending heq with ⟨a, ha, heq⟩ | hmem
    · exact hnot a ha heq
    · exact hcut hmem
  have hfind : ∀ k, (s.deliveries.modify id (·.claim now) fun row => row.claim_id now).find k =
      if k = id then some (row.claim now) else s.deliveries.find k := by
    intro k
    rw [Table.find_modify, hrow, Option.map_some]
  have hgrown : ∀ k n, (∃ row, s.deliveries.find k = some row ∧ n ≤ row.attemptCount) →
      ∃ row, (s.deliveries.modify id (·.claim now) fun row => row.claim_id now).find k = some row ∧
        n ≤ row.attemptCount := by
    rintro k n ⟨old, hold, hn⟩
    rw [hfind]
    split
    · rename_i heq
      rw [heq, hrow] at hold
      cases hold
      exact ⟨_, rfl, Nat.le_succ_of_le hn⟩
    · exact ⟨old, hold, hn⟩
  refine ⟨⟨fun a ha => ?_, fun k row' hrow' => ?_, fun k row' hrow' hpending' hcount => ?_,
    fun e he => hgrown _ _ (h.sent e he), fun p hp => hgrown _ _ (h.failed p hp), h.reached⟩,
    List.mem_cons_self, fun hmem => ?_, hnot⟩
  · rw [hfind]
    rcases List.mem_cons.mp ha with rfl | ha
    · rw [if_pos rfl]
      exact ⟨_, rfl, hpending, rfl, rfl, hlease⟩
    · rw [if_neg (hnot a ha)]
      exact h.held a ha
  · rw [hfind] at hrow'
    split at hrow'
    · cases hrow'
      exact hfew
    · exact h.attempts k row' hrow'
  · rw [hfind] at hrow'
    split at hrow'
    · rename_i heq
      exact .inl ⟨_, List.mem_cons_self, heq.symm⟩
    · rcases h.last k row' hrow' hpending' hcount with ⟨a, ha, heq⟩ | hmem
      · exact .inl ⟨a, List.mem_cons_of_mem _ ha, heq⟩
      · exact .inr hmem
  · obtain ⟨old, hold, hn⟩ := h.failed _ hmem
    rw [hrow] at hold
    cases hold
    dsimp only at hn
    omega

/-- Only one attempt at a delivery is under way. -/
theorem ne_of_mem_release (h : s.Sound) {claimed a : Claimed} (hclaimed : claimed ∈ s.underWay)
    (ha : a ∈ (s.release claimed).underWay) : a ∈ s.underWay ∧ a.id ≠ claimed.id := by
  obtain ⟨ha, hne⟩ := mem_release_iff.mp ha
  refine ⟨ha, fun heq => ?_⟩
  obtain ⟨row, hrow, -, hcount, -⟩ := h.held claimed hclaimed
  obtain ⟨row', hrow', -, hcount', -⟩ := h.held a ha
  rw [heq, hrow] at hrow'
  cases hrow'
  exact hne.elim (fun hid => hid heq) fun hattempt => hattempt (hcount'.symm.trans hcount)

theorem cut (h : s.Sound) {claimed : Claimed} (hclaimed : claimed ∈ s.underWay) :
    (s.cut claimed).Sound where
  held a ha := h.held a (h.ne_of_mem_release hclaimed ha).1
  attempts := h.attempts
  last id row hrow hpending hcount := by
    rcases h.last id row hrow hpending hcount with ⟨a, ha, rfl⟩ | hmem
    · by_cases hsame : a.id = claimed.id ∧ a.attempt = claimed.attempt
      · obtain ⟨row', hrow', -, hattempt, -⟩ := h.held a ha
        cases hrow'.symm.trans hrow
        refine .inr (List.mem_cons.mpr (.inl ?_))
        rw [← hcount, hattempt, hsame.1, hsame.2]
      · exact .inl ⟨a, mem_release_iff.mpr ⟨ha, not_and_or.mp hsame⟩, rfl⟩
    · exact .inr (List.mem_cons_of_mem _ hmem)
  sent := h.sent
  failed := h.failed
  reached := h.reached

theorem settle (h : s.Sound) {claimed : Claimed} (hclaimed : claimed ∈ s.underWay)
    {retry : Bool} (hretry : retry = true → claimed.attempt < maxDeliveryAttempts)
    (result : Except Text Unit) : (s.settle claimed result retry).Sound := by
  obtain ⟨row, hrow, -, hcount, -⟩ := h.held claimed hclaimed
  have hfind : ∀ k, (s.settle claimed result retry).deliveries.find k = if k = claimed.id then
      some (row.settle s.clock claimed.attempt retry result) else s.deliveries.find k := by
    intro k
    have := Table.find_modify s.deliveries claimed.id
      (·.settle s.clock claimed.attempt retry result)
      (fun row => row.settle_id s.clock claimed.attempt retry result) k
    rwa [hrow, Option.map_some] at this
  have hsame : (row.settle s.clock claimed.attempt retry result).attemptCount =
      row.attemptCount := by
    cases result <;> rfl
  have hkept : ∀ k n, (∃ row, s.deliveries.find k = some row ∧ n ≤ row.attemptCount) →
      ∃ row, (s.settle claimed result retry).deliveries.find k = some row ∧
        n ≤ row.attemptCount := by
    rintro k n ⟨old, hold, hn⟩
    rw [hfind]
    split
    · rename_i heq
      rw [heq, hrow] at hold
      cases hold
      exact ⟨_, rfl, hsame ▸ hn⟩
    · exact ⟨old, hold, hn⟩
  refine ⟨fun a ha => ?_, fun k row' hrow' => ?_, fun k row' hrow' hpending hlast => ?_,
    fun e he => hkept _ _ (h.sent e he), fun p hp => hkept _ _ (h.failed p hp), h.reached⟩
  · obtain ⟨ha, hne⟩ := h.ne_of_mem_release hclaimed ha
    rw [hfind, if_neg hne]
    exact h.held a ha
  · rw [hfind] at hrow'
    split at hrow'
    · cases hrow'
      rw [hsame]
      exact h.attempts _ row hrow
    · exact h.attempts k row' hrow'
  · rw [hfind] at hrow'
    split at hrow'
    · -- the row is only pending where there is another try
      cases hrow'
      exfalso
      rw [hsame, hcount] at hlast
      cases result with
      | ok u => cases hpending
      | error e =>
        cases retry with
        | true => exact absurd (hretry rfl) (by omega)
        | false => cases hpending
    · rename_i hne
      rcases h.last k row' hrow' hpending hlast with ⟨a, ha, rfl⟩ | hmem
      · exact .inl ⟨a, mem_release_iff.mpr ⟨ha, .inl hne⟩, rfl⟩
      · exact .inr hmem

/-- A recipient got the message. -/
theorem sends (h : s.Sound) {claimed : Claimed} (hclaimed : claimed ∈ s.underWay)
    (hnot : (claimed.id, claimed.attempt) ∉ s.failedSends) (recipient : Text) :
    Store.Sound { s with sent := ⟨claimed.id, claimed.attempt, recipient⟩ :: s.sent } where
  held := h.held
  attempts := h.attempts
  last := h.last
  sent e he := by
    rcases List.mem_cons.mp he with rfl | he
    · obtain ⟨row, hrow, -, hcount, -⟩ := h.held claimed hclaimed
      exact ⟨row, hrow, hcount.ge⟩
    · exact h.sent e he
  failed := h.failed
  reached e he hmem := by
    rcases List.mem_cons.mp he with rfl | he
    · exact absurd hmem hnot
    · exact h.reached e he hmem

/-- The send fails, but not where it is tried again and somebody got the message. -/
theorem fails (h : s.Sound) {claimed : Claimed} (hclaimed : claimed ∈ s.underWay)
    (hfirst : claimed.attempt < maxDeliveryAttempts → ∀ e ∈ s.sent,
      ¬ (e.deliveryId = claimed.id ∧ e.attempt = claimed.attempt)) :
    Store.Sound { s with failedSends := (claimed.id, claimed.attempt) :: s.failedSends } where
  held := h.held
  attempts := h.attempts
  last := h.last
  sent := h.sent
  failed p hp := by
    rcases List.mem_cons.mp hp with rfl | hp
    · obtain ⟨row, hrow, -, hcount, -⟩ := h.held claimed hclaimed
      exact ⟨row, hrow, hcount.ge⟩
    · exact h.failed p hp
  reached e he hmem := by
    rcases List.mem_cons.mp hmem with heq | hmem
    · rw [Prod.mk.injEq] at heq
      rw [heq.2]
      by_contra hlt
      exact hfirst (Nat.lt_of_not_le hlt) e he heq
    · exact h.reached e he hmem

theorem noRepeat (h : s.Sound) : s.NoRepeat := by
  intro e he e' he' _ _ hfailed
  obtain ⟨row, hrow, hle⟩ := h.sent e' he'
  exact (hle.trans (h.attempts _ row hrow)).trans (h.reached e he hfailed)

end Store.Sound

/-! ## Every run -/

theorem enter_sound {s s' : Store} {input : Input} {ts : List Attempt} (h : s.Sound)
    (hcond : inTime.enter s input) (henter : enter s input = some (s', ts)) :
    s'.Sound ∧ (∀ t ∈ ts, t.claimed = none ∧ t.Ok s') ∧ s.clock ≤ s'.clock ∧
      s'.underWay = s.underWay ∧ s'.failedSends = s.failedSends ∧ s.KeepsSettled s' := by
  cases input with
  | record channelId readable =>
    unfold enter at henter
    dsimp only at henter
    split at henter
    swap
    · cases henter
    rename_i hnew
    cases henter
    have hfind : ∀ {k row}, s.deliveries.find k = some row → (s.deliveries.insert
        ⟨s.nextDelivery, channelId, .pending, 0, readable, some s.clock, none, none⟩ hnew).find k =
          some row := fun hrow => find_insert_of_find hnew hrow
    refine ⟨⟨fun a ha => ?_, fun id row hrow => ?_, fun id row hrow hpending hcount => ?_,
      fun e he => ?_, fun p hp => ?_, h.reached⟩, by simp, le_rfl, rfl, rfl, fun id row hrow _ =>
      hfind hrow⟩
    · obtain ⟨row, hrow, hrest⟩ := h.held a ha
      exact ⟨row, hfind hrow, hrest⟩
    · rw [Table.find_insert] at hrow
      split at hrow
      · cases hrow
        exact Nat.zero_le _
      · exact h.attempts id row hrow
    · rw [Table.find_insert] at hrow
      split at hrow
      · cases hrow
        cases hcount
      · exact h.last id row hrow hpending hcount
    · obtain ⟨row, hrow, hle⟩ := h.sent e he
      exact ⟨row, hfind hrow, hle⟩
    · obtain ⟨row, hrow, hle⟩ := h.failed p hp
      exact ⟨row, hfind hrow, hle⟩
  | deliver id =>
    cases henter
    refine ⟨h, fun t ht => ?_, le_rfl, rfl, rfl, fun _ _ hrow _ => hrow⟩
    rw [List.mem_singleton.mp ht]
    exact ⟨rfl, trivial⟩
  | channel id recipients =>
    cases henter
    exact ⟨⟨h.held, h.attempts, h.last, h.sent, h.failed, h.reached⟩, by simp, le_rfl, rfl, rfl,
      fun _ _ hrow _ => hrow⟩
  | tick now =>
    cases henter
    refine ⟨⟨fun a ha => ?_, h.attempts, h.last, h.sent, h.failed, h.reached⟩, by simp, hcond.1,
      rfl, rfl, fun _ _ hrow _ => hrow⟩
    obtain ⟨row, hrow, hpending, hcount, hnext, -⟩ := h.held a ha
    exact ⟨row, hrow, hpending, hcount, hnext, hcond.2 a ha⟩

theorem keepsSettled_refl (s : Store) : s.KeepsSettled s := fun _ _ hrow _ => hrow

theorem KeepsSettled.trans {s mid s' : Store} (h : s.KeepsSettled mid)
    (h' : mid.KeepsSettled s') : s.KeepsSettled s' :=
  fun id row hrow hsettled => h' id row (h id row hrow hsettled) hsettled

/-- Only a pending row is changed. -/
theorem keepsSettled_modify {s s' : Store} {id : ℕ} {row : DeliveryRow}
    (hrow : s.deliveries.find id = some row) (hpending : row.status = .pending)
    (hothers : ∀ k, k ≠ id → s'.deliveries.find k = s.deliveries.find k) : s.KeepsSettled s' := by
  intro k other hother hsettled
  by_cases heq : k = id
  · subst heq
    rw [hrow] at hother
    cases hother
    exact absurd hpending hsettled
  · rw [hothers k heq]
    exact hother

/-- What a statement of an attempt does: it keeps the invariant, and holds on to the attempt's own
claim at most. -/
structure Steps (s : Store) (t : Attempt) (s' : Store) (t' : Option Attempt) : Prop where
  sound : s'.Sound
  ok : ∀ v ∈ t', v.Ok s'
  clock : s'.clock = s.clock
  held : ∀ a ∈ s.underWay, (∀ b, t.claimed = some b → a.id ≠ b.id) → a ∈ s'.underWay
  failed : ∀ p ∈ s'.failedSends, p ∈ s.failedSends ∨ ∃ b, t.claimed = some b ∧ p.1 = b.id
  claimed : ∀ v ∈ t', ∀ a, v.claimed = some a → t.claimed = some a ∨
    ∀ b ∈ s.underWay, b.id ≠ a.id
  settled : s.KeepsSettled s'

/-- A statement that only reads. -/
theorem Steps.of_read {s : Store} {t v : Attempt} (h : s.Sound) (hok : v.Ok s)
    (hclaimed : ∀ a, v.claimed = some a → t.claimed = some a) : Steps s t s (some v) where
  sound := h
  ok u hu := by
    cases hu
    exact hok
  clock := rfl
  held _ ha _ := ha
  failed _ hp := .inl hp
  claimed u hu a ha := by
    cases hu
    exact .inl (hclaimed a ha)
  settled := keepsSettled_refl s

theorem Steps.of_end {s : Store} {t : Attempt} (h : s.Sound) : Steps s t s none where
  sound := h
  ok _ hu := by cases hu
  clock := rfl
  held _ ha _ := ha
  failed _ hp := .inl hp
  claimed _ hu := by cases hu
  settled := keepsSettled_refl s

theorem Steps.of_cut {s : Store} {t : Attempt} {claimed : Claimed} (h : s.Sound)
    (ht : t.claimed = some claimed) (hclaimed : claimed ∈ s.underWay) :
    Steps s t (s.cut claimed) none where
  sound := h.cut hclaimed
  ok _ hu := by cases hu
  clock := rfl
  held _ ha hne := mem_release_iff.mpr ⟨ha, .inl (hne claimed ht)⟩
  failed _ hp := .inl hp
  claimed _ hu := by cases hu
  settled := keepsSettled_refl s

theorem advance_steps {s : Store} {t : Attempt} {answer : Answer} (h : s.Sound) (hok : t.Ok s)
    (hcond : inTime.advance s t answer) :
    Steps s t (advance s t answer).1 (advance s t answer).2 := by
  cases t with
  | start id => exact Steps.of_read h le_rfl nofun
  | claim id now =>
    rw [advance]
    split
    swap
    · exact Steps.of_end h
    · rename_i s' claimed hclaim
      have hsome : s.claim id now = some (s', claimed) := by
        split at hclaim
        · exact hclaim
        · cases hclaim
      obtain ⟨hsound, hmem, hnot, hfree⟩ := h.claim hsome hok hcond.1 hcond.2
      obtain ⟨row, hrow, hpending, -, hclaimed, rfl⟩ := claim_eq_some hsome
      have hothers := fun k (hne : k ≠ id) => Table.find_modify_of_ne s.deliveries hne
        (·.claim now) fun row => row.claim_id now
      refine ⟨hsound, fun v hv => ?_, rfl, fun a ha _ => List.mem_cons_of_mem _ ha,
        fun _ hp => .inl hp, fun v hv a ha => ?_,
        keepsSettled_modify hrow hpending hothers⟩
      · cases hv
        exact ⟨hmem, hnot⟩
      · cases hv
        cases ha
        exact .inr hfree
  | load claimed =>
    rw [advance]
    split
    · split
      · exact Steps.of_read h ⟨hok.1, nofun⟩ fun _ ha => ha
      · split
        · exact Steps.of_read h hok fun _ ha => ha
        · exact Steps.of_read h ⟨hok.1, nofun⟩ fun _ ha => ha
    · exact Steps.of_cut h rfl hok.1
  | send claimed recipients =>
    cases recipients with
    | nil => exact Steps.of_read h ⟨hok.1, nofun⟩ fun _ ha => ha
    | cons recipient rest =>
      rw [advance]
      split
      · refine ⟨h.sends hok.1 hok.2 recipient, fun v hv => ?_, rfl, fun _ ha _ => ha,
          fun _ hp => .inl hp, fun v hv a ha => ?_, keepsSettled_refl s⟩
        · cases hv
          exact hok
        · cases hv
          exact .inl ha
      · rename_i e herror
        refine ⟨h.fails hok.1 fun hlt => hcond hlt ⟨e, herror⟩, fun v hv => ?_, rfl,
          fun _ ha _ => ha, fun p hp => ?_, fun v hv a ha => ?_, keepsSettled_refl s⟩
        · cases hv
          exact ⟨hok.1, of_decide_eq_true⟩
        · rcases List.mem_cons.mp hp with rfl | hp
          · exact .inr ⟨claimed, rfl, rfl⟩
          · exact .inl hp
        · cases hv
          exact .inl ha
  | settle claimed result retry =>
    rw [advance]
    split
    · obtain ⟨row, hrow, hpending, -⟩ := h.held claimed hok.1
      refine ⟨h.settle hok.1 hok.2 result, nofun, rfl, fun a ha hne => ?_, fun _ hp => .inl hp,
        nofun, keepsSettled_modify hrow hpending fun k hne => ?_⟩
      · exact mem_release_iff.mpr ⟨ha, .inl (hne claimed rfl)⟩
      · exact Table.find_modify_of_ne s.deliveries hne
          (·.settle s.clock claimed.attempt retry result) fun row =>
            row.settle_id s.clock claimed.attempt retry result
    · exact Steps.of_cut h rfl hok.1

theorem Steps.beside {s s' : Store} {t u : Attempt} {t' : Option Attempt} (h : Steps s t s' t')
    (hu : u.Ok s) (hapart : t.Apart u) : u.Ok s' := by
  refine hu.mono h.clock.ge (fun a ha hmem => ?_) fun a ha hmem => ?_
  · exact h.held a hmem fun b hb => (hapart b a hb ha).symm
  · refine (h.failed _ hmem).resolve_right ?_
    rintro ⟨b, hb, heq⟩
    exact hapart b a hb ha heq.symm

/-- An attempt holds what it claimed. -/
theorem Attempt.Ok.mem {s : Store} {u : Attempt} (h : u.Ok s) {a : Claimed}
    (ha : u.claimed = some a) : a ∈ s.underWay := by
  cases u with
  | start | claim => cases ha
  | load claimed | send claimed recipients | settle claimed result retry =>
    cases ha
    exact h.1

theorem Steps.apart {s s' : Store} {t u : Attempt} {t' : Option Attempt} (h : Steps s t s' t')
    (hu : u.Ok s) (hapart : t.Apart u) : ∀ v ∈ t', u.Apart v := by
  intro v hv b a hb ha
  rcases h.claimed v hv a ha with hsame | hfree
  · exact (hapart a b hsame hb).symm
  · exact hfree b (hu.mem hb)

theorem drop_sound {s : Store} {t : Attempt} (h : s.Sound) (hok : t.Ok s) :
    (sends.drop s t).Sound := by
  show (t.claimed.elim s s.cut).Sound
  cases hclaimed : t.claimed with
  | none => exact h
  | some claimed => exact h.cut (hok.mem hclaimed)

theorem sends_stable :
    Stable sends inTime Store.Sound (fun s t => t.Ok s) Attempt.Apart where
  symm _ _ h := h.symm
  enter s input s' ts h hcond henter := by
    obtain ⟨hsound, hts, -⟩ := enter_sound h hcond henter
    refine ⟨hsound, fun t ht => (hts t ht).2, ?_⟩
    exact List.pairwise_of_forall_mem_list fun _ _ u hu => Attempt.apart_of_none (hts u hu).1
  enterBeside s input s' ts u h hcond henter hu _ := by
    obtain ⟨-, hts, hclock, hheld, hfailed, -⟩ := enter_sound h hcond henter
    refine ⟨hu.mono hclock (fun a _ ha => hheld ▸ ha) fun a _ ha => hfailed ▸ ha, fun t ht => ?_⟩
    exact Attempt.apart_of_none (hts t ht).1
  advance s t answer s' t' h hok hcond hadvance := by
    have hsteps := advance_steps h hok hcond
    rw [Option.some.inj hadvance] at hsteps
    exact ⟨hsteps.sound, hsteps.ok⟩
  advanceBeside s t answer s' t' u h hok hcond hadvance hu hapart _ := by
    have hsteps := advance_steps h hok hcond
    rw [Option.some.inj hadvance] at hsteps
    exact ⟨hsteps.beside hu hapart, hsteps.apart hu hapart⟩
  drop _ _ h hok := drop_sound h hok
  dropBeside s t u h hok hu hapart := by
    show u.Ok (t.claimed.elim s s.cut)
    cases hclaimed : t.claimed with
    | none => exact hu
    | some claimed => exact (Steps.of_cut h hclaimed (hok.mem hclaimed)).beside hu hapart
  restart s h := by
    refine ⟨nofun, h.attempts, fun id row hrow hpending hcount => ?_, h.sent, h.failed, h.reached⟩
    right
    rcases h.last id row hrow hpending hcount with ⟨a, ha, rfl⟩ | hmem
    · obtain ⟨row', hrow', -, hattempt, -⟩ := h.held a ha
      cases hrow'.symm.trans hrow
      refine List.mem_append.mpr (.inl (List.mem_map.mpr ⟨a, ha, ?_⟩))
      rw [← hcount, hattempt]
    · exact List.mem_append.mpr (.inr hmem)

/-- No step changes a settled row. -/
theorem next_keepsSettled {c c' : Config Store Attempt} {e : Event Input Answer}
    (h : Holds Store.Sound (fun s t => t.Ok s) Attempt.Apart c) (hmet : inTime.Met c e)
    (hnext : sends.next c e = some c') : c.shared.KeepsSettled c'.shared := by
  cases e with
  | enter input =>
    obtain ⟨⟨s', ts⟩, henter, rfl⟩ := Option.map_eq_some_iff.mp hnext
    obtain ⟨-, -, -, -, -, hkept⟩ := enter_sound h.shared hmet.1 henter
    exact hkept
  | advance i answer =>
    obtain ⟨t, ht, hmap⟩ := Option.bind_eq_some_iff.mp hnext
    obtain ⟨⟨s', t'⟩, hadvance, rfl⟩ := Option.map_eq_some_iff.mp hmap
    have hsteps := advance_steps h.shared (h.calls t (List.mem_of_getElem? ht)) (hmet t ht).1
    rw [Option.some.inj hadvance] at hsteps
    exact hsteps.settled
  | drop i =>
    obtain ⟨t, -, rfl⟩ := Option.map_eq_some_iff.mp hnext
    show c.shared.KeepsSettled (t.claimed.elim c.shared c.shared.cut)
    cases t.claimed with
    | none => exact keepsSettled_refl _
    | some claimed => exact keepsSettled_refl _
  | restart =>
    cases hnext
    exact keepsSettled_refl _

theorem Store.sound_new : Store.new.Sound where
  held _ ha := by cases ha
  attempts _ _ hrow := by cases hrow
  last _ _ hrow := by cases hrow
  sent _ he := by cases he
  failed _ hp := by cases hp
  reached _ he := by cases he

/-- While attempts end within their leases, every delivery settles once. -/
theorem sends_settle {es es' : List (Event Input Answer)} {c c' : Config Store Attempt}
    (hmeets : sends.Meets inTime ⟨.new, []⟩ es) (hrun : sends.run ⟨.new, []⟩ es = some c)
    (hmeets' : sends.Meets inTime c es') (hrun' : sends.run c es' = some c') :
    SettlesOnce c c' := by
  have h := sends_stable.run (.start Store.sound_new) hmeets hrun
  have h' := sends_stable.run h hmeets' hrun'
  refine ⟨h'.apart, ?_, ?_, h'.shared.noRepeat⟩
  · exact sends_stable.run_rel keepsSettled_refl (fun _ _ _ => KeepsSettled.trans)
      (fun _ _ _ => next_keepsSettled) h hmeets' hrun'
  · exact Table.forall_mem_iff.mpr h'.shared.attempts

/-- The steps meet the condition, for emails that fail at their first recipient. -/
def looksInTime (c : Config Store Attempt) : Event Input Answer → Bool
  | .enter (.tick now) => c.shared.clock ≤ now && c.shared.underWay.all (now < ·.leaseEnd)
  | .advance i answer => (c.calls[i]?).all fun
    | .claim id now => c.shared.clock < now + deliveryLeaseSecs &&
      (id, maxDeliveryAttempts) ∉ c.shared.cutOff
    | .send claimed (_ :: _) => match answer.post with
      | .ok _ => true
      | .error _ => c.shared.sent.all (·.deliveryId ≠ claimed.id)
    | _ => true
  | _ => true

theorem met_of_looksInTime (c : Config Store Attempt) (event : Event Input Answer)
    (h : looksInTime c event = true) : inTime.Met c event := by
  cases event with
  | enter input =>
    refine ⟨?_, fun _ _ => trivial⟩
    cases input with
    | tick now => simpa [looksInTime, inTime] using h
    | _ => trivial
  | advance i answer =>
    intro t ht
    refine ⟨?_, fun _ _ => trivial⟩
    simp only [looksInTime, ht, Option.all_some] at h
    cases t with
    | claim id now => simpa [inTime] using h
    | send claimed recipients =>
      cases recipients with
      | nil => trivial
      | cons recipient rest =>
        rintro - ⟨e, herror⟩ sent hsent ⟨hid, -⟩
        simp only [herror, List.all_eq_true, decide_eq_true_eq] at h
        exact h sent hsent hid
    | _ => trivial
  | drop => trivial
  | restart => trivial

def mail : Text := "mail".toList

/-- The statement of the call succeeds, and so does its message. -/
def goes (i : ℕ) : Event Input Answer := .advance i ⟨true, .ok ()⟩

def refused (i : ℕ) : Event Input Answer := .advance i ⟨true, .error "refused".toList⟩

/-- A send is refused and tried again. -/
def retriedRun : List (Event Input Answer) :=
  [.enter (.channel mail (some ["a@x".toList, "b@x".toList])), .enter (.record mail true),
    .enter (.deliver 0), goes 0, goes 0, goes 0, refused 0, goes 0, .enter (.tick 30),
    .enter (.deliver 0), goes 0, goes 0, goes 0, goes 0, goes 0, goes 0]

theorem retriedRun_settles : ∃ c c', sends.run ⟨.new, []⟩ retriedRun = some c ∧
    sends.run c [goes 0] = some c' ∧
    (c'.shared.deliveries.find 0).map (fun row => (row.status, row.attemptCount)) =
      some (.delivered, 2) ∧ SettlesOnce c c' := by
  have hrun : (sends.run ⟨.new, []⟩ retriedRun).any (fun c =>
      sends.checks looksInTime c [goes 0] && (sends.run c [goes 0]).any fun c' =>
        (c'.shared.deliveries.find 0).map (fun row => (row.status, row.attemptCount)) =
          some (.delivered, 2)) = true := by
    decide +kernel
  obtain ⟨c, hc, hstate⟩ := Option.any_eq_true _ _ |>.mp hrun
  rw [Bool.and_eq_true] at hstate
  obtain ⟨c', hc', hdelivered⟩ := Option.any_eq_true _ _ |>.mp hstate.2
  exact ⟨c, c', hc, hc', of_decide_eq_true hdelivered, sends_settle
    (meets_of_checks _ met_of_looksInTime (by decide +kernel)) hc
    (meets_of_checks _ met_of_looksInTime hstate.1) hc'⟩

def fiveRecipients : List Text :=
  ["a@x".toList, "b@x".toList, "c@x".toList, "d@x".toList, "e@x".toList]

/-- The first four recipients of an email take 30 seconds each; the retry scan starts another
attempt, which is delivered. -/
def overtakenRun : List (Event Input Answer) :=
  [.enter (.channel mail (some fiveRecipients)), .enter (.record mail true), .enter (.deliver 0),
    goes 0, goes 0, goes 0, .enter (.tick 30), goes 0, .enter (.tick 60), goes 0,
    .enter (.tick 90), goes 0, .enter (.tick 120), goes 0, .enter (.deliver 0)] ++
  List.replicate 10 (goes 1)

/-- The first attempt fails at the last recipient, and the delivered row is pending again. -/
theorem delivered_row_pending_again : ¬ ∀ es es' c c', sends.run ⟨.new, []⟩ es = some c →
    sends.run c es' = some c' → SettlesOnce c c' := by
  intro hall
  have hrun : (sends.run ⟨.new, []⟩ overtakenRun).any (fun c =>
      (c.shared.deliveries.find 0).any (·.status = .delivered) &&
      (sends.run c [refused 0, goes 0]).any fun c' =>
        (c'.shared.deliveries.find 0).any (·.status = .pending)) = true := by
    decide +kernel
  obtain ⟨c, hc, hstate⟩ := Option.any_eq_true _ _ |>.mp hrun
  rw [Bool.and_eq_true] at hstate
  obtain ⟨row, hrow, hdelivered⟩ := Option.any_eq_true _ _ |>.mp hstate.1
  obtain ⟨c', hc', hlater⟩ := Option.any_eq_true _ _ |>.mp hstate.2
  obtain ⟨row', hrow', hpending⟩ := Option.any_eq_true _ _ |>.mp hlater
  rw [decide_eq_true_eq] at hdelivered hpending
  have hkept := (hall _ _ c c' hc hc').settled 0 row hrow (by rw [hdelivered]; decide)
  rw [hkept] at hrow'
  cases hrow'
  rw [hdelivered] at hpending
  cases hpending

end Sends

end OoreBuild
