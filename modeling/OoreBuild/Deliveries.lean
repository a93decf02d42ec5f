import OoreBuild.Lib.Interleave
import OoreBuild.Lib.Table
import OoreBuild.Lib.Text
import Mathlib.Data.Finset.Max

/-!
# The queue of webhook deliveries

A stored delivery is claimed by a worker, which processes it and writes down what came of it. A
worker may be lost and any of its writes may fail, so a claim is a lease, and the leases that ran
out are claimed again or, once the attempts are used up, failed. `deliveries_settle` is what holds
in every run.
-/

namespace OoreBuild

open Text Interleave

inductive WebhookStatus where
  | received
  | processed
  | ignored
  | failed
  deriving DecidableEq, Repr

/-- A row of `integration_webhooks`, without what the provider sent. -/
structure IntegrationWebhook where
  id : ℕ
  status : WebhookStatus
  receivedAt : ℤ
  processingError : Option Text
  processingStartedAt : Option ℤ
  processingAttempts : ℕ
  nextAttemptAt : Option ℤ
  processedAt : Option ℤ
  deriving DecidableEq, Repr

def webhookRecoveryIntervalSecs : ℤ := 30

def webhookProcessingLeaseSecs : ℤ := 5 * 60

def maxWebhookProcessingAttempts : ℕ := 5

namespace IntegrationWebhook

variable (now : ℤ) (row : IntegrationWebhook)

/-- A new delivery. -/
def new (id : ℕ) (receivedAt : ℤ) : IntegrationWebhook where
  id := id
  status := .received
  receivedAt := receivedAt
  processingError := none
  processingStartedAt := none
  processingAttempts := 0
  nextAttemptAt := none
  processedAt := none

/-! ## What the statements do to a row -/

/-- The condition of `claim_next_webhook`. -/
def claimable : Bool :=
  row.status = .received && row.processingAttempts < maxWebhookProcessingAttempts &&
    row.nextAttemptAt.all (· ≤ now) &&
    row.processingStartedAt.all (· < now - webhookProcessingLeaseSecs)

def claimed : IntegrationWebhook :=
  { row with
    processingStartedAt := some now
    processingAttempts := row.processingAttempts + 1 }

/-- `fail_exhausted_webhook_leases`. -/
def failExhausted : IntegrationWebhook :=
  if row.status = .received && maxWebhookProcessingAttempts ≤ row.processingAttempts &&
      row.processingStartedAt.any (· < now - webhookProcessingLeaseSecs) then
    { row with
      status := .failed
      processingError := row.processingError.or (some "processing lease expired")
      processingStartedAt := none
      nextAttemptAt := none
      processedAt := some now }
  else row

/-- The statements that write down what came of a delivery. -/
def settle (status : WebhookStatus) (reason : Option Text) : IntegrationWebhook :=
  if row.status = .received then
    { row with
      status := status
      processingError := reason.or row.processingError
      processingStartedAt := none
      nextAttemptAt := none
      processedAt := some now }
  else row

/-- `record_webhook_processing_error`. -/
def recordError (error : Text) : IntegrationWebhook :=
  if row.status = .received then
    if maxWebhookProcessingAttempts ≤ row.processingAttempts then
      { row with
        status := .failed
        processingError := some error
        processingStartedAt := none
        nextAttemptAt := none
        processedAt := some now }
    else
      { row with
        processingError := some error
        processingStartedAt := none
        nextAttemptAt := some (now + webhookRecoveryIntervalSecs)
        processedAt := none }
  else row

@[simp] theorem claimed_id : (row.claimed now).id = row.id := rfl

@[simp] theorem failExhausted_id : (row.failExhausted now).id = row.id := by
  unfold failExhausted
  split <;> rfl

@[simp] theorem settle_id (status : WebhookStatus) (reason : Option Text) :
    (row.settle now status reason).id = row.id := by
  unfold settle
  split <;> rfl

@[simp] theorem recordError_id (error : Text) : (row.recordError now error).id = row.id := by
  unfold recordError
  split
  · split <;> rfl
  · rfl

end IntegrationWebhook

/-! ## The store and its workers -/

/-- The deliveries, and the ones handed to `process_claimed_webhook` so far. -/
structure DeliveryStore where
  webhooks : Table IntegrationWebhook.id
  processings : List ℕ

def DeliveryStore.empty : DeliveryStore := ⟨⟨[], List.nodup_nil⟩, []⟩

/-- What a worker does next with the delivery it claimed. -/
inductive WebhookWork where
  | load (id : ℕ)
  | process (id : ℕ)
  | settle (id : ℕ) (status : WebhookStatus) (reason : Option Text)
  | recordError (id : ℕ) (error : Text)

/-- What `process_webhook_event` comes to before it writes it down. -/
inductive WebhookOutcome where
  /-- A query, the payload or the start of the builds fails. -/
  | error (error : Text)
  | ignore (reason : Text)
  /-- The builds are refused for good. -/
  | refuse (error : Text)
  | done

inductive WebhookAnswer where
  | succeeds (now : ℤ)
  | fails (error : Text)
  | outcome (outcome : WebhookOutcome)

inductive WebhookInput where
  | receive (id : ℕ) (now : ℤ)
  /-- `claim_next_webhook` returns this delivery. -/
  | claim (id : ℕ) (now : ℤ)
  | failExhausted (now : ℤ)

/-- The claim takes the delivery that was received first; among those of one second, any. -/
def claimNextWebhook (webhooks : Table IntegrationWebhook.id) (now : ℤ) (id : ℕ) : Bool :=
  (webhooks.find id).any fun row => row.claimable now &&
    webhooks.rows.all fun other => !other.claimable now || decide (row.receivedAt ≤ other.receivedAt)

/-- A worker takes a delivery. -/
def DeliveryStore.claim (s : DeliveryStore) (id : ℕ) (now : ℤ) : DeliveryStore :=
  ⟨s.webhooks.modify id (·.claimed now) (IntegrationWebhook.claimed_id now), id :: s.processings⟩

def enterDeliveries (s : DeliveryStore) : WebhookInput → Option (DeliveryStore × List WebhookWork)
  | .receive id now =>
    if h : (IntegrationWebhook.new id now).id ∉ s.webhooks.rows.map IntegrationWebhook.id then
      some (⟨s.webhooks.insert (.new id now) h, s.processings⟩, [])
    else none
  | .claim id now =>
    if claimNextWebhook s.webhooks now id then
      some (s.claim id now, [.load id])
    else none
  | .failExhausted now =>
    some (⟨s.webhooks.mapRows (·.failExhausted now) (IntegrationWebhook.failExhausted_id now),
      s.processings⟩, [])

def advanceDelivery (s : DeliveryStore) :
    WebhookWork → WebhookAnswer → Option (DeliveryStore × Option WebhookWork)
  | .load id, .succeeds _ =>
    -- a lease that ran out may have been settled by another worker
    if (s.webhooks.find id).any fun row =>
        row.status = .received && row.processingStartedAt.isSome then
      some (s, some (.process id))
    else some (s, none)
  | .load id, .fails error => some (s, some (.recordError id error))
  | .process id, .outcome (.error error) => some (s, some (.recordError id error))
  | .process id, .outcome (.ignore reason) => some (s, some (.settle id .ignored (some reason)))
  | .process id, .outcome (.refuse error) => some (s, some (.settle id .failed (some error)))
  | .process id, .outcome .done => some (s, some (.settle id .processed none))
  | .settle id status reason, .succeeds now =>
    some (⟨s.webhooks.modify id (·.settle now status reason)
      fun row => row.settle_id now status reason, s.processings⟩, none)
  -- the result of this write is not looked at
  | .settle _ .failed _, .fails _ => some (s, none)
  | .settle id _ _, .fails error => some (s, some (.recordError id error))
  | .recordError id error, .succeeds now =>
    some (⟨s.webhooks.modify id (·.recordError now error)
      fun row => row.recordError_id now error, s.processings⟩, none)
  | .recordError _ _, .fails _ => some (s, none)
  | _, _ => none

/-- Workers over the store. A lost worker gives nothing back. -/
def deliveries : Interleave DeliveryStore WebhookWork WebhookInput WebhookAnswer where
  enter := enterDeliveries
  advance := advanceDelivery
  drop s _ := s
  restart s := s

/-! ## What holds of every delivery -/

/-- The attempts are limited, and a delivery that used them up is settled or leased. -/
structure IntegrationWebhook.Ok (row : IntegrationWebhook) : Prop where
  bounded : row.processingAttempts ≤ maxWebhookProcessingAttempts
  leased : row.status = .received → row.processingAttempts = maxWebhookProcessingAttempts →
    row.processingStartedAt.isSome

/-- What every statement but a claim does to a row. -/
structure IntegrationWebhook.Keeps (row row' : IntegrationWebhook) : Prop where
  attempts : row'.processingAttempts = row.processingAttempts
  status : row.status ≠ .received → row'.status = row.status
  ok : row.Ok → row'.Ok

namespace IntegrationWebhook

variable {row : IntegrationWebhook} {now : ℤ}

theorem Keeps.refl (row : IntegrationWebhook) : row.Keeps row := ⟨rfl, fun _ => rfl, fun h => h⟩

theorem ok_new (id : ℕ) (receivedAt : ℤ) : (new id receivedAt).Ok :=
  ⟨Nat.zero_le _, fun _ h => by cases h⟩

/-- A row that leaves `received` with its attempts as they are. -/
theorem Keeps.of_settled {row' : IntegrationWebhook} (hreceived : row.status = .received)
    (hattempts : row'.processingAttempts = row.processingAttempts) (hstatus : row'.status ≠ .received) :
    row.Keeps row' where
  attempts := hattempts
  status h := absurd hreceived h
  ok h := ⟨hattempts ▸ h.bounded, fun heq => absurd heq hstatus⟩

theorem keeps_failExhausted (row : IntegrationWebhook) : row.Keeps (row.failExhausted now) := by
  unfold failExhausted
  split
  · rename_i hcond
    simp only [Bool.and_eq_true, decide_eq_true_eq] at hcond
    exact .of_settled hcond.1.1 rfl (by simp)
  · exact .refl row

theorem keeps_settle {status : WebhookStatus} (reason : Option Text) (hstatus : status ≠ .received)
    (row : IntegrationWebhook) : row.Keeps (row.settle now status reason) := by
  unfold settle
  split
  · rename_i hreceived
    exact .of_settled hreceived rfl hstatus
  · exact .refl row

theorem keeps_recordError (error : Text) (row : IntegrationWebhook) :
    row.Keeps (row.recordError now error) := by
  unfold recordError
  split
  · rename_i hreceived
    split
    · exact .of_settled hreceived rfl (by simp)
    · rename_i hleft
      exact ⟨rfl, fun h => absurd hreceived h, fun hok =>
        ⟨hok.bounded, fun _ heq => absurd (Nat.le_of_eq heq.symm) hleft⟩⟩
  · exact .refl row

theorem Ok.claimed (h : row.claimable now = true) : (row.claimed now).Ok := by
  unfold claimable at h
  simp only [Bool.and_eq_true, decide_eq_true_eq] at h
  exact ⟨h.1.1.2, fun _ _ => rfl⟩

end IntegrationWebhook

/-- Every delivery is as it should be, and was handed to a worker once for each attempt. -/
structure DeliveryStore.Ok (s : DeliveryStore) : Prop where
  rows : ∀ row ∈ s.webhooks.rows, row.Ok
  counted : ∀ row ∈ s.webhooks.rows, s.processings.count row.id = row.processingAttempts
  known : ∀ id ∈ s.processings, id ∈ s.webhooks.rows.map IntegrationWebhook.id

/-- The deliveries that were settled stay as they were settled. -/
def DeliveryStore.Settled (s s' : DeliveryStore) : Prop :=
  ∀ row ∈ s.webhooks.rows, row.status ≠ .received →
    ∃ row' ∈ s'.webhooks.rows, row'.id = row.id ∧ row'.status = row.status

theorem DeliveryStore.ok_empty : DeliveryStore.empty.Ok where
  rows _ hrow := absurd hrow List.not_mem_nil
  counted _ hrow := absurd hrow List.not_mem_nil
  known _ hid := absurd hid List.not_mem_nil

theorem DeliveryStore.Settled.refl (s : DeliveryStore) : s.Settled s :=
  fun row hrow _ => ⟨row, hrow, rfl, rfl⟩

theorem DeliveryStore.Settled.trans {s mid s' : DeliveryStore} (h : s.Settled mid)
    (h' : mid.Settled s') : s.Settled s' := by
  intro row hrow hstatus
  obtain ⟨row', hrow', hid, heq⟩ := h row hrow hstatus
  obtain ⟨row'', hrow'', hid', heq'⟩ := h' row' hrow' (heq ▸ hstatus)
  exact ⟨row'', hrow'', hid'.trans hid, heq'.trans heq⟩

/-- What a statement that is no claim does to the store. -/
theorem DeliveryStore.mapRows_ok {s : DeliveryStore} (h : s.Ok)
    (f : IntegrationWebhook → IntegrationWebhook) (hf : ∀ row, (f row).id = row.id)
    (hkeeps : ∀ row : IntegrationWebhook, row.Keeps (f row)) :
    DeliveryStore.Ok ⟨s.webhooks.mapRows f hf, s.processings⟩ ∧
      s.Settled ⟨s.webhooks.mapRows f hf, s.processings⟩ := by
  refine ⟨⟨fun row hrow => ?_, fun row hrow => ?_, fun id hid => ?_⟩, fun row hrow hstatus => ?_⟩
  · obtain ⟨before, hbefore, rfl⟩ := List.mem_map.mp hrow
    exact (hkeeps before).ok (h.rows before hbefore)
  · obtain ⟨before, hbefore, rfl⟩ := List.mem_map.mp hrow
    rw [hf, (hkeeps before).attempts]
    exact h.counted before hbefore
  · obtain ⟨row, hrow, rfl⟩ := List.mem_map.mp (h.known id hid)
    exact List.mem_map.mpr ⟨f row, List.mem_map_of_mem hrow, hf row⟩
  · exact ⟨f row, List.mem_map_of_mem hrow, hf row, (hkeeps row).status hstatus⟩

theorem DeliveryStore.modify_ok {s : DeliveryStore} (h : s.Ok) (id : ℕ)
    (f : IntegrationWebhook → IntegrationWebhook) (hf : ∀ row, (f row).id = row.id)
    (hkeeps : ∀ row : IntegrationWebhook, row.Keeps (f row)) :
    DeliveryStore.Ok ⟨s.webhooks.modify id f hf, s.processings⟩ ∧
      s.Settled ⟨s.webhooks.modify id f hf, s.processings⟩ := by
  have hid : ∀ row : IntegrationWebhook, (if row.id = id then f row else row).id = row.id := by
    intro row
    split
    · exact hf row
    · rfl
  rw [Table.modify_eq_mapRows s.webhooks id f hf hid]
  refine mapRows_ok h _ hid fun row => ?_
  split
  · exact hkeeps row
  · exact .refl row

/-- What a claim does to the store. -/
theorem DeliveryStore.claim_ok {s : DeliveryStore} (h : s.Ok) {id : ℕ} {now : ℤ}
    (hclaim : claimNextWebhook s.webhooks now id = true) :
    (s.claim id now).Ok ∧ s.Settled (s.claim id now) := by
  obtain ⟨taken, htaken, hcond⟩ := Option.any_eq_true _ _ |>.mp hclaim
  rw [Bool.and_eq_true] at hcond
  have honly : ∀ row ∈ s.webhooks.rows, row.id = id → row = taken := by
    intro row hrow heq
    have hfind := Table.find_of_mem hrow
    rw [heq, htaken] at hfind
    exact (Option.some.inj hfind).symm
  refine ⟨⟨fun row hrow => ?_, fun row hrow => ?_, fun other hother => ?_⟩,
    fun row hrow hstatus => ?_⟩
  · obtain ⟨before, hbefore, rfl⟩ := List.mem_map.mp hrow
    split
    · rename_i heq
      obtain rfl := honly before hbefore heq
      exact .claimed hcond.1
    · exact h.rows before hbefore
  · obtain ⟨before, hbefore, rfl⟩ := List.mem_map.mp hrow
    have hcount := h.counted before hbefore
    split
    · rename_i heq
      show (id :: s.processings).count before.id = before.processingAttempts + 1
      rw [heq, List.count_cons_self, ← heq, hcount]
    · rename_i hne
      show (id :: s.processings).count before.id = before.processingAttempts
      rw [List.count_cons_of_ne (Ne.symm hne), hcount]
  · have hkeys : (s.claim id now).webhooks.rows.map IntegrationWebhook.id =
        s.webhooks.rows.map IntegrationWebhook.id := by
      show (s.webhooks.rows.map _).map _ = _
      rw [List.map_map]
      refine List.map_congr_left fun row _ => ?_
      show IntegrationWebhook.id (if row.id = id then row.claimed now else row) = row.id
      split <;> rfl
    rw [hkeys]
    rcases List.mem_cons.mp hother with rfl | hother
    · exact List.mem_map.mpr ⟨taken, Table.mem_of_find htaken, Table.key_of_find htaken⟩
    · exact h.known other hother
  · have hne : row.id ≠ id := by
      rintro heq
      obtain rfl := honly row hrow heq
      unfold IntegrationWebhook.claimable at hcond
      simp only [Bool.and_eq_true, decide_eq_true_eq] at hcond
      exact hstatus hcond.1.1.1.1
    refine ⟨row, List.mem_map.mpr ⟨row, hrow, ?_⟩, rfl, rfl⟩
    rw [if_neg hne]

/-! ## Runs -/

/-- A worker settles a delivery with a status that settles it. -/
def WebhookWork.Ok : WebhookWork → Prop
  | .settle _ status _ => status ≠ .received
  | _ => True

theorem enterDeliveries_ok {s s' : DeliveryStore} {input : WebhookInput} {started : List WebhookWork}
    (h : s.Ok) (henter : enterDeliveries s input = some (s', started)) :
    (s'.Ok ∧ s.Settled s') ∧ ∀ work ∈ started, work.Ok := by
  cases input with
  | receive id now =>
    simp only [enterDeliveries] at henter
    split at henter
    · rename_i hnew
      cases henter
      refine ⟨⟨⟨fun row hrow => ?_, fun row hrow => ?_, fun other hother => ?_⟩,
        fun row hrow _ => ⟨row, List.mem_append_left _ hrow, rfl, rfl⟩⟩, by simp⟩
      · rcases List.mem_append.mp hrow with hrow | hrow
        · exact h.rows row hrow
        · rw [List.mem_singleton.mp hrow]
          exact IntegrationWebhook.ok_new id now
      · rcases List.mem_append.mp hrow with hrow | hrow
        · exact h.counted row hrow
        · rw [List.mem_singleton.mp hrow]
          exact List.count_eq_zero.mpr fun hin => hnew (h.known id hin)
      · show other ∈ (s.webhooks.rows ++ [IntegrationWebhook.new id now]).map IntegrationWebhook.id
        rw [List.map_append]
        exact List.mem_append_left _ (h.known other hother)
    · cases henter
  | claim id now =>
    simp only [enterDeliveries] at henter
    split at henter
    · rename_i hclaim
      cases henter
      exact ⟨DeliveryStore.claim_ok h hclaim, by simp [WebhookWork.Ok]⟩
    · cases henter
  | failExhausted now =>
    cases henter
    exact ⟨DeliveryStore.mapRows_ok h _ _ IntegrationWebhook.keeps_failExhausted, by simp⟩

theorem advanceDelivery_ok {s s' : DeliveryStore} {work : WebhookWork} {answer : WebhookAnswer}
    {next : Option WebhookWork} (h : s.Ok) (hwork : work.Ok)
    (hadvance : advanceDelivery s work answer = some (s', next)) :
    (s'.Ok ∧ s.Settled s') ∧ ∀ work' ∈ next, work'.Ok := by
  have hsame : s.Ok ∧ s.Settled s := ⟨h, .refl s⟩
  unfold advanceDelivery at hadvance
  split at hadvance
  · split at hadvance <;> cases hadvance <;> exact ⟨hsame, by simp [WebhookWork.Ok]⟩
  · cases hadvance
    exact ⟨hsame, by simp [WebhookWork.Ok]⟩
  · cases hadvance
    exact ⟨hsame, by simp [WebhookWork.Ok]⟩
  · cases hadvance
    exact ⟨hsame, by simp [WebhookWork.Ok]⟩
  · cases hadvance
    exact ⟨hsame, by simp [WebhookWork.Ok]⟩
  · cases hadvance
    exact ⟨hsame, by simp [WebhookWork.Ok]⟩
  · cases hadvance
    exact ⟨DeliveryStore.modify_ok h _ _ _ (IntegrationWebhook.keeps_settle _ hwork), by simp⟩
  · cases hadvance
    exact ⟨hsame, by simp⟩
  · cases hadvance
    exact ⟨hsame, by simp [WebhookWork.Ok]⟩
  · cases hadvance
    exact ⟨DeliveryStore.modify_ok h _ _ _ (IntegrationWebhook.keeps_recordError _), by simp⟩
  · cases hadvance
    exact ⟨hsame, by simp⟩
  · cases hadvance

theorem deliveries_stable : Stable deliveries .any DeliveryStore.Ok (fun _ work => work.Ok)
    fun _ _ => True where
  symm _ _ _ := trivial
  enter _ _ _ _ h _ henter :=
    have hok := enterDeliveries_ok h henter
    ⟨hok.1.1, hok.2, List.pairwise_of_forall fun _ _ => trivial⟩
  enterBeside _ _ _ _ _ _ _ _ hwork _ := ⟨hwork, fun _ _ => trivial⟩
  advance _ _ _ _ _ h hwork _ hadvance :=
    have hok := advanceDelivery_ok h hwork hadvance
    ⟨hok.1.1, hok.2⟩
  advanceBeside _ _ _ _ _ _ _ _ _ _ hwork _ _ := ⟨hwork, fun _ _ => trivial⟩
  drop _ _ h _ := h
  dropBeside _ _ _ _ _ hwork _ := hwork
  restart _ h := h

/-- One step of a run settles no delivery twice. -/
theorem settled_next {c c' : Config DeliveryStore WebhookWork} {e : Event WebhookInput WebhookAnswer}
    (h : Holds DeliveryStore.Ok (fun _ work => work.Ok) (fun _ _ => True) c)
    (hnext : deliveries.next c e = some c') : c.shared.Settled c'.shared := by
  cases e with
  | enter x =>
    obtain ⟨⟨s', ts⟩, henter, rfl⟩ := Option.map_eq_some_iff.mp hnext
    exact (enterDeliveries_ok h.shared henter).1.2
  | advance i e =>
    obtain ⟨t, ht, hmap⟩ := Option.bind_eq_some_iff.mp hnext
    obtain ⟨⟨s', t'⟩, hadvance, rfl⟩ := Option.map_eq_some_iff.mp hmap
    exact (advanceDelivery_ok h.shared (h.calls t (List.mem_of_getElem? ht)) hadvance).1.2
  | drop i =>
    obtain ⟨t, -, rfl⟩ := Option.map_eq_some_iff.mp hnext
    exact .refl _
  | restart =>
    cases hnext
    exact .refl _

/-! ## Nothing is stuck -/

theorem claimable_claimed (now : ℤ) (row : IntegrationWebhook) :
    (row.claimed now).claimable now = false := by
  unfold IntegrationWebhook.claimable IntegrationWebhook.claimed webhookProcessingLeaseSecs
  rw [Bool.and_eq_false_iff]
  right
  show decide (now < now - 5 * 60) = false
  rw [decide_eq_false_iff_not]
  omega

theorem enterDeliveries_claim {s : DeliveryStore} {id : ℕ} {now : ℤ}
    (h : claimNextWebhook s.webhooks now id = true) :
    enterDeliveries s (.claim id now) = some (s.claim id now, [.load id]) := if_pos h

/-- Claims of one moment reach every delivery that can be claimed then. -/
theorem exists_claims {now : ℤ} {id : ℕ} {row : IntegrationWebhook}
    {c : Config DeliveryStore WebhookWork} (hfind : c.shared.webhooks.find id = some row)
    (hclaimable : row.claimable now = true) :
    ∃ (ids : List ℕ) (c' : Config DeliveryStore WebhookWork),
      deliveries.run c (ids.map fun id => .enter (.claim id now)) = some c' ∧
        c'.shared.webhooks.find id = some (row.claimed now) := by
  induction hn : c.shared.webhooks.rows.countP (IntegrationWebhook.claimable now)
    using Nat.strongRecOn generalizing c with
  | ind n ih =>
    subst hn
    -- the delivery that the next claim takes
    obtain ⟨first, hfirst, hleast⟩ := Finset.exists_min_image
      (c.shared.webhooks.rows.filter (IntegrationWebhook.claimable now)).toFinset
      IntegrationWebhook.receivedAt ⟨row, List.mem_toFinset.mpr
        (List.mem_filter.mpr ⟨Table.mem_of_find hfind, hclaimable⟩)⟩
    obtain ⟨hrow, hcan⟩ := List.mem_filter.mp (List.mem_toFinset.mp hfirst)
    have hfound := Table.find_of_mem hrow
    have hclaim : claimNextWebhook c.shared.webhooks now first.id = true := by
      unfold claimNextWebhook
      rw [hfound, Option.any_some, hcan, Bool.true_and, List.all_eq_true]
      intro other hother
      by_cases hothercan : other.claimable now = true
      · have hle := hleast other (List.mem_toFinset.mpr (List.mem_filter.mpr ⟨hother, hothercan⟩))
        simp [hle]
      · simp [hothercan]
    have hnext : deliveries.next c (.enter (.claim first.id now)) =
        some ⟨c.shared.claim first.id now, c.calls ++ [.load first.id]⟩ := by
      show (enterDeliveries c.shared (.claim first.id now)).map _ = _
      rw [enterDeliveries_claim hclaim]
      rfl
    by_cases hid : id = first.id
    · refine ⟨[first.id], _, congrArg (Option.bind · some) hnext, ?_⟩
      show (c.shared.claim first.id now).webhooks.find id = _
      unfold DeliveryStore.claim
      rw [hid, Table.find_modify_self, ← hid, hfind]
      rfl
    · have hkept : (c.shared.claim first.id now).webhooks.find id = some row := by
        unfold DeliveryStore.claim
        rw [Table.find_modify_of_ne _ hid, hfind]
      obtain ⟨ids, c', hrun, hdone⟩ := ih _ (Table.countP_modify_lt
        (IntegrationWebhook.claimed_id now) hfound hcan (claimable_claimed now first))
        (c := ⟨c.shared.claim first.id now, c.calls ++ [.load first.id]⟩) hkept rfl
      refine ⟨first.id :: ids, c', ?_, hdone⟩
      show (deliveries.next c (.enter (.claim first.id now))).bind _ = _
      rw [hnext]
      exact hrun

/-- When a delivery can be claimed again or its lease has run out. -/
def IntegrationWebhook.freeAt (row : IntegrationWebhook) : ℤ :=
  max (row.nextAttemptAt.getD 0) (row.processingStartedAt.getD 0 + webhookProcessingLeaseSecs + 1)

theorem claimable_of_freeAt {row : IntegrationWebhook} {now : ℤ} (hstatus : row.status = .received)
    (hattempts : row.processingAttempts < maxWebhookProcessingAttempts) (hnow : row.freeAt ≤ now) :
    row.claimable now = true := by
  unfold IntegrationWebhook.freeAt at hnow
  obtain ⟨hnext, hlease⟩ := max_le_iff.mp hnow
  unfold IntegrationWebhook.claimable
  simp only [Bool.and_eq_true, decide_eq_true_eq]
  refine ⟨⟨⟨hstatus, hattempts⟩, ?_⟩, ?_⟩
  · cases hat : row.nextAttemptAt with
    | none => rfl
    | some at' =>
      rw [hat] at hnext
      exact decide_eq_true hnext
  · cases hat : row.processingStartedAt with
    | none => rfl
    | some started =>
      rw [hat, Option.getD_some] at hlease
      refine decide_eq_true ?_
      omega

theorem failExhausted_of_freeAt {row : IntegrationWebhook} {now : ℤ}
    (hstatus : row.status = .received) (hok : row.Ok)
    (hattempts : row.processingAttempts = maxWebhookProcessingAttempts) (hnow : row.freeAt ≤ now) :
    (row.failExhausted now).status = .failed := by
  obtain ⟨started, hstarted⟩ := Option.isSome_iff_exists.mp (hok.leased hstatus hattempts)
  unfold IntegrationWebhook.freeAt at hnow
  rw [hstarted, Option.getD_some] at hnow
  have hlease := (max_le_iff.mp hnow).2
  unfold IntegrationWebhook.failExhausted
  rw [if_pos]
  simp only [hstatus, hattempts, hstarted, Bool.and_eq_true, decide_eq_true_eq, Option.any_some]
  refine ⟨⟨trivial, le_refl _⟩, ?_⟩
  omega

/-- Every delivery is processed at most so many times, stays as it was settled, and while it is not
settled, from some moment on the claims of any moment reach it or the leases that are expired at
that moment include its own. -/
theorem deliveries_settle {es : List (Event WebhookInput WebhookAnswer)}
    {c : Config DeliveryStore WebhookWork} (hrun : deliveries.run ⟨.empty, []⟩ es = some c) :
    (∀ id, c.shared.processings.count id ≤ maxWebhookProcessingAttempts) ∧
    (∀ es' c', deliveries.run c es' = some c' → c.shared.Settled c'.shared) ∧
    ∀ row ∈ c.shared.webhooks.rows, row.status = .received → ∃ free, ∀ now, free ≤ now →
      (∃ (ids : List ℕ) (c' : _) (row' : _), deliveries.run c (ids.map fun id => .enter (.claim id now)) = some c' ∧
        c'.shared.webhooks.find row.id = some row' ∧
        row'.processingStartedAt = some now ∧
        row'.processingAttempts = row.processingAttempts + 1) ∨
      ∃ c' row', deliveries.run c [.enter (.failExhausted now)] = some c' ∧
        c'.shared.webhooks.find row.id = some row' ∧ row'.status = .failed := by
  have hholds := deliveries_stable.run (.start DeliveryStore.ok_empty) (meets_any _ _ _) hrun
  refine ⟨fun id => ?_, fun es' c' hrun' => ?_, fun row hrow hstatus => ⟨row.freeAt, ?_⟩⟩
  · by_cases hid : id ∈ c.shared.processings
    · obtain ⟨row, hrow, rfl⟩ := List.mem_map.mp (hholds.shared.known id hid)
      rw [hholds.shared.counted row hrow]
      exact (hholds.shared.rows row hrow).bounded
    · rw [List.count_eq_zero.mpr hid]
      exact Nat.zero_le _
  · exact deliveries_stable.run_rel (R := DeliveryStore.Settled) .refl (fun _ _ _ => .trans)
      (fun _ _ _ h _ hnext => settled_next h hnext) hholds (meets_any _ _ _) hrun'
  · intro now hnow
    have hfind := Table.find_of_mem hrow
    have hok := hholds.shared.rows row hrow
    rcases Nat.lt_or_eq_of_le hok.bounded with hleft | hused
    · obtain ⟨ids, c', hclaims, hclaimed⟩ :=
        exists_claims hfind (claimable_of_freeAt hstatus hleft hnow)
      exact .inl ⟨ids, c', _, hclaims, hclaimed, rfl, rfl⟩
    · refine .inr ⟨_, row.failExhausted now, rfl, ?_,
        failExhausted_of_freeAt hstatus hok hused hnow⟩
      show (c.shared.webhooks.mapRows (·.failExhausted now)
        (IntegrationWebhook.failExhausted_id now)).find row.id = _
      rw [Table.find_mapRows, hfind]
      rfl

/-- A delivery whose worker is lost. -/
theorem deliveries_settle_lost : ∃ c, deliveries.run ⟨.empty, []⟩
      [.enter (.receive 1 0), .enter (.claim 1 10), .drop 0] = some c ∧
    c.shared.processings.count 1 ≤ maxWebhookProcessingAttempts ∧
    c.shared.webhooks.rows.all (·.status = .received) = true := by
  have hsome : ((deliveries.run ⟨.empty, []⟩ [.enter (.receive 1 0), .enter (.claim 1 10),
      .drop 0]).any fun c => c.shared.webhooks.rows.all (·.status = .received)) = true := by
    decide +kernel
  obtain ⟨c, hrun, hreceived⟩ := Option.any_eq_true _ _ |>.mp hsome
  exact ⟨c, hrun, (deliveries_settle hrun).1 1, hreceived⟩

end OoreBuild
