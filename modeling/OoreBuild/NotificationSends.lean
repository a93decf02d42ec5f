import OoreBuild.Notifications
import OoreBuild.Lib.Interleave

/-!
# Sending notifications

An attempt at a delivery claims the row for the time of a lease, sends the notification to the
channel's recipients one after another and records the result (`attemptDelivery` in the source).
First sends, the retry scan and a restart all start attempts. The claim has no owner: an attempt
whose lease has run out records its result like any other.
-/

namespace OoreBuild

namespace Sends

open Text Notifications

/-! ## State -/

structure DeliveryRow where
  id : ℕ
  channelId : Text
  status : DeliveryStatus
  attemptCount : ℕ
  /-- The stored notification is there and can be read. -/
  readable : Bool
  nextAttemptAt : Option ℤ
  deliveredAt : Option ℤ
  lastError : Option Text
  deriving DecidableEq

/-- What an attempt has claimed. -/
structure Claimed where
  id : ℕ
  attempt : ℕ
  channelId : Text
  readable : Bool
  leaseEnd : ℤ

/-- A message that a recipient got. -/
structure Sent where
  deliveryId : ℕ
  attempt : ℕ
  recipient : Text

structure Store where
  deliveries : Table DeliveryRow.id
  /-- The enabled channels, each with the recipients of its messages. -/
  channels : Text → Option (List Text)
  clock : ℤ
  sent : List Sent
  /-- The attempts whose send failed. -/
  failedSends : List (ℕ × ℕ)
  /-- The attempts that hold a claim. -/
  underWay : List Claimed
  /-- The attempts that ended before their result was recorded. -/
  cutOff : List (ℕ × ℕ)
  nextDelivery : ℕ

/-- One attempt, by what it does next. -/
inductive Attempt where
  | start (id : ℕ)
  | claim (id : ℕ) (now : ℤ)
  | load (claimed : Claimed)
  | send (claimed : Claimed) (recipients : List Text)
  | settle (claimed : Claimed) (result : Except Text Unit) (retry : Bool)

structure Answer where
  store : Bool
  post : Except Text Unit

inductive Input where
  | record (channelId : Text) (readable : Bool)
  | deliver (id : ℕ)
  | channel (id : Text) (recipients : Option (List Text))
  | tick (now : ℤ)

/-! ## Steps -/

def maxDeliveryAttempts : ℕ := 5

def retryBaseSecs : ℤ := 30

/-- Longer than a single send takes. -/
def deliveryLeaseSecs : ℤ := 120

def DeliveryRow.claim (row : DeliveryRow) (now : ℤ) : DeliveryRow :=
  { row with
    attemptCount := row.attemptCount + 1
    nextAttemptAt := some (now + deliveryLeaseSecs) }

theorem DeliveryRow.claim_id (row : DeliveryRow) (now : ℤ) : (row.claim now).id = row.id := rfl

/-- When a failed attempt is followed by another one. -/
def nextAttempt (now : ℤ) (attempt : ℕ) (retry : Bool) : Option ℤ :=
  if retry then some (now + retryBaseSecs * 2 ^ min (attempt - 1) 10) else none

/-- The result of an attempt, whatever the row says by then. -/
def DeliveryRow.settle (row : DeliveryRow) (now : ℤ) (attempt : ℕ) (retry : Bool) :
    Except Text Unit → DeliveryRow
  | .ok _ =>
    { row with
      status := .delivered, deliveredAt := some now, nextAttemptAt := none, lastError := none }
  | .error e =>
    { row with
      status := if (nextAttempt now attempt retry).isNone then .failed else .pending
      nextAttemptAt := nextAttempt now attempt retry
      lastError := some e }

theorem DeliveryRow.settle_id (row : DeliveryRow) (now : ℤ) (attempt : ℕ) (retry : Bool)
    (result : Except Text Unit) : (row.settle now attempt retry result).id = row.id := by
  cases result <;> rfl

def Store.release (s : Store) (claimed : Claimed) : Store :=
  { s with underWay := s.underWay.filter fun other => other.id ≠ claimed.id ∨
      other.attempt ≠ claimed.attempt }

def Store.cut (s : Store) (claimed : Claimed) : Store :=
  { s.release claimed with cutOff := (claimed.id, claimed.attempt) :: s.cutOff }

/-- Claim a due delivery. Claiming pushes the next attempt past the lease. -/
def Store.claim (s : Store) (id : ℕ) (now : ℤ) : Option (Store × Claimed) := do
  let row ← s.deliveries.find id
  if row.status = .pending ∧ row.nextAttemptAt.any (· ≤ now) = true then
    let claimed := ⟨id, row.attemptCount + 1, row.channelId, row.readable, now + deliveryLeaseSecs⟩
    some ({ s with
      deliveries := s.deliveries.modify id (·.claim now) fun row => row.claim_id now
      underWay := claimed :: s.underWay }, claimed)
  else none

def Store.settle (s : Store) (claimed : Claimed) (result : Except Text Unit) (retry : Bool) :
    Store :=
  let settled := { s with
    deliveries := s.deliveries.modify claimed.id
      (·.settle s.clock claimed.attempt retry result) fun row =>
        row.settle_id s.clock claimed.attempt retry result }
  settled.release claimed

def advance (s : Store) : Attempt → Answer → Store × Option Attempt
  | .start id, _ => (s, some (.claim id s.clock))
  | .claim id now, answer =>
    match if answer.store then s.claim id now else none with
    | some (s, claimed) => (s, some (.load claimed))
    | none => (s, none)
  | .load claimed, answer =>
    if answer.store then
      match s.channels claimed.channelId with
      | none => (s, some (.settle claimed (.error "channel was disabled".toList) false))
      | some recipients =>
        if claimed.readable then (s, some (.send claimed recipients))
        else (s, some (.settle claimed (.error "notification was not recorded".toList) false))
    else (s.cut claimed, none)
  | .send claimed [], _ => (s, some (.settle claimed (.ok ()) false))
  | .send claimed (recipient :: rest), answer =>
    match answer.post with
    | .ok _ =>
      ({ s with sent := ⟨claimed.id, claimed.attempt, recipient⟩ :: s.sent },
        some (.send claimed rest))
    | .error e =>
      ({ s with failedSends := (claimed.id, claimed.attempt) :: s.failedSends },
        some (.settle claimed (.error e) (claimed.attempt < maxDeliveryAttempts)))
  | .settle claimed result retry, answer =>
    if answer.store then (s.settle claimed result retry, none) else (s.cut claimed, none)

def enter (s : Store) : Input → Option (Store × List Attempt)
  | .record channelId readable =>
    if hnew : s.nextDelivery ∉ s.deliveries.rows.map (·.id) then
      some ({ s with
        deliveries := s.deliveries.insert
          ⟨s.nextDelivery, channelId, .pending, 0, readable, some s.clock, none, none⟩ hnew
        nextDelivery := s.nextDelivery + 1 }, [])
    else none
  | .deliver id => some (s, [.start id])
  | .channel id recipients =>
    some ({ s with channels := Function.update s.channels id recipients }, [])
  | .tick now => some ({ s with clock := now }, [])

def Attempt.claimed : Attempt → Option Claimed
  | .start _ | .claim _ _ => none
  | .load claimed | .send claimed _ | .settle claimed _ _ => some claimed

/-- The attempts as a system. -/
def sends : Interleave Store Attempt Input Answer where
  enter := enter
  advance s attempt answer := some (advance s attempt answer)
  drop s attempt := attempt.claimed.elim s s.cut
  restart s :=
    { s with
      cutOff := s.underWay.map (fun claimed => (claimed.id, claimed.attempt)) ++ s.cutOff
      underWay := [] }

def Store.new : Store where
  deliveries := ⟨[], List.nodup_nil⟩
  channels _ := none
  clock := 0
  sent := []
  failedSends := []
  underWay := []
  cutOff := []
  nextDelivery := 0

end Sends

end OoreBuild
