import OoreBuild.Lib.Steps
import OoreBuild.Lib.Text
import OoreBuild.Lib.Upsert

/-!
# Tokens of the local artifact storage

The store of upload and download tokens keeps two maps: the entries by token hash, and the hashes in
the order of expiry, where a sequence number breaks ties. Each operation first removes what has
expired; an insert into a full store also removes the entry that expires first. A run keeps a log
of its operations, to say which entries stand.
-/

namespace OoreBuild

namespace LocalTokens

structure LocalTokenEntry where
  key : Text
  expiresAt : ℤ
  sequence : ℕ
  deriving DecidableEq

structure LocalTokenStore where
  entries : List (Text × LocalTokenEntry)
  expiryOrder : List ((ℤ × ℕ) × Text)
  capacity : ℕ
  nextSequence : ℕ

/-! ## Operations -/

def LocalTokenStore.new (capacity : ℕ) : LocalTokenStore := ⟨[], [], capacity, 0⟩

/-- The order of the keys: by expiry, then by sequence number. -/
def before (a b : ℤ × ℕ) : Bool := a.1 < b.1 || (a.1 = b.1 && a.2 < b.2)

/-- The hash that expires first, with its key. -/
def firstKeyValue : List ((ℤ × ℕ) × Text) → Option ((ℤ × ℕ) × Text)
  | [] => none
  | row :: rest =>
    match firstKeyValue rest with
    | none => some row
    | some other => if before other.1 row.1 then some other else some row

/-- The store without the first hash of the order and its entry. -/
def LocalTokenStore.pop (s : LocalTokenStore) (row : (ℤ × ℕ) × Text) : LocalTokenStore :=
  { s with
    expiryOrder := Rows.erase Prod.fst row.1 s.expiryOrder
    entries := Rows.erase Prod.fst row.2 s.entries }

/-- Turns of the loop that removes what has expired. -/
def LocalTokenStore.purgeFor (now : ℤ) : ℕ → LocalTokenStore → LocalTokenStore
  | 0, s => s
  | turns + 1, s =>
    match firstKeyValue s.expiryOrder with
    | none => s
    | some row => if now < row.1.1 then s else purgeFor now turns (s.pop row)

/-- Each turn removes a hash of the order. -/
def LocalTokenStore.purgeExpired (s : LocalTokenStore) (now : ℤ) : LocalTokenStore :=
  s.purgeFor now s.expiryOrder.length

/-- Turns of the loop that makes room; `none` where the assertion fails that the evicted entry has
not expired. -/
def LocalTokenStore.evictFor (now : ℤ) : ℕ → LocalTokenStore → Option LocalTokenStore
  | 0, s => some s
  | turns + 1, s =>
    if s.capacity ≤ s.entries.length then
      match firstKeyValue s.expiryOrder with
      | none => some s
      | some row => if now < row.1.1 then evictFor now turns (s.pop row) else none
    else some s

/-- What an insert does before it inserts. -/
def LocalTokenStore.makeRoom (s : LocalTokenStore) (now : ℤ) : Option LocalTokenStore :=
  (s.purgeExpired now).evictFor now (s.purgeExpired now).expiryOrder.length

/-- The sequence number is an unsigned integer of 64 bits, and wraps. -/
def LocalTokenStore.place (s : LocalTokenStore) (tokenHash : Text) (entry : LocalTokenEntry) :
    LocalTokenStore :=
  { s with
    expiryOrder := Rows.put Prod.fst ((entry.expiresAt, s.nextSequence), tokenHash) s.expiryOrder
    entries := Rows.put Prod.fst (tokenHash, { entry with sequence := s.nextSequence }) s.entries
    nextSequence := (s.nextSequence + 1) % 2 ^ 64 }

def LocalTokenStore.insert (s : LocalTokenStore) (tokenHash : Text) (entry : LocalTokenEntry)
    (now : ℤ) : Option LocalTokenStore :=
  (s.makeRoom now).map fun room => room.place tokenHash entry

/-- The entry of a hash. -/
def LocalTokenStore.find (s : LocalTokenStore) (tokenHash : Text) : Option LocalTokenEntry :=
  (s.entries.find? fun row => row.1 = tokenHash).map Prod.snd

def LocalTokenStore.get (s : LocalTokenStore) (tokenHash : Text) (now : ℤ) :
    LocalTokenStore × Option LocalTokenEntry :=
  (s.purgeExpired now, (s.purgeExpired now).find tokenHash)

def LocalTokenStore.remove (s : LocalTokenStore) (tokenHash : Text) (now : ℤ) :
    LocalTokenStore × Option LocalTokenEntry :=
  match (s.purgeExpired now).find tokenHash with
  | none => (s.purgeExpired now, none)
  | some entry =>
    ((s.purgeExpired now).pop ((entry.expiresAt, entry.sequence), tokenHash), some entry)

/-! ## Runs -/

inductive Op where
  | insert (tokenHash : Text) (entry : LocalTokenEntry) (now : ℤ)
  | get (tokenHash : Text) (now : ℤ)
  | remove (tokenHash : Text) (now : ℤ)

/-- What an operation did: the entry it inserted, and the hashes it removed or evicted. -/
structure Done where
  now : ℤ
  inserted : Option (Text × LocalTokenEntry) := none
  removed : Option Text := none
  evicted : List Text := []

/-- The hashes of the entries that had not expired and were removed to make room. -/
def LocalTokenStore.evicted (s : LocalTokenStore) (now : ℤ) : List Text :=
  match s.makeRoom now with
  | none => []
  | some room => ((s.purgeExpired now).entries.filter (· ∉ room.entries)).map Prod.fst

/-- A store with the log of its operations, the last one first. -/
structure Run where
  store : LocalTokenStore
  log : List Done

def Run.new (capacity : ℕ) : Run := ⟨LocalTokenStore.new capacity, []⟩

/-- An operation; `none` where the assertion fails. -/
def Run.step (t : Run) : Op → Option Run
  | .insert tokenHash entry now =>
    (t.store.insert tokenHash entry now).map fun store =>
      { store
        log :=
          { now
            inserted := some (tokenHash, { entry with sequence := t.store.nextSequence })
            evicted := t.store.evicted now } :: t.log }
  | .get tokenHash now => some ⟨(t.store.get tokenHash now).1, { now } :: t.log⟩
  | .remove tokenHash now =>
    some ⟨(t.store.remove tokenHash now).1, { now, removed := some tokenHash } :: t.log⟩

/-- An entry was inserted, and no operation since removed or evicted it or ran when it had
expired. -/
def Stands (log : List Done) (tokenHash : Text) (entry : LocalTokenEntry) : Prop :=
  ∃ later done earlier, log = later ++ done :: earlier ∧
    done.inserted = some (tokenHash, entry) ∧
    ∀ op ∈ later, op.now < entry.expiresAt ∧ tokenHash ∉ op.evicted ∧
      op.removed ≠ some tokenHash

/-- The key of an entry in the order of expiry, with its hash. -/
def orderRow (row : Text × LocalTokenEntry) : (ℤ × ℕ) × Text :=
  ((row.2.expiresAt, row.2.sequence), row.1)

/-- The two maps hold the same hashes, each once, under the keys that the entries name. -/
structure LocalTokenStore.InStep (s : LocalTokenStore) : Prop where
  hashes : (s.entries.map Prod.fst).Nodup
  keys : (s.expiryOrder.map Prod.fst).Nodup
  perm : s.expiryOrder.Perm (s.entries.map orderRow)

/-- What holds after each operation. -/
structure Run.Right (t : Run) : Prop where
  inStep : t.store.InStep
  bounded : t.store.entries.length ≤ t.store.capacity
  /-- The assertion does not fail. -/
  asserted : ∀ tokenHash entry now, (t.store.insert tokenHash entry now).isSome
  get : ∀ tokenHash now entry, (t.store.get tokenHash now).2 = some entry ↔
    Stands t.log tokenHash entry ∧ now < entry.expiresAt
  remove : ∀ tokenHash now entry, (t.store.remove tokenHash now).2 = some entry ↔
    Stands t.log tokenHash entry ∧ now < entry.expiresAt
  /-- An insert evicts only from a store that is full after purging, and what expires first. -/
  evicts : ∀ now room, t.store.makeRoom now = some room →
    ∀ row ∈ (t.store.purgeExpired now).entries, row ∉ room.entries →
      t.store.capacity ≤ (t.store.purgeExpired now).entries.length ∧
        ∀ other ∈ (t.store.purgeExpired now).entries, row.2.expiresAt ≤ other.2.expiresAt

/-- An insert is of a hash that is not in the store. -/
def Run.Fresh (t : Run) : Op → Prop
  | .insert tokenHash _ _ => tokenHash ∉ t.store.entries.map Prod.fst
  | _ => True

/-- No entry that an insert leaves has the expiry and the sequence number of the new one. -/
def Run.NoTie (t : Run) : Op → Prop
  | .insert _ entry now => ∀ room, t.store.makeRoom now = some room →
    (entry.expiresAt, room.nextSequence) ∉ room.expiryOrder.map Prod.fst
  | _ => True

def Op.isInsert : Op → Bool
  | .insert .. => true
  | _ => false

end LocalTokens

end OoreBuild
