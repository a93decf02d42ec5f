import OoreBuild.LocalTokens

/-!
# The local tokens over whole runs

Both maps of the token store change together, so every hash is in both under the key that its
entry names. Purging leaves the entries that expire later than now, and a full store loses the one
that expires first. An insert that takes an expiry and a sequence number that an entry still has
replaces that entry's key: the sequence number wraps after 2^64 inserts.
-/

namespace OoreBuild

namespace LocalTokens

variable {s room : LocalTokenStore} {t t' : Run} {now : ℤ}

/-! ## The first hash -/

theorem mem_of_firstKeyValue {order : List ((ℤ × ℕ) × Text)} {row : (ℤ × ℕ) × Text}
    (h : firstKeyValue order = some row) : row ∈ order := by
  induction order generalizing row with
  | nil => cases h
  | cons first rest ih =>
    unfold firstKeyValue at h
    split at h
    · exact Option.some.inj h ▸ List.mem_cons_self
    · next other hother =>
      split_ifs at h
      · exact List.mem_cons_of_mem _ (ih (hother.trans h))
      · exact Option.some.inj h ▸ List.mem_cons_self

theorem firstKeyValue_eq_none {order : List ((ℤ × ℕ) × Text)} (h : firstKeyValue order = none) :
    order = [] := by
  cases order with
  | nil => rfl
  | cons first rest =>
    unfold firstKeyValue at h
    split at h
    · cases h
    · split_ifs at h

theorem expiry_le_of_before {a b : ℤ × ℕ} (h : before a b = true) : a.1 ≤ b.1 := by
  simp only [before, Bool.or_eq_true, Bool.and_eq_true, decide_eq_true_eq] at h
  omega

theorem expiry_le_of_not_before {a b : ℤ × ℕ} (h : ¬ before a b = true) : b.1 ≤ a.1 := by
  simp only [before, Bool.or_eq_true, Bool.and_eq_true, decide_eq_true_eq] at h
  omega

/-- The first hash expires first. -/
theorem expiry_le_of_firstKeyValue {order : List ((ℤ × ℕ) × Text)} {row : (ℤ × ℕ) × Text}
    (h : firstKeyValue order = some row) : ∀ other ∈ order, row.1.1 ≤ other.1.1 := by
  induction order generalizing row with
  | nil => cases h
  | cons first rest ih =>
    unfold firstKeyValue at h
    intro other hother
    split at h
    · next hnone =>
      obtain rfl := Option.some.inj h
      rw [firstKeyValue_eq_none hnone, List.mem_singleton] at hother
      exact hother ▸ le_rfl
    · next least hleast =>
      have hrest := ih hleast
      split_ifs at h with hbefore
      · obtain rfl := Option.some.inj h
        rcases List.mem_cons.mp hother with rfl | hmem
        · exact expiry_le_of_before hbefore
        · exact hrest other hmem
      · obtain rfl := Option.some.inj h
        rcases List.mem_cons.mp hother with rfl | hmem
        · exact le_rfl
        · exact (expiry_le_of_not_before hbefore).trans (hrest other hmem)

/-! ## Both maps -/

theorem inStep_new (capacity : ℕ) : (LocalTokenStore.new capacity).InStep :=
  ⟨List.nodup_nil, List.nodup_nil, List.Perm.refl _⟩

namespace LocalTokenStore.InStep

theorem mem_order (h : s.InStep) {row : Text × LocalTokenEntry} (hrow : row ∈ s.entries) :
    orderRow row ∈ s.expiryOrder :=
  h.perm.mem_iff.mpr (List.mem_map_of_mem hrow)

theorem exists_entry (h : s.InStep) {row : (ℤ × ℕ) × Text} (hrow : row ∈ s.expiryOrder) :
    ∃ entry ∈ s.entries, orderRow entry = row :=
  List.mem_map.mp (h.perm.mem_iff.mp hrow)

/-- Removing a hash of the order with its entry keeps the maps in step. -/
theorem pop (h : s.InStep) {row : Text × LocalTokenEntry} (hrow : row ∈ s.entries) :
    (s.pop (orderRow row)).InStep where
  hashes := Rows.nodup_erase h.hashes _
  keys := Rows.nodup_erase h.keys _
  perm := by
    have horder := Rows.perm_cons_erase h.keys (h.mem_order hrow)
    have hentries := (Rows.perm_cons_erase h.hashes hrow).map orderRow
    exact (List.perm_cons _).mp ((horder.symm.trans h.perm).trans hentries)

/-- A new hash with a new key keeps the maps in step. -/
theorem place (h : s.InStep) {tokenHash : Text} {entry : LocalTokenEntry}
    (hfresh : tokenHash ∉ s.entries.map Prod.fst)
    (hkey : (entry.expiresAt, s.nextSequence) ∉ s.expiryOrder.map Prod.fst) :
    (s.place tokenHash entry).InStep where
  hashes := Rows.nodup_put h.hashes
  keys := Rows.nodup_put h.keys
  perm := by
    let placed : Text × LocalTokenEntry :=
      (tokenHash, { entry with sequence := s.nextSequence })
    have horder : (Rows.put Prod.fst (orderRow placed) s.expiryOrder).Perm
        (orderRow placed :: s.expiryOrder) := Rows.put_perm_of_notMem h.keys hkey
    have hentries : (Rows.put Prod.fst placed s.entries).Perm (placed :: s.entries) :=
      Rows.put_perm_of_notMem h.hashes hfresh
    exact (horder.trans (h.perm.cons _)).trans (hentries.map orderRow).symm

theorem length_eq (h : s.InStep) : s.expiryOrder.length = s.entries.length := by
  rw [h.perm.length_eq, List.length_map]

theorem entries_eq_nil (h : s.InStep) (horder : s.expiryOrder = []) : s.entries = [] := by
  refine List.length_eq_zero_iff.mp ?_
  rw [← h.length_eq, horder, List.length_nil]

theorem length_pop (h : s.InStep) {row : Text × LocalTokenEntry} (hrow : row ∈ s.entries) :
    (s.pop (orderRow row)).entries.length + 1 = s.entries.length :=
  (Rows.perm_cons_erase h.hashes hrow).length_eq.symm

end LocalTokenStore.InStep

/-! ## Purging -/

/-- What purging leaves. -/
structure Purged (now : ℤ) (s purged : LocalTokenStore) : Prop where
  inStep : purged.InStep
  entries : purged.entries = s.entries.filter (now < ·.2.expiresAt)
  order : purged.expiryOrder.Sublist s.expiryOrder
  capacity : purged.capacity = s.capacity
  nextSequence : purged.nextSequence = s.nextSequence

theorem purged_self (h : s.InStep) (hlive : ∀ row ∈ s.entries, now < row.2.expiresAt) :
    Purged now s s where
  inStep := h
  entries := (List.filter_eq_self.mpr fun row hrow => decide_eq_true (hlive row hrow)).symm
  order := List.Sublist.refl _
  capacity := rfl
  nextSequence := rfl

/-- An expired entry that is removed is not missed. -/
theorem filter_pop (h : s.InStep) {row : Text × LocalTokenEntry} (hrow : row ∈ s.entries)
    (hexpired : ¬ now < row.2.expiresAt) :
    (s.pop (orderRow row)).entries.filter (now < ·.2.expiresAt) =
      s.entries.filter (now < ·.2.expiresAt) := by
  show (Rows.erase Prod.fst row.1 s.entries).filter _ = _
  unfold Rows.erase
  rw [List.filter_filter]
  refine List.filter_congr fun other hother => ?_
  rw [Bool.and_eq_left_iff_imp]
  intro hlive
  refine decide_eq_true fun hsame => hexpired ?_
  rw [← List.inj_on_of_nodup_map h.hashes hother hrow hsame]
  exact of_decide_eq_true hlive

theorem purgeFor_spec (h : s.InStep) {turns : ℕ} (hturns : s.entries.length ≤ turns) :
    Purged now s (s.purgeFor now turns) := by
  induction turns generalizing s with
  | zero =>
    have hnil : s.entries = [] := List.length_eq_zero_iff.mp (Nat.le_zero.mp hturns)
    exact purged_self h fun row hrow => by rw [hnil] at hrow; cases hrow
  | succ turns ih =>
    unfold LocalTokenStore.purgeFor
    split
    · next hnone =>
      have hnil := h.entries_eq_nil (firstKeyValue_eq_none hnone)
      exact purged_self h fun row hrow => by rw [hnil] at hrow; cases hrow
    · next first hfirst =>
      split_ifs with hlive
      · refine purged_self h fun row hrow => hlive.trans_le ?_
        exact expiry_le_of_firstKeyValue hfirst _ (h.mem_order hrow)
      · obtain ⟨row, hrow, rfl⟩ := h.exists_entry (mem_of_firstKeyValue hfirst)
        have hlength := h.length_pop hrow
        have hrest := ih (h.pop hrow) (by omega)
        exact
          { inStep := hrest.inStep
            entries := hrest.entries.trans (filter_pop h hrow hlive)
            order := hrest.order.trans (Rows.erase_sublist _ _)
            capacity := hrest.capacity
            nextSequence := hrest.nextSequence }

theorem purgeExpired_spec (h : s.InStep) (now : ℤ) : Purged now s (s.purgeExpired now) :=
  purgeFor_spec h h.length_eq.ge

/-! ## Making room -/

/-- What an insert leaves before it inserts: all that purging left, or all but the entry that
expires first where the store was full. -/
structure MadeRoom (s room : LocalTokenStore) : Prop where
  inStep : room.InStep
  bounded : room.entries.length < room.capacity
  capacity : room.capacity = s.capacity
  nextSequence : room.nextSequence = s.nextSequence
  order : room.expiryOrder.Sublist s.expiryOrder
  entries : room.entries.Sublist s.entries
  evicts : ∀ row ∈ s.entries, row ∉ room.entries →
    s.capacity ≤ s.entries.length ∧ ∀ other ∈ s.entries, row.2.expiresAt ≤ other.2.expiresAt

theorem evictFor_of_lt (h : s.entries.length < s.capacity) (turns : ℕ) :
    s.evictFor now turns = some s := by
  cases turns with
  | zero => rfl
  | succ turns => exact if_neg (Nat.not_le.mpr h)

theorem madeRoom_self (h : s.InStep) (hroom : s.entries.length < s.capacity) : MadeRoom s s where
  inStep := h
  bounded := hroom
  capacity := rfl
  nextSequence := rfl
  order := List.Sublist.refl _
  entries := List.Sublist.refl _
  evicts _ hrow hnot := absurd hrow hnot

theorem madeRoom_pop (h : s.InStep) {row : Text × LocalTokenEntry} (hrow : row ∈ s.entries)
    (hbounded : s.entries.length ≤ s.capacity) (hfull : s.capacity ≤ s.entries.length)
    (hfirst : ∀ other ∈ s.entries, row.2.expiresAt ≤ other.2.expiresAt) :
    MadeRoom s (s.pop (orderRow row)) where
  inStep := h.pop hrow
  bounded := by
    have hlength := h.length_pop hrow
    show (s.pop (orderRow row)).entries.length < s.capacity
    omega
  capacity := rfl
  nextSequence := rfl
  order := Rows.erase_sublist _ _
  entries := Rows.erase_sublist _ _
  evicts other hother hnot := by
    have hsame : other.1 = row.1 := by
      by_contra hne
      exact hnot (Rows.mem_erase.mpr ⟨hother, hne⟩)
    rw [List.inj_on_of_nodup_map h.hashes hother hrow hsame]
    exact ⟨hfull, hfirst⟩

/-- The loop evicts at most once, and its assertion holds. -/
theorem evictFor_spec (h : s.InStep) (hlive : ∀ row ∈ s.entries, now < row.2.expiresAt)
    (hbounded : s.entries.length ≤ s.capacity) (hcapacity : 1 ≤ s.capacity) :
    ∃ room, s.evictFor now s.expiryOrder.length = some room ∧ MadeRoom s room := by
  by_cases hroom : s.entries.length < s.capacity
  · exact ⟨s, evictFor_of_lt hroom _, madeRoom_self h hroom⟩
  · have hfull : s.capacity ≤ s.entries.length := Nat.not_lt.mp hroom
    obtain ⟨turns, hturns⟩ : ∃ turns, s.expiryOrder.length = turns + 1 := by
      refine Nat.exists_eq_succ_of_ne_zero ?_
      have hlength := h.length_eq
      omega
    rw [hturns]
    unfold LocalTokenStore.evictFor
    rw [if_pos hfull]
    split
    · next hnone =>
      rw [firstKeyValue_eq_none hnone] at hturns
      cases hturns
    · next first hfirst =>
      obtain ⟨row, hrow, rfl⟩ := h.exists_entry (mem_of_firstKeyValue hfirst)
      have hpop := madeRoom_pop h hrow hbounded hfull fun other hother =>
        expiry_le_of_firstKeyValue hfirst _ (h.mem_order hother)
      exact ⟨_, (if_pos (hlive row hrow)).trans (evictFor_of_lt hpop.bounded turns), hpop⟩

/-- An insert into a store that is not over its capacity finds room. -/
theorem makeRoom_spec (h : s.InStep) (hbounded : s.entries.length ≤ s.capacity)
    (hcapacity : 1 ≤ s.capacity) (now : ℤ) :
    ∃ room, s.makeRoom now = some room ∧ MadeRoom (s.purgeExpired now) room := by
  have hpurged := purgeExpired_spec h now
  refine evictFor_spec hpurged.inStep (fun row hrow => ?_) ?_ (hpurged.capacity ▸ hcapacity)
  · rw [hpurged.entries] at hrow
    exact of_decide_eq_true (List.mem_filter.mp hrow).2
  · rw [hpurged.entries, hpurged.capacity]
    exact (List.length_filter_le _ _).trans hbounded

/-! ## The log -/

/-- The conditions on a later operation under which an entry still stands. -/
def Done.Leaves (op : Done) (tokenHash : Text) (entry : LocalTokenEntry) : Prop :=
  op.now < entry.expiresAt ∧ tokenHash ∉ op.evicted ∧ op.removed ≠ some tokenHash

theorem stands_cons {op : Done} {log : List Done} {tokenHash : Text} {entry : LocalTokenEntry} :
    Stands (op :: log) tokenHash entry ↔ op.inserted = some (tokenHash, entry) ∨
      Stands log tokenHash entry ∧ op.Leaves tokenHash entry := by
  constructor
  · rintro ⟨later, done, earlier, hlog, hinserted, hlater⟩
    cases later with
    | nil => exact Or.inl ((List.cons.inj hlog).1 ▸ hinserted)
    | cons first later =>
      obtain ⟨rfl, hrest⟩ := List.cons.inj hlog
      refine Or.inr ⟨⟨later, done, earlier, hrest, hinserted, fun other hother => ?_⟩, ?_⟩
      · exact hlater other (List.mem_cons_of_mem _ hother)
      · exact hlater op List.mem_cons_self
  · rintro (hinserted | ⟨⟨later, done, earlier, rfl, hinserted, hlater⟩, hleaves⟩)
    · exact ⟨[], op, log, rfl, hinserted, nofun⟩
    · refine ⟨op :: later, done, earlier, rfl, hinserted, fun other hother => ?_⟩
      rcases List.mem_cons.mp hother with rfl | hother
      · exact hleaves
      · exact hlater other hother

/-- What each operation keeps: the entries are those that stand. -/
structure Run.Kept (t : Run) : Prop where
  inStep : t.store.InStep
  bounded : t.store.entries.length ≤ t.store.capacity
  positive : 1 ≤ t.store.capacity
  stands : ∀ tokenHash entry, (tokenHash, entry) ∈ t.store.entries ↔ Stands t.log tokenHash entry

theorem kept_new {capacity : ℕ} (h : 1 ≤ capacity) : (Run.new capacity).Kept where
  inStep := inStep_new capacity
  bounded := Nat.zero_le _
  positive := h
  stands tokenHash entry := by
    refine iff_of_false (List.not_mem_nil) ?_
    rintro ⟨later, done, earlier, hlog, _⟩
    exact List.append_ne_nil_of_right_ne_nil later (List.cons_ne_nil done earlier) hlog.symm

/-! ## Reading -/

theorem find_eq_some_iff (h : s.InStep) {tokenHash : Text} {entry : LocalTokenEntry} :
    s.find tokenHash = some entry ↔ (tokenHash, entry) ∈ s.entries := by
  unfold LocalTokenStore.find
  rw [Option.map_eq_some_iff]
  constructor
  · rintro ⟨row, hrow, rfl⟩
    have hhash : row.1 = tokenHash := by simpa using List.find?_some hrow
    exact hhash ▸ List.mem_of_find?_eq_some hrow
  · intro hmem
    have hsome : (s.entries.find? fun row => decide (row.1 = tokenHash)).isSome := by
      rw [List.find?_isSome]
      exact ⟨_, hmem, decide_eq_true rfl⟩
    obtain ⟨row, hrow⟩ := Option.isSome_iff_exists.mp hsome
    have hhash : row.1 = tokenHash := by simpa using List.find?_some hrow
    refine ⟨row, hrow, ?_⟩
    rw [List.inj_on_of_nodup_map h.hashes (List.mem_of_find?_eq_some hrow) hmem hhash]

/-- The entries that purging leaves stand and expire later than now. -/
theorem Run.Kept.mem_purged (h : t.Kept) {tokenHash : Text} {entry : LocalTokenEntry} :
    (tokenHash, entry) ∈ (t.store.purgeExpired now).entries ↔
      Stands t.log tokenHash entry ∧ now < entry.expiresAt := by
  rw [(purgeExpired_spec h.inStep now).entries, List.mem_filter, h.stands, decide_eq_true_eq]

theorem Run.Kept.get_iff (h : t.Kept) {tokenHash : Text} {entry : LocalTokenEntry} :
    (t.store.get tokenHash now).2 = some entry ↔
      Stands t.log tokenHash entry ∧ now < entry.expiresAt :=
  (find_eq_some_iff (purgeExpired_spec h.inStep now).inStep).trans h.mem_purged

theorem remove_eq (s : LocalTokenStore) (tokenHash : Text) (now : ℤ) :
    (s.remove tokenHash now).2 = (s.get tokenHash now).2 := by
  unfold LocalTokenStore.remove LocalTokenStore.get
  cases (s.purgeExpired now).find tokenHash with
  | none => rfl
  | some entry => rfl

/-- What is there after a removal. -/
theorem mem_remove {tokenHash : Text} {row : Text × LocalTokenEntry}
    (h : (s.purgeExpired now).InStep) : row ∈ (s.remove tokenHash now).1.entries ↔
      row ∈ (s.purgeExpired now).entries ∧ row.1 ≠ tokenHash := by
  unfold LocalTokenStore.remove
  cases hfind : (s.purgeExpired now).find tokenHash with
  | none =>
    refine (and_iff_left_of_imp fun hrow => ?_).symm
    intro hhash
    have hsome : (s.purgeExpired now).find tokenHash = some row.2 :=
      (find_eq_some_iff h).mpr (hhash ▸ hrow)
    rw [hfind] at hsome
    cases hsome
  | some entry => exact Rows.mem_erase

theorem inStep_remove (tokenHash : Text) (h : (s.purgeExpired now).InStep) :
    (s.remove tokenHash now).1.InStep ∧
      (s.remove tokenHash now).1.entries.length ≤ (s.purgeExpired now).entries.length ∧
      (s.remove tokenHash now).1.capacity = (s.purgeExpired now).capacity := by
  unfold LocalTokenStore.remove
  cases hfind : (s.purgeExpired now).find tokenHash with
  | none => exact ⟨h, le_rfl, rfl⟩
  | some entry =>
    have hmem := (find_eq_some_iff h).mp hfind
    exact ⟨h.pop hmem, (Rows.erase_sublist _ _).length_le, rfl⟩

theorem order_remove (tokenHash : Text) (s : LocalTokenStore) (now : ℤ) :
    (s.remove tokenHash now).1.expiryOrder.Sublist (s.purgeExpired now).expiryOrder ∧
      (s.remove tokenHash now).1.nextSequence = (s.purgeExpired now).nextSequence := by
  unfold LocalTokenStore.remove
  cases (s.purgeExpired now).find tokenHash with
  | none => exact ⟨List.Sublist.refl _, rfl⟩
  | some entry => exact ⟨Rows.erase_sublist _ _, rfl⟩

/-! ## Each operation -/

theorem kept_get (h : t.Kept) (tokenHash : Text) (now : ℤ) :
    Run.Kept ⟨(t.store.get tokenHash now).1, { now } :: t.log⟩ := by
  have hpurged := purgeExpired_spec h.inStep now
  refine
    { inStep := hpurged.inStep
      bounded := ?_
      positive := hpurged.capacity ▸ h.positive
      stands := fun other entry => ?_ }
  · show (t.store.purgeExpired now).entries.length ≤ (t.store.purgeExpired now).capacity
    rw [hpurged.entries, hpurged.capacity]
    exact (List.length_filter_le _ _).trans h.bounded
  · refine h.mem_purged.trans (Iff.trans ?_ stands_cons.symm)
    constructor
    · rintro ⟨hstands, hlive⟩
      exact Or.inr ⟨hstands, hlive, List.not_mem_nil, nofun⟩
    · rintro (hinserted | ⟨hstands, hleaves⟩)
      · cases hinserted
      · exact ⟨hstands, hleaves.1⟩

theorem kept_remove (h : t.Kept) (tokenHash : Text) (now : ℤ) :
    Run.Kept ⟨(t.store.remove tokenHash now).1, { now, removed := some tokenHash } :: t.log⟩ := by
  have hpurged := purgeExpired_spec h.inStep now
  obtain ⟨hinStep, hlength, hcapacity⟩ := inStep_remove tokenHash hpurged.inStep
  refine
    { inStep := hinStep
      bounded := ?_
      positive := ?_
      stands := fun other entry => ?_ }
  · show (t.store.remove tokenHash now).1.entries.length ≤ (t.store.remove tokenHash now).1.capacity
    rw [hcapacity, hpurged.capacity]
    refine hlength.trans ?_
    rw [hpurged.entries]
    exact (List.length_filter_le _ _).trans h.bounded
  · show 1 ≤ (t.store.remove tokenHash now).1.capacity
    rw [hcapacity, hpurged.capacity]
    exact h.positive
  · refine (mem_remove hpurged.inStep).trans (Iff.trans (and_congr_left' h.mem_purged) ?_)
    refine Iff.trans ?_ stands_cons.symm
    constructor
    · rintro ⟨⟨hstands, hlive⟩, hother⟩
      exact Or.inr ⟨hstands, hlive, List.not_mem_nil,
        fun hremoved => hother (Option.some.inj hremoved).symm⟩
    · rintro (hinserted | ⟨hstands, hlive, _, hremoved⟩)
      · cases hinserted
      · exact ⟨⟨hstands, hlive⟩, fun hother => hremoved (congrArg some hother.symm)⟩

/-- The entries that purging left and that are not evicted make the room. -/
theorem mem_room_iff (hroom : s.makeRoom now = some room)
    (hpurged : (s.purgeExpired now).InStep) (hmade : MadeRoom (s.purgeExpired now) room)
    {row : Text × LocalTokenEntry} : row ∈ room.entries ↔
      row ∈ (s.purgeExpired now).entries ∧ row.1 ∉ s.evicted now := by
  have hevicted : s.evicted now =
      ((s.purgeExpired now).entries.filter (· ∉ room.entries)).map Prod.fst := by
    unfold LocalTokenStore.evicted
    rw [hroom]
  rw [hevicted]
  constructor
  · intro hrow
    have hbefore := hmade.entries.subset hrow
    refine ⟨hbefore, fun hmem => ?_⟩
    obtain ⟨other, hother, hhash⟩ := List.mem_map.mp hmem
    rw [List.mem_filter, decide_eq_true_eq] at hother
    exact hother.2 (List.inj_on_of_nodup_map hpurged.hashes hother.1 hbefore hhash ▸ hrow)
  · rintro ⟨hrow, hkept⟩
    by_contra hnot
    exact hkept (List.mem_map_of_mem (List.mem_filter.mpr ⟨hrow, decide_eq_true hnot⟩))

theorem kept_insert (h : t.Kept) {tokenHash : Text} {entry : LocalTokenEntry}
    (hfresh : tokenHash ∉ t.store.entries.map Prod.fst)
    (hroom : t.store.makeRoom now = some room) (hmade : MadeRoom (t.store.purgeExpired now) room)
    (htie : (entry.expiresAt, room.nextSequence) ∉ room.expiryOrder.map Prod.fst) :
    Run.Kept
      { store := room.place tokenHash entry
        log :=
          { now
            inserted := some (tokenHash, { entry with sequence := t.store.nextSequence })
            evicted := t.store.evicted now } :: t.log } := by
  have hpurged := purgeExpired_spec h.inStep now
  have hnew : tokenHash ∉ room.entries.map Prod.fst := by
    intro hmem
    have hpurgedMem := (hmade.entries.map Prod.fst).subset hmem
    rw [hpurged.entries] at hpurgedMem
    exact hfresh ((List.filter_sublist.map Prod.fst).subset hpurgedMem)
  have hsequence : room.nextSequence = t.store.nextSequence :=
    hmade.nextSequence.trans hpurged.nextSequence
  have hcapacity : room.capacity = t.store.capacity := hmade.capacity.trans hpurged.capacity
  have hentries : (room.place tokenHash entry).entries.Perm
      ((tokenHash, { entry with sequence := room.nextSequence }) :: room.entries) :=
    Rows.put_perm_of_notMem hmade.inStep.hashes hnew
  refine
    { inStep := hmade.inStep.place hnew htie
      bounded := ?_
      positive := hcapacity ▸ h.positive
      stands := fun other entry' => ?_ }
  · show (room.place tokenHash entry).entries.length ≤ room.capacity
    rw [hentries.length_eq, List.length_cons]
    exact hmade.bounded
  · rw [hentries.mem_iff, List.mem_cons, mem_room_iff hroom hpurged.inStep hmade, h.mem_purged,
      stands_cons, hsequence]
    refine or_congr ?_ ?_
    · exact eq_comm.trans (Option.some_inj).symm
    · constructor
      · rintro ⟨⟨hstands, hlive⟩, hkept⟩
        exact ⟨hstands, hlive, hkept, nofun⟩
      · rintro ⟨hstands, hlive, hkept, _⟩
        exact ⟨⟨hstands, hlive⟩, hkept⟩

/-- An operation succeeds and keeps the maps in step. -/
theorem kept_step (h : t.Kept) {op : Op} (hfresh : t.Fresh op) (htie : t.NoTie op) :
    ∃ t', t.step op = some t' ∧ t'.Kept := by
  cases op with
  | insert tokenHash entry now =>
    obtain ⟨room, hroom, hmade⟩ := makeRoom_spec h.inStep h.bounded h.positive now
    refine ⟨_, ?_, kept_insert h hfresh hroom hmade (htie room hroom)⟩
    show (t.store.insert tokenHash entry now).map _ = _
    unfold LocalTokenStore.insert
    rw [hroom]
    rfl
  | get tokenHash now => exact ⟨_, rfl, kept_get h tokenHash now⟩
  | remove tokenHash now => exact ⟨_, rfl, kept_remove h tokenHash now⟩

theorem Run.Kept.right (h : t.Kept) : t.Right where
  inStep := h.inStep
  bounded := h.bounded
  asserted tokenHash entry now := by
    obtain ⟨room, hroom, _⟩ := makeRoom_spec h.inStep h.bounded h.positive now
    unfold LocalTokenStore.insert
    rw [hroom]
    rfl
  get _ _ _ := h.get_iff
  remove tokenHash now entry := by
    rw [remove_eq]
    exact h.get_iff
  evicts now room hroom row hrow hnot := by
    obtain ⟨room', hroom', hmade⟩ := makeRoom_spec h.inStep h.bounded h.positive now
    obtain rfl := Option.some.inj (hroom.symm.trans hroom')
    rw [← (purgeExpired_spec h.inStep now).capacity]
    exact hmade.evicts row hrow hnot

/-! ## Sequence numbers -/

theorem order_makeRoom (h : t.Kept) (hroom : t.store.makeRoom now = some room) :
    room.nextSequence = t.store.nextSequence ∧
      room.expiryOrder.Sublist t.store.expiryOrder := by
  have hpurged := purgeExpired_spec h.inStep now
  obtain ⟨room', hroom', hmade⟩ := makeRoom_spec h.inStep h.bounded h.positive now
  obtain rfl := Option.some.inj (hroom.symm.trans hroom')
  exact ⟨hmade.nextSequence.trans hpurged.nextSequence, hmade.order.trans hpurged.order⟩

/-- The sequence numbers are below a number of inserts, and the next one is that number. -/
structure Run.Numbered (t : Run) (inserts : ℕ) : Prop where
  below : ∀ row ∈ t.store.expiryOrder, row.1.2 < inserts
  next : t.store.nextSequence = inserts % 2 ^ 64

theorem Run.Numbered.noTie {inserts : ℕ} (h : t.Numbered inserts) (hkept : t.Kept)
    (hfew : inserts < 2 ^ 64) (op : Op) : t.NoTie op := by
  cases op with
  | insert tokenHash entry now =>
    intro room hroom hmem
    obtain ⟨hnext, horder⟩ := order_makeRoom hkept hroom
    obtain ⟨row, hrow, hkey⟩ := List.mem_map.mp hmem
    have hbelow := h.below row (horder.subset hrow)
    rw [hkey, hnext, h.next, Nat.mod_eq_of_lt hfew] at hbelow
    exact lt_irrefl _ hbelow
  | get tokenHash now => trivial
  | remove tokenHash now => trivial

/-- An insert takes the next number; other operations take none. -/
theorem numbered_step {inserts : ℕ} (h : t.Numbered inserts) (hkept : t.Kept)
    (hfew : inserts < 2 ^ 64) {op : Op} (hstep : t.step op = some t') :
    t'.Numbered (if op.isInsert then inserts + 1 else inserts) := by
  cases op with
  | insert tokenHash entry now =>
    obtain ⟨store, hinsert, rfl⟩ := Option.map_eq_some_iff.mp hstep
    obtain ⟨room, hroom, rfl⟩ := Option.map_eq_some_iff.mp hinsert
    obtain ⟨hnext, horder⟩ := order_makeRoom hkept hroom
    refine ⟨fun row hrow => ?_, ?_⟩
    · show row.1.2 < inserts + 1
      rcases Rows.mem_upsert.mp hrow with rfl | ⟨hold, _⟩
      · show room.nextSequence < inserts + 1
        rw [hnext, h.next, Nat.mod_eq_of_lt hfew]
        exact Nat.lt_succ_self inserts
      · exact (h.below row (horder.subset hold)).trans (Nat.lt_succ_self inserts)
    · show (room.nextSequence + 1) % 2 ^ 64 = (inserts + 1) % 2 ^ 64
      rw [hnext, h.next, Nat.mod_add_mod]
  | get tokenHash now =>
    obtain rfl := Option.some.inj hstep
    have hpurged := purgeExpired_spec hkept.inStep now
    exact ⟨fun row hrow => h.below row (hpurged.order.subset hrow),
      hpurged.nextSequence.trans h.next⟩
  | remove tokenHash now =>
    obtain rfl := Option.some.inj hstep
    have hpurged := purgeExpired_spec hkept.inStep now
    obtain ⟨horder, hnext⟩ := order_remove tokenHash t.store now
    exact ⟨fun row hrow => h.below row (hpurged.order.subset (horder.subset hrow)),
      hnext.trans (hpurged.nextSequence.trans h.next)⟩

/-- A run of at most 2^64 inserts has no tie. -/
theorem meets_noTie (inserts : ℕ) {ops : List Op} (h : t.Kept)
    (hnumbered : inserts < 2 ^ 64 → t.Numbered inserts)
    (hfew : inserts + ops.countP Op.isInsert ≤ 2 ^ 64)
    (hfresh : Steps.Meets Run.step Run.Fresh t ops) :
    Steps.Meets Run.step (fun t op => t.Fresh op ∧ t.NoTie op) t ops := by
  induction ops generalizing t inserts with
  | nil => trivial
  | cons op ops ih =>
    rw [List.countP_cons] at hfew
    have htie : t.NoTie op := by
      cases hinsert : op.isInsert with
      | true =>
        rw [if_pos hinsert] at hfew
        exact (hnumbered (by omega)).noTie h (by omega) op
      | false =>
        cases op with
        | insert tokenHash entry now => cases hinsert
        | get tokenHash now => trivial
        | remove tokenHash now => trivial
    obtain ⟨next, hnext, hkept⟩ := kept_step h hfresh.1 htie
    refine ⟨⟨hfresh.1, htie⟩, fun t' hstep => ?_⟩
    obtain rfl := Option.some.inj (hnext.symm.trans hstep)
    refine ih (if op.isInsert then inserts + 1 else inserts) hkept (fun hlt => ?_) ?_
      (hfresh.2 next hstep)
    · have hlt' : inserts < 2 ^ 64 := by split_ifs at hlt <;> omega
      exact numbered_step (hnumbered hlt') h hlt' hstep
    · split_ifs at hfew ⊢ <;> omega

/-! ## Runs -/

theorem kept_run {ops : List Op} (h : t.Kept)
    (hmeets : Steps.Meets Run.step (fun t op => t.Fresh op ∧ t.NoTie op) t ops) :
    ∃ t', Steps.run Run.step t ops = some t' ∧ t'.Kept := by
  induction ops generalizing t with
  | nil => exact ⟨t, rfl, h⟩
  | cons op ops ih =>
    obtain ⟨next, hnext, hkept⟩ := kept_step h hmeets.1.1 hmeets.1.2
    obtain ⟨t', hrun, hkept'⟩ := ih hkept (hmeets.2 next hnext)
    refine ⟨t', ?_, hkept'⟩
    rw [Steps.run, hnext, Option.bind_some]
    exact hrun

/-- The maps stay in step over every run whose inserts are of hashes that are not in the store and
take no expiry and sequence number that an entry still has; a run of at most 2^64 inserts takes
none. -/
theorem tokens_in_step (capacity : ℕ) (hcapacity : 1 ≤ capacity) (ops : List Op)
    (hfresh : Steps.Meets Run.step Run.Fresh (Run.new capacity) ops)
    (htie : Steps.Meets Run.step Run.NoTie (Run.new capacity) ops ∨
      ops.countP Op.isInsert ≤ 2 ^ 64) :
    ∃ t, Steps.run Run.step (Run.new capacity) ops = some t ∧ t.Right := by
  have hmeets : Steps.Meets Run.step (fun t op => t.Fresh op ∧ t.NoTie op)
      (Run.new capacity) ops := by
    rcases htie with htie | hfew
    · exact hfresh.and htie
    · refine meets_noTie 0 (kept_new hcapacity) (fun _ => ⟨nofun, rfl⟩) ?_ hfresh
      rw [Nat.zero_add]
      exact hfew
  obtain ⟨t, hrun, hkept⟩ := kept_run (kept_new hcapacity) hmeets
  exact ⟨t, hrun, hkept.right⟩

/-- A full store of one entry loses the first one. -/
theorem tokens_in_step_evicted :
    ∃ t, Steps.run Run.step (Run.new 1)
        [.insert "a" ⟨"k", 10, 0⟩ 0, .insert "b" ⟨"k", 20, 0⟩ 5, .get "b" 6] = some t ∧
      t.Right ∧ t.store.entries = [(("b" : Text), ⟨"k", 20, 1⟩)] := by
  have hfresh : Steps.Meets Run.step Run.Fresh (Run.new 1)
      [.insert "a" ⟨"k", 10, 0⟩ 0, .insert "b" ⟨"k", 20, 0⟩ 5, .get "b" 6] := by
    refine ⟨List.not_mem_nil, fun t ht => ⟨?_, fun _ _ => ⟨trivial, fun _ _ => trivial⟩⟩⟩
    obtain rfl := Option.some.inj ht
    show ("b" : Text) ∉ _
    decide
  obtain ⟨t, hrun, hright⟩ := tokens_in_step 1 le_rfl _ hfresh (Or.inr (by decide))
  refine ⟨t, hrun, hright, ?_⟩
  obtain rfl := Option.some.inj hrun
  decide

/-! ## The wrap -/

/-- A store with one entry, of the sequence number 0. -/
def held (next : ℕ) : LocalTokenStore :=
  ⟨[("a", ⟨"k", 10, 0⟩)], [((10, 0), "a")], 2, next⟩

/-- Another entry is inserted when it has expired, and purged. -/
def round : List Op := [.insert "b" ⟨"k", 1, 0⟩ 1, .get "b" 1]

theorem get_held (next next' : ℕ) :
    (LocalTokenStore.get
      { held next' with
        entries := [("a", ⟨"k", 10, 0⟩), ("b", ⟨"k", 1, next⟩)]
        expiryOrder := [((10, 0), "a"), ((1, next), "b")] } "b" 1).1 = held next' := by
  show LocalTokenStore.purgeExpired _ 1 = _
  simp [LocalTokenStore.purgeExpired, LocalTokenStore.purgeFor, firstKeyValue, before,
    LocalTokenStore.pop, Rows.erase, held]

/-- A round leaves the store as it was, but for the next sequence number. -/
theorem run_round (next : ℕ) (log : List Done) (rest : List Op) :
    ∃ log', Steps.run Run.step ⟨held next, log⟩ (round ++ rest) =
        Steps.run Run.step ⟨held ((next + 1) % 2 ^ 64), log'⟩ rest ∧
      (Steps.Meets Run.step Run.Fresh ⟨held ((next + 1) % 2 ^ 64), log'⟩ rest →
        Steps.Meets Run.step Run.Fresh ⟨held next, log⟩ (round ++ rest)) := by
  have hget := get_held next ((next + 1) % 2 ^ 64)
  refine ⟨{ now := 1 } ::
    { now := 1, inserted := some ("b", ⟨"k", 1, next⟩), evicted := (held next).evicted 1 } :: log,
    ?_, fun hrest => ⟨?_, fun t ht => ?_⟩⟩
  · exact congrArg (fun store => Steps.run Run.step ⟨store, _⟩ rest) hget
  · show ("b" : Text) ∉ [("a" : Text)]
    decide
  · obtain rfl := Option.some.inj ht
    refine ⟨trivial, fun t ht => ?_⟩
    obtain rfl := Option.some.inj ht
    exact hget.symm ▸ hrest

theorem run_rounds (count next : ℕ) (log : List Done) (rest : List Op) :
    ∃ log', Steps.run Run.step ⟨held (next % 2 ^ 64), log⟩
        ((List.replicate count round).flatten ++ rest) =
        Steps.run Run.step ⟨held ((next + count) % 2 ^ 64), log'⟩ rest ∧
      (Steps.Meets Run.step Run.Fresh ⟨held ((next + count) % 2 ^ 64), log'⟩ rest →
        Steps.Meets Run.step Run.Fresh ⟨held (next % 2 ^ 64), log⟩
          ((List.replicate count round).flatten ++ rest)) := by
  induction count generalizing next log with
  | zero => exact ⟨log, rfl, id⟩
  | succ count ih =>
    rw [List.replicate_succ, List.flatten_cons, List.append_assoc]
    obtain ⟨log₁, hrun₁, hfresh₁⟩ := run_round (next % 2 ^ 64) log
      ((List.replicate count round).flatten ++ rest)
    rw [Nat.mod_add_mod] at hrun₁ hfresh₁
    obtain ⟨log₂, hrun₂, hfresh₂⟩ := ih (next + 1) log₁
    rw [Nat.add_assoc, Nat.add_comm 1 count] at hrun₂ hfresh₂
    exact ⟨log₂, hrun₁.trans hrun₂, hfresh₁ ∘ hfresh₂⟩

/-- An insert, some rounds, and an insert with the expiry of the first one. -/
def wrappingOps (rounds : ℕ) : List Op :=
  .insert "a" ⟨"k", 10, 0⟩ 0 ::
    ((List.replicate rounds round).flatten ++ [.insert "c" ⟨"k", 10, 0⟩ 1])

theorem length_wrapped {rounds : ℕ} (h : (1 + rounds) % 2 ^ 64 = 0) :
    Steps.Meets Run.step Run.Fresh (Run.new 2) (wrappingOps rounds) ∧
      ∃ t, Steps.run Run.step (Run.new 2) (wrappingOps rounds) = some t ∧
        t.store.expiryOrder.length ≠ t.store.entries.length := by
  obtain ⟨log, hrun, hfresh⟩ := run_rounds rounds 1
    [{ now := 0, inserted := some ("a", ⟨"k", 10, 0⟩), evicted := [] }]
    [.insert "c" ⟨"k", 10, 0⟩ 1]
  rw [h] at hrun hfresh
  refine ⟨⟨List.not_mem_nil, fun t ht => ?_⟩, _, hrun, ?_⟩
  · obtain rfl := Option.some.inj ht
    refine hfresh ⟨?_, fun _ _ => trivial⟩
    show ("c" : Text) ∉ [("a" : Text)]
    decide
  · show 1 ≠ 2
    decide

/-- After 2^64 - 1 rounds the last insert takes the key of the first one, which then has no place
in the order. -/
theorem not_in_step_wrapped :
    ¬ ∀ t, Steps.Meets Run.step Run.Fresh (Run.new 2) (wrappingOps (2 ^ 64 - 1)) →
      Steps.run Run.step (Run.new 2) (wrappingOps (2 ^ 64 - 1)) = some t → t.Right := by
  intro h
  have hwrapped : (1 + (2 ^ 64 - 1)) % 2 ^ 64 = 0 := by norm_num
  obtain ⟨hmeets, t, hrun, hlength⟩ := length_wrapped hwrapped
  exact hlength (h t hmeets hrun).inStep.length_eq

end LocalTokens

end OoreBuild
