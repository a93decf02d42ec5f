import OoreBuild.Notifications

/-!
# Every result is announced once

A build that reaches a terminal status stays due until a scan marks it, and the deliveries of its
result are recorded with the mark. Each build is announced once and with its own result, as long as
retention leaves finished builds alone until they are announced (`results_announced`).
-/

namespace OoreBuild

namespace Notifications

open Text Steps

/-! ## What is announced -/

/-- The channel is enabled, in scope, and its filter matches the result. -/
def Channel.wantsResult (channel : Channel) (projectId : Text) (outcome : BuildStatus) : Bool :=
  channel.enabled && (channel.projectId = none || channel.projectId = some projectId) &&
    eventFilterMatches channel.eventFilter outcome.text

/-- The notification tells the result of the build. -/
structure Notification.Tells (notification : Notification) (id : ℕ) (outcome : BuildStatus) :
    Prop where
  eventType : notification.eventType = outcome.text
  category : notification.category = "build".toList
  buildId : notification.buildId = some id
  event : notification.payload.event = "build.".toList ++ outcome.text
  status : notification.payload.status = outcome.text
  payload : notification.payload.buildId = id

def Store.deliveriesOf (s : Store) (id : ℕ) : List Delivery :=
  s.deliveries.filter (·.notification.buildId = some id)

def Store.announcementsOf (s : Store) (id : ℕ) : List Announcement :=
  s.announcements.filter (·.buildId = id)

/-- One announcement was made of the build: a pending delivery of its result for every channel that
wanted it then. -/
def Store.AnnouncedOnce (s : Store) (id : ℕ) (outcome : BuildStatus) : Prop :=
  ∃ announcement, s.announcementsOf id = [announcement] ∧
    (s.deliveriesOf id).map (·.channelId) =
      (announcement.channels.filter (·.wantsResult announcement.projectId outcome)).map (·.id) ∧
    ∀ d ∈ s.deliveriesOf id, d.status = .pending ∧ d.notification.Tells id outcome

/-- The next scan will find the build, with this result. -/
def Store.Due (s : Store) (id : ℕ) (outcome : BuildStatus) : Prop :=
  ∃ row, s.builds.find id = some row ∧ row.status = outcome ∧ row.isDue = true

/-- A build that has finished is announced once or is still due, and no other build is. -/
def Store.Truthful (s : Store) : Prop :=
  ∀ id, match s.outcome id with
    | none => s.deliveriesOf id = []
    | some outcome => (s.Due id outcome ∧ s.deliveriesOf id = []) ∨ s.AnnouncedOnce id outcome

/-! ## The invariant -/

def Store.Untouched (s : Store) (id : ℕ) : Prop :=
  s.deliveriesOf id = [] ∧ s.announcementsOf id = []

/-- The result is known and announced. -/
def Store.Settled (s : Store) (id : ℕ) : Prop :=
  ∃ outcome, s.outcome id = some outcome ∧ s.AnnouncedOnce id outcome

/-- How far a build with this row has come. -/
def Store.StageOf (s : Store) (id : ℕ) : Option BuildRow → Prop
  | none => s.outcome id = none ∧ s.Untouched id ∨ s.Settled id
  | some row =>
    if isAnnounced row.notifiedStatus then row.status.isTerminal = true ∧ s.Settled id
    else s.Untouched id ∧ s.outcome id = if row.status.isTerminal then some row.status else none

/-- What a scan under way has read still holds. -/
structure ScanOk (s : Store) (scan : Scan) : Prop where
  nonempty : scan.rows ≠ []
  nodup : (scan.rows.map (·.id)).Nodup
  rows : ∀ r ∈ scan.rows, r.status.isTerminal = true ∧ r.id < s.nextBuild ∧
    ∀ row, s.builds.find r.id = some row → row.notifiedStatus = r.notified
  built : ∀ r rest n, scan.rows = r :: rest → scan.notification = some n →
    if isAnnounced r.notified then n = none
    else ∀ row, s.builds.find r.id = some row → ∃ notification, n = some notification ∧
      notification.projectId = some row.projectId ∧ notification.Tells r.id r.status

structure Store.Sound (s : Store) : Prop where
  stage : ∀ id, s.StageOf id (s.builds.find id)
  fresh : ∀ id row, s.builds.find id = some row → id < s.nextBuild
  unused : ∀ id, s.nextBuild ≤ id → s.outcome id = none ∧ s.Untouched id
  scan : ∀ scan, s.scan = some scan → ScanOk s scan

theorem Store.StageOf.congr {s s' : Store} {id : ℕ} {row : Option BuildRow}
    (h : s.StageOf id row) (houtcome : s'.outcome id = s.outcome id)
    (hdeliveries : s'.deliveriesOf id = s.deliveriesOf id)
    (hannouncements : s'.announcementsOf id = s.announcementsOf id) : s'.StageOf id row := by
  unfold StageOf Settled AnnouncedOnce Untouched at *
  rwa [houtcome, hdeliveries, hannouncements]

/-- A build that has finished is due until it is announced. -/
theorem Store.Sound.truthful {s : Store} (h : s.Sound) : s.Truthful := by
  intro id
  have hstage := h.stage id
  cases hrow : s.builds.find id with
  | none =>
    rw [hrow] at hstage
    rcases hstage with ⟨hnone, huntouched⟩ | ⟨outcome, hsome, honce⟩
    · rw [hnone]
      exact huntouched.1
    · rw [hsome]
      exact .inr honce
  | some row =>
    rw [hrow, StageOf] at hstage
    split at hstage
    · obtain ⟨-, outcome, hsome, honce⟩ := hstage
      rw [hsome]
      exact .inr honce
    · rename_i hnot
      obtain ⟨huntouched, houtcome⟩ := hstage
      rw [houtcome]
      by_cases hterminal : row.status.isTerminal = true
      · rw [if_pos hterminal]
        refine .inl ⟨⟨row, hrow, rfl, ?_⟩, huntouched.1⟩
        unfold BuildRow.isDue
        rw [hterminal, Bool.and_true, decide_eq_true_eq]
        intro hsame
        rw [hsame, isAnnounced, Option.any_some] at hnot
        exact hnot hterminal
      · rw [if_neg hterminal]
        exact huntouched.1

/-! ## What other calls leave alone -/

/-- The builds are there as before, but for their status, or they are gone or new. -/
structure Keeps (s s' : Store) : Prop where
  nextBuild : s.nextBuild ≤ s'.nextBuild
  rows : ∀ id row', id < s.nextBuild → s'.builds.find id = some row' →
    ∃ row, s.builds.find id = some row ∧ row'.notifiedStatus = row.notifiedStatus ∧
      row'.projectId = row.projectId

theorem ScanOk.of_keeps {s s' : Store} {scan : Scan} (h : ScanOk s scan) (hkeeps : Keeps s s') :
    ScanOk s' scan where
  nonempty := h.nonempty
  nodup := h.nodup
  rows r hr := by
    obtain ⟨hterminal, hlt, hsame⟩ := h.rows r hr
    refine ⟨hterminal, hlt.trans_le hkeeps.nextBuild, fun row' hrow' => ?_⟩
    obtain ⟨row, hrow, hnotified, -⟩ := hkeeps.rows r.id row' hlt hrow'
    exact hnotified.trans (hsame row hrow)
  built r rest n hrows hn := by
    have hbuilt := h.built r rest n hrows hn
    split at hbuilt
    · rename_i hannounced
      rwa [if_pos hannounced]
    · rename_i hannounced
      rw [if_neg hannounced]
      intro row' hrow'
      have hlt := (h.rows r (hrows ▸ List.mem_cons_self)).2.1
      obtain ⟨row, hrow, -, hproject⟩ := hkeeps.rows r.id row' hlt hrow'
      rw [hproject]
      exact hbuilt row hrow

/-- Retention leaves a finished build alone until it is announced. -/
def Store.AnnouncesFirst (s : Store) : Event → Prop
  | .write id .expired _ | .delete id => ∀ row, s.builds.find id = some row →
    row.status.isTerminal = true → isAnnounced row.notifiedStatus = true
  | _ => True

namespace Store.Sound

variable {s s' : Store}

theorem build (h : s.Sound) {row : BuildRow} (hid : row.id = s.nextBuild)
    (hnew : row.id ∉ s.builds.rows.map (·.id)) (hqueued : row.status = .queued)
    (hnotified : row.notifiedStatus = none) :
    Store.Sound { s with builds := s.builds.insert row hnew, nextBuild := s.nextBuild + 1 } where
  stage id := by
    refine StageOf.congr (s := s) ?_ rfl rfl rfl
    rw [Table.find_insert]
    split
    · rename_i heq
      obtain ⟨houtcome, huntouched⟩ := h.unused id (by omega)
      rw [StageOf, hnotified, hqueued]
      exact ⟨huntouched, houtcome⟩
    · exact h.stage id
  fresh id row' hrow' := by
    rw [Table.find_insert] at hrow'
    split at hrow'
    · show id < s.nextBuild + 1
      omega
    · exact (h.fresh id row' hrow').trans (Nat.lt_succ_self _)
  unused id hle := h.unused id (Nat.le_of_succ_le hle)
  scan scan hscan := by
    refine (h.scan scan hscan).of_keeps ⟨Nat.le_succ _, fun id row' hlt hrow' => ?_⟩
    rw [Table.find_insert, if_neg (by omega)] at hrow'
    exact ⟨row', hrow', rfl, rfl⟩

theorem write (h : s.Sound) {id : ℕ} {status : BuildStatus} {now : ℤ} {row : BuildRow}
    (hrow : s.builds.find id = some row) (hwritable : writable row.status status = true)
    (hfirst : s.AnnouncesFirst (.write id status now)) :
    Store.Sound { s with
      builds := s.builds.modify id (·.written status now) fun row => row.written_id status now
      outcome := if status.isTerminal && !row.status.isTerminal then
        Function.update s.outcome id (some status) else s.outcome } where
  stage k := by
    have hstage := h.stage k
    rw [Table.find_modify]
    by_cases hne : k ≠ id
    · rw [if_neg hne]
      refine hstage.congr ?_ rfl rfl
      dsimp only
      split
      · exact Function.update_of_ne hne _ _
      · rfl
    obtain rfl := not_not.mp hne
    rw [if_pos rfl]
    rw [hrow, StageOf] at hstage
    rw [hrow, Option.map_some, StageOf, BuildRow.written_notifiedStatus]
    by_cases hannounced : isAnnounced row.notifiedStatus = true
    · -- the result stays the one that was announced
      rw [if_pos hannounced] at hstage ⊢
      obtain ⟨hterminal, hsettled⟩ := hstage
      rw [hterminal, Bool.not_true, Bool.and_false, if_neg (by decide)]
      exact ⟨terminal_of_writable hterminal hwritable, hsettled⟩
    · rw [if_neg hannounced] at hstage ⊢
      obtain ⟨huntouched, houtcome⟩ := hstage
      refine ⟨huntouched, ?_⟩
      have hopen : row.status.isTerminal = false := by
        by_contra hterminal
        rw [Bool.not_eq_false] at hterminal
        have hexpired := expired_of_writable hterminal hwritable
        rw [hexpired] at hfirst
        exact hannounced (hfirst row hrow hterminal)
      rw [hopen, if_neg (by decide)] at houtcome
      rw [hopen, Bool.not_false, Bool.and_true]
      by_cases hterminal : status.isTerminal = true
      · rw [BuildRow.written_status, if_pos hterminal, if_pos hterminal]
        exact Function.update_self _ _ _
      · rw [BuildRow.written_status, if_neg hterminal, if_neg hterminal]
        exact houtcome
  fresh k row' hrow' := by
    rw [Table.find_modify] at hrow'
    split at hrow'
    · rename_i heq
      rw [heq]
      exact h.fresh id row hrow
    · exact h.fresh k row' hrow'
  unused k hle := by
    have hlt := h.fresh id row hrow
    obtain ⟨houtcome, huntouched⟩ := h.unused k hle
    refine ⟨?_, huntouched⟩
    dsimp only
    split
    · rw [Function.update_of_ne (by dsimp only at hle; omega)]
      exact houtcome
    · exact houtcome
  scan scan hscan := by
    refine (h.scan scan hscan).of_keeps ⟨le_rfl, fun k row' _ hrow' => ?_⟩
    rw [Table.find_modify] at hrow'
    split at hrow'
    · rename_i heq
      obtain ⟨old, hold, rfl⟩ := Option.map_eq_some_iff.mp hrow'
      exact ⟨old, heq ▸ hold, rfl, rfl⟩
    · exact ⟨row', hrow', rfl, rfl⟩

theorem delete (h : s.Sound) {id : ℕ} (hfirst : s.AnnouncesFirst (.delete id)) :
    Store.Sound { s with builds := s.builds.erase id } where
  stage k := by
    have hstage := h.stage k
    rw [Table.find_erase]
    refine StageOf.congr (s := s) ?_ rfl rfl rfl
    split
    swap
    · exact hstage
    rename_i heq
    subst heq
    cases hrow : s.builds.find k with
    | none => rwa [hrow] at hstage
    | some row =>
      rw [hrow, StageOf] at hstage
      split at hstage
      · exact .inr hstage.2
      · rename_i hannounced
        obtain ⟨huntouched, houtcome⟩ := hstage
        rw [if_neg fun hterminal => hannounced (hfirst row hrow hterminal)] at houtcome
        exact .inl ⟨houtcome, huntouched⟩
  fresh k row' hrow' := by
    rw [Table.find_erase] at hrow'
    split at hrow'
    · cases hrow'
    · exact h.fresh k row' hrow'
  unused := h.unused
  scan scan hscan := by
    refine (h.scan scan hscan).of_keeps ⟨le_rfl, fun k row' _ hrow' => ?_⟩
    rw [Table.find_erase] at hrow'
    split at hrow'
    · cases hrow'
    · exact ⟨row', hrow', rfl, rfl⟩

/-- A step of the scan that writes nothing. -/
theorem withScan (h : s.Sound) {scan : Option Scan}
    (hscan : ∀ scan', scan = some scan' → ScanOk s scan') : Store.Sound { s with scan } where
  stage := h.stage
  fresh := h.fresh
  unused := h.unused
  scan scan' hscan' := (hscan scan' hscan').of_keeps ⟨le_rfl, fun _ row' _ hrow' =>
    ⟨row', hrow', rfl, rfl⟩⟩

theorem unscanned (h : s.Sound) : Store.Sound { s with scan := none } := by
  refine h.withScan fun scan' hsome => ?_
  cases hsome

/-! ### The scan -/

theorem dueBuilds_perm (s : Store) : s.dueBuilds.Perm (s.builds.rows.filter (·.isDue)) :=
  List.perm_insertionSort _ _

/-- What the scan reads is there. -/
theorem scanOk_start (h : s.Sound)
    (hne : (s.dueBuilds.take scanBatchSize).map (·.scanned) ≠ []) :
    ScanOk s ⟨(s.dueBuilds.take scanBatchSize).map (·.scanned), none⟩ where
  nonempty := hne
  nodup := by
    rw [List.map_map]
    have hdue : (s.dueBuilds.map (·.id)).Nodup :=
      ((dueBuilds_perm s).map _).nodup_iff.mpr (s.builds.nodup.sublist (List.filter_sublist.map _))
    exact hdue.sublist ((List.take_sublist _ _).map _)
  rows r hr := by
    obtain ⟨row, hmem, rfl⟩ := List.mem_map.mp hr
    have hdue := List.mem_filter.mp ((dueBuilds_perm s).mem_iff.mp (List.mem_of_mem_take hmem))
    have hfind := Table.find_of_mem hdue.1
    have hterminal := hdue.2
    rw [BuildRow.isDue, Bool.and_eq_true] at hterminal
    refine ⟨hterminal.2, h.fresh _ row hfind, fun row' hrow' => ?_⟩
    rw [Option.some.inj (hrow'.symm.trans hfind)]
    rfl
  built r rest n _ hn := by cases hn

theorem tells_buildNotification {row : ScanRow} {build : BuildRow}
    (h : s.builds.find row.id = some build) : ∃ notification,
      s.buildNotification row = some notification ∧
        notification.projectId = some build.projectId ∧ notification.Tells row.id row.status := by
  unfold Store.buildNotification
  rw [h]
  exact ⟨_, rfl, rfl, ⟨rfl, rfl, rfl, rfl, rfl, rfl⟩⟩

theorem scanOk_built {row : ScanRow} {rest : List ScanRow}
    (hok : ScanOk s ⟨row :: rest, none⟩) : ScanOk s ⟨row :: rest, some
      (if isAnnounced row.notified then none else s.buildNotification row)⟩ where
  nonempty := List.cons_ne_nil _ _
  nodup := hok.nodup
  rows := hok.rows
  built r rest' n hrows hn := by
    cases hrows
    cases hn
    split
    · rfl
    · exact fun build hbuild => tells_buildNotification hbuild

end Store.Sound

/-- The deliveries that an announcement records. -/
def Store.newDeliveries (s : Store) (notification : Notification) (now : ℤ) : List Delivery :=
  (s.channels.rows.filter (·.wants notification)).mapIdx fun i channel =>
    .new (s.deliveries.length + i) channel notification now

theorem notification_of_mem {s : Store} {notification : Notification} {now : ℤ} {d : Delivery}
    (h : d ∈ s.newDeliveries notification now) :
    d.status = .pending ∧ d.notification = notification := by
  obtain ⟨i, hi, rfl⟩ := List.mem_mapIdx.mp h
  exact ⟨rfl, rfl⟩

theorem filter_newDeliveries (s : Store) (notification : Notification) (now : ℤ) (id : ℕ) :
    (s.newDeliveries notification now).filter (·.notification.buildId = some id) =
      if notification.buildId = some id then s.newDeliveries notification now else [] := by
  split
  · rename_i heq
    refine List.filter_eq_self.mpr fun d hd => ?_
    rw [(notification_of_mem hd).2]
    exact decide_eq_true heq
  · rename_i hne
    refine List.filter_eq_nil_iff.mpr fun d hd => ?_
    rw [(notification_of_mem hd).2, decide_eq_true_eq]
    exact hne

/-- The store after a build was announced. -/
def Store.announce (s : Store) (build : BuildRow) (notification : Notification) (now : ℤ) :
    Store :=
  { s with
    builds := s.builds.modify build.id BuildRow.marked fun row => row.marked_id
    deliveries := s.deliveries ++ s.newDeliveries notification now
    announcements := s.announcements ++ [⟨build.id, build.projectId, s.channels.rows⟩] }

/-- What the transaction does to a build whose status is still the one that was read. -/
theorem mark_eq {s : Store} {row : ScanRow} {build : BuildRow} (n : Option Notification) (now : ℤ)
    (hbuild : s.builds.find row.id = some build) (hsame : build.status = row.status) :
    s.mark row n now = match n with
      | none => { s with
          builds := s.builds.modify row.id BuildRow.marked fun row => row.marked_id }
      | some notification => s.announce build notification now := by
  have hid := Table.key_of_find hbuild
  unfold Store.mark
  rw [hbuild]
  dsimp only
  rw [if_pos hsame]
  cases n with
  | none => rfl
  | some notification =>
    unfold Store.announce
    rw [hid]
    rfl

/-- The transaction does nothing else. -/
theorem mark_eq_self {s : Store} {row : ScanRow} (n : Option Notification) (now : ℤ)
    (h : ∀ build, s.builds.find row.id = some build → build.status ≠ row.status) :
    s.mark row n now = s := by
  unfold Store.mark
  split
  · rfl
  · rename_i build hbuild
    rw [if_neg (h build hbuild)]

namespace Store.Sound

variable {s : Store}

theorem stageOf_marked (h : s.Sound) {build : BuildRow}
    (hbuild : s.builds.find build.id = some build) (hterminal : build.status.isTerminal = true)
    {s' : Store} (hbuilds : s'.builds = s.builds.modify build.id BuildRow.marked fun row =>
      row.marked_id)
    (hnext : s'.nextBuild = s.nextBuild) (hscan : s'.scan = none)
    (houtcome : s'.outcome = s.outcome)
    (hothers : ∀ id, id ≠ build.id → s'.deliveriesOf id = s.deliveriesOf id ∧
      s'.announcementsOf id = s.announcementsOf id)
    (hsettled : s'.Settled build.id) : s'.Sound where
  stage id := by
    rw [hbuilds, Table.find_modify]
    by_cases heq : id = build.id
    · subst heq
      rw [if_pos rfl, hbuild, Option.map_some, StageOf, if_pos]
      · exact ⟨hterminal, hsettled⟩
      · exact hterminal
    · rw [if_neg heq]
      exact (h.stage id).congr (congrFun houtcome id) (hothers id heq).1 (hothers id heq).2
  fresh id row hrow := by
    rw [hbuilds, Table.find_modify] at hrow
    rw [hnext]
    split at hrow
    · rename_i heq
      rw [heq]
      exact h.fresh _ build hbuild
    · exact h.fresh id row hrow
  unused id hle := by
    have hlt := h.fresh _ build hbuild
    rw [hnext] at hle
    obtain ⟨hnone, huntouched⟩ := h.unused id hle
    obtain ⟨hdeliveries, hannouncements⟩ := hothers id (by omega)
    refine ⟨(congrFun houtcome id).trans hnone, ?_, ?_⟩
    · exact hdeliveries.trans huntouched.1
    · exact hannouncements.trans huntouched.2
  scan scan hsome := by
    rw [hscan] at hsome
    cases hsome

theorem wants_eq_wantsResult {notification : Notification} {id : ℕ} {outcome : BuildStatus}
    {projectId : Text} (htells : notification.Tells id outcome)
    (hproject : notification.projectId = some projectId) :
    (fun channel : Channel => channel.wants notification) =
      fun channel => channel.wantsResult projectId outcome := by
  funext channel
  unfold Channel.wants Channel.wantsResult
  rw [htells.eventType, hproject]

theorem map_newDeliveries (s : Store) (notification : Notification) (now : ℤ) :
    (s.newDeliveries notification now).map (·.channelId) =
      (s.channels.rows.filter (·.wants notification)).map (·.id) := by
  apply List.ext_getElem
  · simp [Store.newDeliveries]
  · intro i _ _
    simp [Store.newDeliveries, Delivery.new]

/-- The announcement of a build that was not announced yet. -/
theorem announcedOnce_announce {build : BuildRow} {notification : Notification} (now : ℤ)
    (huntouched : s.Untouched build.id) (htells : notification.Tells build.id build.status)
    (hproject : notification.projectId = some build.projectId) :
    (s.announce build notification now).AnnouncedOnce build.id build.status := by
  have hdeliveries : (s.announce build notification now).deliveriesOf build.id =
      s.newDeliveries notification now := by
    unfold Store.deliveriesOf Store.announce
    rw [List.filter_append, filter_newDeliveries, if_pos htells.buildId]
    show s.deliveriesOf build.id ++ _ = _
    rw [huntouched.1, List.nil_append]
  refine ⟨⟨build.id, build.projectId, s.channels.rows⟩, ?_, ?_, fun d hd => ?_⟩
  · unfold Store.announcementsOf Store.announce
    rw [List.filter_append, List.filter_cons_of_pos (by simp), List.filter_nil]
    show s.announcementsOf build.id ++ _ = _
    rw [huntouched.2, List.nil_append]
  · rw [hdeliveries, map_newDeliveries, wants_eq_wantsResult htells hproject]
  · rw [hdeliveries] at hd
    obtain ⟨hpending, heq⟩ := notification_of_mem hd
    exact ⟨hpending, heq ▸ htells⟩

theorem announce_others {build : BuildRow} {notification : Notification} (now : ℤ)
    (htells : notification.Tells build.id build.status) (id : ℕ) (hne : id ≠ build.id) :
    (s.announce build notification now).deliveriesOf id = s.deliveriesOf id ∧
      (s.announce build notification now).announcementsOf id = s.announcementsOf id := by
  constructor
  · unfold Store.deliveriesOf Store.announce
    rw [List.filter_append, filter_newDeliveries, htells.buildId, if_neg, List.append_nil]
    exact fun heq => hne (Option.some.inj heq).symm
  · unfold Store.announcementsOf Store.announce
    rw [List.filter_append, List.filter_cons_of_neg, List.filter_nil, List.append_nil]
    rw [decide_eq_true_eq]
    exact hne.symm

/-- The mark keeps every build's stage. -/
theorem mark (h : s.Sound) {row : ScanRow} {rest : List ScanRow} {n : Option Notification}
    (now : ℤ) (hok : ScanOk s ⟨row :: rest, some n⟩) :
    Store.Sound { s.mark row n now with scan := none } := by
  obtain ⟨hterminal, -, hread⟩ := hok.rows row List.mem_cons_self
  have hbuilt := hok.built row rest n rfl rfl
  by_cases hsame : ∃ build, s.builds.find row.id = some build ∧ build.status = row.status
  swap
  · rw [mark_eq_self n now fun build hbuild heq => hsame ⟨build, hbuild, heq⟩]
    exact h.unscanned
  obtain ⟨build, hbuild, hstatus⟩ := hsame
  have hid := Table.key_of_find hbuild
  have hstage := h.stage row.id
  rw [hbuild, StageOf, hread build hbuild] at hstage
  have hfind : s.builds.find build.id = some build := hid.symm ▸ hbuild
  rw [mark_eq n now hbuild hstatus]
  split at hbuilt
  · rename_i hannounced
    rw [if_pos hannounced, ← hid] at hstage
    subst hbuilt
    refine h.stageOf_marked hfind hstage.1 ?_ rfl rfl rfl (fun _ _ => ⟨rfl, rfl⟩) hstage.2
    rw [hid]
  · rename_i hannounced
    rw [if_neg hannounced, ← hid] at hstage
    obtain ⟨notification, rfl, hproject, htells⟩ := hbuilt build hbuild
    rw [← hid, ← hstatus] at htells
    have hend : build.status.isTerminal = true := by rwa [hstatus]
    rw [if_pos hend] at hstage
    exact h.stageOf_marked hfind hend rfl rfl rfl rfl (announce_others now htells)
      ⟨build.status, hstage.2, announcedOnce_announce now hstage.1 htells hproject⟩

theorem find_mark_of_ne {row : ScanRow} (n : Option Notification) (now : ℤ) {id : ℕ}
    (hne : id ≠ row.id) :
    (s.mark row n now).builds.find id = s.builds.find id ∧
      (s.mark row n now).nextBuild = s.nextBuild := by
  unfold Store.mark
  split
  · exact ⟨rfl, rfl⟩
  · split
    · have hfind := Table.find_modify_of_ne s.builds hne BuildRow.marked fun row => row.marked_id
      cases n with
      | none => exact ⟨hfind, rfl⟩
      | some notification => exact ⟨hfind, rfl⟩
    · exact ⟨rfl, rfl⟩

/-- What the scan read of the other builds still holds. -/
theorem scanOk_rest {row : ScanRow} {rest : List ScanRow} {n : Option Notification} (now : ℤ)
    (hok : ScanOk s ⟨row :: rest, some n⟩) (hne : rest ≠ []) :
    ScanOk (s.mark row n now) ⟨rest, none⟩ where
  nonempty := hne
  nodup := (List.nodup_cons.mp hok.nodup).2
  rows r hr := by
    have hne : r.id ≠ row.id := by
      rintro heq
      exact (List.nodup_cons.mp hok.nodup).1 (List.mem_map.mpr ⟨r, hr, heq⟩)
    obtain ⟨hfind, hnext⟩ := find_mark_of_ne (s := s) n now hne
    rw [hfind, hnext]
    exact hok.rows r (List.mem_cons_of_mem _ hr)
  built r rest' n' _ hn := by cases hn

theorem advanceScan {s' : Store} {now : ℤ} (h : s.Sound) (hstep : s.advanceScan now = some s') :
    s'.Sound := by
  unfold Store.advanceScan at hstep
  split at hstep
  · rename_i row rest hscan
    cases hstep
    refine h.withScan fun scan' hsome => ?_
    cases hsome
    exact scanOk_built (h.scan _ hscan)
  · rename_i row rest n hscan
    cases hstep
    have hok := h.scan _ hscan
    have hmark := h.mark now hok
    refine hmark.withScan fun scan' hsome => ?_
    split at hsome
    · cases hsome
    · rename_i hne
      cases hsome
      refine (scanOk_rest now hok hne).of_keeps ⟨le_rfl, fun _ row' _ hrow' => ?_⟩
      exact ⟨row', hrow', rfl, rfl⟩
  · cases hstep

theorem step {s' : Store} {event : Event} (h : s.Sound) (hfirst : s.AnnouncesFirst event)
    (hstep : s.step event = some s') : s'.Sound := by
  cases event with
  | build projectId pipelineId buildNumber branch commitSha triggerType triggerActor now =>
    unfold Store.step at hstep
    dsimp only at hstep
    split at hstep
    · rename_i hnew
      cases hstep
      exact h.build rfl hnew rfl rfl
    · cases hstep
  | write id status now =>
    obtain ⟨row, hrow, hstep⟩ := Option.bind_eq_some_iff.mp hstep
    split at hstep
    · rename_i hwritable
      cases hstep
      exact h.write hrow hwritable hfirst
    · cases hstep
  | delete id =>
    cases hstep
    exact h.delete hfirst
  | settings channels projectName pipelineName =>
    cases hstep
    exact ⟨h.stage, h.fresh, h.unused, fun scan hscan => (h.scan scan hscan).of_keeps
      ⟨le_rfl, fun _ row' _ hrow' => ⟨row', hrow', rfl, rfl⟩⟩⟩
  | scan =>
    unfold Store.step at hstep
    dsimp only at hstep
    split at hstep
    · cases hstep
      unfold Store.startScan
      refine h.withScan fun scan' hsome => ?_
      split at hsome
      · cases hsome
      · rename_i hne
        cases hsome
        exact h.scanOk_start hne
    · cases hstep
  | advance now => exact h.advanceScan hstep
  | stop =>
    cases hstep
    exact h.unscanned

end Store.Sound

theorem Store.sound_new : Store.new.Sound where
  stage _ := .inl ⟨rfl, rfl, rfl⟩
  fresh _ _ hrow := by cases hrow
  unused _ _ := ⟨rfl, rfl, rfl⟩
  scan _ hscan := by cases hscan

/-! ## The loop gets to every build -/

def Event.ofLoop : Event → Bool
  | .scan | .advance _ => true
  | _ => false

/-- The loop gets from one store to the other when nothing else happens. -/
def Store.Reaches (s s' : Store) : Prop :=
  ∃ events, (∀ e ∈ events, e.ofLoop = true) ∧ run Store.step s events = some s'

theorem Store.reaches_refl (s : Store) : s.Reaches s := ⟨[], by simp, rfl⟩

theorem Store.Reaches.trans {s mid s' : Store} (h : s.Reaches mid) (h' : mid.Reaches s') :
    s.Reaches s' := by
  obtain ⟨xs, hxs, hrun⟩ := h
  obtain ⟨ys, hys, hrun'⟩ := h'
  refine ⟨xs ++ ys, fun e he => ?_, ?_⟩
  · rcases List.mem_append.mp he with he | he
    · exact hxs e he
    · exact hys e he
  · rw [run_append, hrun, Option.bind_some, hrun']

theorem Store.reaches_of_step {s s' : Store} {e : Event} (hloop : e.ofLoop = true)
    (hstep : s.step e = some s') : s.Reaches s' := by
  refine ⟨[e], by simpa using hloop, ?_⟩
  rw [run, hstep]
  rfl

theorem Store.Sound.reaches {s s' : Store} (h : s.Sound) (hreaches : s.Reaches s') : s'.Sound := by
  obtain ⟨events, hloop, hrun⟩ := hreaches
  induction events generalizing s with
  | nil =>
    cases hrun
    exact h
  | cons e events ih =>
    obtain ⟨mid, hstep, hrest⟩ := Option.bind_eq_some_iff.mp hrun
    have hfirst : s.AnnouncesFirst e := by
      have := hloop e List.mem_cons_self
      cases e with
      | scan | advance => trivial
      | _ => cases this
    exact ih (h.step hfirst hstep) (fun e he => hloop e (List.mem_cons_of_mem _ he)) hrest

def Store.dueCount (s : Store) : ℕ := s.builds.rows.countP (·.isDue)

/-- A marked build is not due. -/
theorem isDue_marked (row : BuildRow) : row.marked.isDue = false := by
  simp [BuildRow.isDue, BuildRow.marked]

theorem dueCount_mark_lt {s : Store} {row : ScanRow} {build : BuildRow} (n : Option Notification)
    (now : ℤ) (hbuild : s.builds.find row.id = some build) (hsame : build.status = row.status)
    (hdue : build.isDue = true) : (s.mark row n now).dueCount < s.dueCount := by
  have hlt := Table.countP_modify_lt (fun row : BuildRow => row.marked_id) hbuild hdue
    (isDue_marked build)
  have hid := Table.key_of_find hbuild
  rw [mark_eq n now hbuild hsame]
  cases n with
  | none => exact hlt
  | some notification =>
    rw [← hid] at hlt
    exact hlt

theorem dueCount_mark_le (s : Store) (row : ScanRow) (n : Option Notification) (now : ℤ) :
    (s.mark row n now).dueCount ≤ s.dueCount := by
  by_cases hsame : ∃ build, s.builds.find row.id = some build ∧ build.status = row.status
  · obtain ⟨build, hbuild, hstatus⟩ := hsame
    have hle : (s.builds.modify row.id BuildRow.marked fun row => row.marked_id).rows.countP
        (·.isDue) ≤ s.builds.rows.countP (·.isDue) := by
      show (s.builds.rows.map _).countP _ ≤ _
      rw [List.countP_map]
      refine List.countP_mono_left fun x _ hdue => ?_
      dsimp only [Function.comp_apply] at hdue
      split at hdue
      · rw [isDue_marked] at hdue
        cases hdue
      · exact hdue
    have hid := Table.key_of_find hbuild
    rw [mark_eq n now hbuild hstatus]
    cases n with
    | none => exact hle
    | some notification =>
      rw [← hid] at hle
      exact hle
  · rw [mark_eq_self n now fun build hbuild heq => hsame ⟨build, hbuild, heq⟩]

theorem reaches_marked_built {s : Store} {row : ScanRow} {rest : List ScanRow}
    {n : Option Notification} (hscan : s.scan = some ⟨row :: rest, some n⟩) :
    ∃ s', s.Reaches s' ∧ s'.scan = (if rest = [] then none else some ⟨rest, none⟩) ∧
      s'.dueCount ≤ s.dueCount ∧ ∀ build, s.builds.find row.id = some build →
        build.status = row.status → build.isDue = true → s'.dueCount < s.dueCount := by
  refine ⟨{ s.mark row n 0 with scan := if rest = [] then none else some ⟨rest, none⟩ },
    Store.reaches_of_step (e := .advance 0) rfl ?_, rfl, dueCount_mark_le s row n 0,
    fun build hbuild hsame hdue => dueCount_mark_lt n 0 hbuild hsame hdue⟩
  show s.advanceScan 0 = _
  unfold Store.advanceScan
  rw [hscan]

/-- The scan marks its first build. -/
theorem reaches_marked {s : Store} {row : ScanRow} {rest : List ScanRow}
    {n : Option (Option Notification)} (hscan : s.scan = some ⟨row :: rest, n⟩) :
    ∃ s', s.Reaches s' ∧ s'.scan = (if rest = [] then none else some ⟨rest, none⟩) ∧
      s'.dueCount ≤ s.dueCount ∧ ∀ build, s.builds.find row.id = some build →
        build.status = row.status → build.isDue = true → s'.dueCount < s.dueCount := by
  cases n with
  | some n => exact reaches_marked_built hscan
  | none =>
    let built := if isAnnounced row.notified then none else s.buildNotification row
    have hstep : s.step (.advance 0) =
        some { s with scan := some ⟨row :: rest, some built⟩ } := by
      show s.advanceScan 0 = _
      unfold Store.advanceScan
      rw [hscan]
    obtain ⟨s', hreaches, hrest⟩ :=
      reaches_marked_built (s := { s with scan := some ⟨row :: rest, some built⟩ }) rfl
    exact ⟨s', (Store.reaches_of_step rfl hstep).trans hreaches, hrest⟩

/-- A scan under way comes to its end. -/
theorem reaches_idle {s : Store} (h : s.Sound) :
    ∃ s', s.Reaches s' ∧ s'.scan = none ∧ s'.dueCount ≤ s.dueCount := by
  cases hscan : s.scan with
  | none => exact ⟨s, s.reaches_refl, hscan, le_rfl⟩
  | some scan =>
    obtain ⟨rows, n⟩ := scan
    have hne := (h.scan _ hscan).nonempty
    induction rows generalizing s n with
    | nil => exact absurd rfl hne
    | cons row rest ih =>
      obtain ⟨mid, hreaches, hnext, hle, -⟩ := reaches_marked hscan
      by_cases hrest : rest = []
      · rw [if_pos hrest] at hnext
        exact ⟨mid, hreaches, hnext, hle⟩
      · rw [if_neg hrest] at hnext
        obtain ⟨s', hreaches', hidle, hle'⟩ := ih (h.reaches hreaches) none hnext hrest
        exact ⟨s', hreaches.trans hreaches', hidle, hle'.trans hle⟩

/-- Left alone, the loop gets to a state where no build is due. -/
theorem reaches_done {s : Store} (h : s.Sound) : ∃ s', s.Reaches s' ∧ s'.dueCount = 0 := by
  induction hcount : s.dueCount using Nat.strong_induction_on generalizing s with
  | _ count ih =>
    obtain ⟨idle, hreaches, hidle, hle⟩ := reaches_idle h
    cases hdue : idle.dueBuilds with
    | nil =>
      have hnone : idle.builds.rows.filter (·.isDue) = [] := by
        have hperm := Store.Sound.dueBuilds_perm idle
        rw [hdue] at hperm
        exact hperm.nil_eq.symm
      exact ⟨idle, hreaches, by rw [Store.dueCount, List.countP_eq_length_filter, hnone]; rfl⟩
    | cons row rest =>
      -- the scan reads the first of them and marks it
      have hmem : row ∈ idle.builds.rows.filter (·.isDue) :=
        (Store.Sound.dueBuilds_perm idle).mem_iff.mp (hdue ▸ List.mem_cons_self)
      obtain ⟨hrow, hisDue⟩ := List.mem_filter.mp hmem
      let later := (rest.take (scanBatchSize - 1)).map (·.scanned)
      have hstep : idle.step .scan =
          some { idle with scan := some ⟨row.scanned :: later, none⟩ } := by
        show (if idle.scan.isNone then some idle.startScan else none) = _
        rw [hidle, Option.isNone_none, if_pos rfl]
        unfold Store.startScan
        rw [hdue]
        rfl
      obtain ⟨marked, hmarked, -, -, hlt⟩ :=
        reaches_marked (s := { idle with scan := some ⟨row.scanned :: later, none⟩ }) rfl
      have hless := hlt row (Table.find_of_mem hrow) rfl hisDue
      have hall := (hreaches.trans (Store.reaches_of_step rfl hstep)).trans hmarked
      have hbound : marked.dueCount < count := by
        have : marked.dueCount < idle.dueCount := hless
        omega
      obtain ⟨s', hreaches', hdone⟩ := ih _ hbound (h.reaches hall) rfl
      exact ⟨s', hall.trans hreaches', hdone⟩

/-- Every build that has finished was announced once. -/
def Store.AllAnnounced (s : Store) : Prop :=
  ∀ id outcome, s.outcome id = some outcome → s.AnnouncedOnce id outcome

theorem Store.Truthful.allAnnounced {s : Store} (h : s.Truthful) (hdone : s.dueCount = 0) :
    s.AllAnnounced := by
  intro id outcome houtcome
  have hid := h id
  rw [houtcome] at hid
  refine hid.resolve_left ?_
  rintro ⟨⟨row, hrow, -, hdue⟩, -⟩
  exact List.countP_eq_zero.mp hdone row (Table.mem_of_find hrow) hdue

/-- Each build is announced once with its own result, and left alone the loop announces all. -/
def Store.Announces (s : Store) : Prop :=
  s.Truthful ∧ ∃ s', s.Reaches s' ∧ s'.AllAnnounced

theorem results_announced {events : List Event} {s : Store}
    (hfirst : Meets Store.step Store.AnnouncesFirst .new events)
    (hrun : run Store.step .new events = some s) : s.Announces := by
  have h := keeps_run (fun _ _ _ h hcond hstep => Store.Sound.step h hcond hstep) Store.sound_new
    hfirst hrun
  obtain ⟨s', hreaches, hdone⟩ := reaches_done h
  exact ⟨h.truthful, s', hreaches, (h.reaches hreaches).truthful.allAnnounced hdone⟩

/-- A channel for every event of every project. -/
def hook : Channel := ⟨"hook".toList, none, true, none⟩

def hooked : Event := .settings ⟨[hook], by decide⟩ (fun _ => none) fun _ => none

def queued : Event := .build "app".toList "ci".toList 1 none none "manual".toList none 0

/-- A build is canceled and announced, and retention expires it. -/
def announcedRun : List Event :=
  [hooked, queued, .write 0 .canceled 5, .scan, .advance 6, .advance 6, .write 0 .expired 90,
    .scan, .advance 91, .advance 91]

/-- A build is only expired after it was announced, and none is deleted. -/
def Store.looksAnnounced (s : Store) : Event → Bool
  | .write id .expired _ => (s.builds.find id).all fun row => isAnnounced row.notifiedStatus
  | .delete _ => false
  | _ => true

theorem Store.announcesFirst_of_looksAnnounced (s : Store) (event : Event)
    (h : s.looksAnnounced event = true) : s.AnnouncesFirst event := by
  cases event with
  | write id status now =>
    cases status with
    | expired =>
      intro row hrow _
      simpa [looksAnnounced, hrow] using h
    | _ => trivial
  | delete id => cases h
  | _ => trivial

theorem announcedRun_announces : ∃ s, run Store.step .new announcedRun = some s ∧
    (s.deliveriesOf 0).map (·.notification.eventType) = ["canceled".toList] ∧ s.Announces := by
  have hrun : (run Store.step .new announcedRun).any (fun s =>
      (s.deliveriesOf 0).map (·.notification.eventType) = ["canceled".toList]) = true := by
    decide +kernel
  obtain ⟨s, hs, hsent⟩ := Option.any_eq_true _ _ |>.mp hrun
  exact ⟨s, hs, of_decide_eq_true hsent,
    results_announced (meets_of_checks Store.announcesFirst_of_looksAnnounced (by decide +kernel))
      hs⟩

/-- Retention expires the build before a scan comes to it. -/
def expiredRun : List Event :=
  [hooked, queued, .write 0 .canceled 5, .write 0 .expired 90, .scan, .advance 91, .advance 91]

/-- The canceled build is announced as expired. -/
theorem expired_build_announced : ¬ ∀ events s,
    run Store.step .new events = some s → s.Announces := by
  intro hall
  have hrun : (run Store.step .new expiredRun).any (fun s =>
      s.outcome 0 = some .canceled &&
      (s.deliveriesOf 0).map (·.notification.eventType) = ["expired".toList]) = true := by
    decide +kernel
  obtain ⟨s, hs, hstate⟩ := Option.any_eq_true _ _ |>.mp hrun
  rw [Bool.and_eq_true, decide_eq_true_eq, decide_eq_true_eq] at hstate
  obtain ⟨houtcome, hsent⟩ := hstate
  have htruthful := (hall _ s hs).1 0
  rw [houtcome] at htruthful
  rcases htruthful with ⟨-, hnone⟩ | ⟨announcement, -, -, htells⟩
  · rw [hnone] at hsent
    cases hsent
  · obtain ⟨d, hd, hexpired⟩ := List.mem_map.mp (hsent ▸ List.mem_singleton_self _)
    rw [(htells d hd).2.eventType] at hexpired
    revert hexpired
    decide

end Notifications

end OoreBuild
