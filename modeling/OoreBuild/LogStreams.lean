import OoreBuild.Build
import OoreBuild.BuildLogs
import OoreBuild.Lib.Interleave

/-!
# Live log streams

`build_log_sse_stream` sends the lines of a running build. It reads the log and the status in
separate queries, and learns of new lines and of the end from events, from a recovery tick, or from
the status itself. `streams_complete` says which orders of these lose no line.
-/

namespace OoreBuild

open Text SortedTable Interleave

/-! ## A build and its streams -/

inductive DoneReason where
  | authorizationEnded
  | buildFinished
  /-- The scheduler went away; no event is sent. -/
  | closed
  deriving DecidableEq, Repr

/-- A stream that ended. -/
structure StreamOutcome where
  start : ℤ
  sent : List BuildLogChunk
  reason : DoneReason

/-- A build with its log, the lines stored before it became terminal, the states announced to
subscribers, and the streams that ended. -/
structure StreamedBuild where
  buildId : ℕ
  status : BuildStatus
  log : BuildLog
  beforeEnd : List BuildLogChunk
  announced : List BuildStatus
  ended : List StreamOutcome

def StreamedBuild.new (buildId : ℕ) : StreamedBuild := ⟨buildId, .queued, .empty, [], [], []⟩

/-- The variables of `build_log_sse_stream`, and the lines it sent. -/
structure LogSseStream where
  start : ℤ
  lastSeq : ℤ
  fetchLogsNow : Bool
  checkStatusNow : Bool
  doneAfterLogs : Bool
  sent : List BuildLogChunk

def LogSseStream.new (initialLastSeq : ℤ) : LogSseStream :=
  ⟨initialLastSeq, initialLastSeq, true, true, false, []⟩

/-- What wakes a stream up, with how its queries go. -/
inductive StreamWakeup where
  | authorizationCheck (valid : Bool)
  | recovery
  | fetchLogs (valid succeeds : Bool)
  | checkStatus (succeeds : Bool)
  | logEvent (buildId : ℕ) (latestSequence : ℤ)
  | buildStateEvent (buildId : ℕ) (toStatus : BuildStatus)
  | lagged
  | closed

def sseLogPageSize : ℕ := 500

def loadPendingLogPage (log : BuildLog) (afterSequence : ℤ) : List BuildLogChunk :=
  (log.rows.filter fun row => afterSequence < row.sequence).take sseLogPageSize

/-- The stream sends its last event. -/
def StreamedBuild.done (s : StreamedBuild) (t : LogSseStream) (reason : DoneReason) :
    StreamedBuild × Option LogSseStream :=
  ({ s with ended := ⟨t.start, t.sent, reason⟩ :: s.ended }, none)

/-- Send a page. -/
def LogSseStream.page (t : LogSseStream) (logs : List BuildLogChunk) : LogSseStream :=
  { t with
    fetchLogsNow := logs.length = sseLogPageSize
    lastSeq := (logs.getLast?.map BuildLogChunk.sequence).getD t.lastSeq
    sent := t.sent ++ logs }

/-- The select is biased: a tick goes first, then the log, then the status, then an event. A
terminal state is announced after it is stored. -/
def advanceStream (s : StreamedBuild) (t : LogSseStream) :
    StreamWakeup → Option (StreamedBuild × Option LogSseStream)
  | .authorizationCheck valid =>
    if valid then some (s, some t) else some (s.done t .authorizationEnded)
  | .recovery => some (s, some { t with fetchLogsNow := true, checkStatusNow := true })
  | .fetchLogs valid succeeds =>
    if t.fetchLogsNow then
      if valid then
        let t' := if succeeds then t.page (loadPendingLogPage s.log t.lastSeq)
          else { t with fetchLogsNow := false }
        if !t'.fetchLogsNow && t'.doneAfterLogs then some (s.done t' .buildFinished)
        else some (s, some t')
      else some (s.done t .authorizationEnded)
    else none
  | .checkStatus succeeds =>
    if t.checkStatusNow && !t.fetchLogsNow then
      if succeeds && s.status.isTerminal then some (s.done t .buildFinished)
      else some (s, some { t with checkStatusNow := false })
    else none
  | .logEvent buildId latestSequence =>
    if t.checkStatusNow || t.fetchLogsNow then none
    else if buildId = s.buildId && t.lastSeq < latestSequence then
      some (s, some { t with fetchLogsNow := true })
    else some (s, some t)
  | .buildStateEvent buildId toStatus =>
    if t.checkStatusNow || t.fetchLogsNow then none
    else if buildId = s.buildId then
      if s.announced.contains toStatus then
        if toStatus.isTerminal then
          some (s, some { t with fetchLogsNow := true, doneAfterLogs := true })
        else some (s, some t)
      else none
    else some (s, some t)
  | .lagged =>
    if t.checkStatusNow || t.fetchLogsNow then none
    else some (s, some { t with fetchLogsNow := true, checkStatusNow := true })
  | .closed =>
    if t.checkStatusNow || t.fetchLogsNow then none else some (s.done t .closed)

inductive BuildInput where
  | connect (lastEventId : ℤ)
  | appendLogs (chunks : List BuildLogChunk)
  | transition (status : BuildStatus)
  | announce

def enterBuild (s : StreamedBuild) : BuildInput → Option (StreamedBuild × List LogSseStream)
  | .connect lastEventId => some (s, [.new lastEventId])
  | .appendLogs chunks =>
    let log := (storeLogChunks s.log chunks).1
    some ({ s with
      log := log
      beforeEnd := if s.status.isTerminal then s.beforeEnd else log.rows }, [])
  | .transition status => if s.status.isTerminal then none else some ({ s with status := status }, [])
  | .announce => some ({ s with announced := s.status :: s.announced }, [])

/-- A build and any number of streams of it. -/
def logStreams : Interleave StreamedBuild LogSseStream BuildInput StreamWakeup where
  enter := enterBuild
  advance := advanceStream
  drop s _ := s
  restart s := s

/-! ## What the streams promise -/

/-- Lines come after those that are stored, and the log stays under the cap. -/
def appendInOrder (log : BuildLog) (chunks : List BuildLogChunk) : Prop :=
  Sorted BuildLogChunk.sequence (log.rows ++ chunks) ∧
    log.rows.length + chunks.length ≤ maxLogLinesPerBuild

instance (log : BuildLog) (chunks : List BuildLogChunk) : Decidable (appendInOrder log chunks) :=
  inferInstanceAs (Decidable (_ ∧ _))

/-- The queries of the wakeup succeed. -/
def StreamWakeup.querySucceeds : StreamWakeup → Bool
  | .fetchLogs _ succeeds => succeeds
  | .checkStatus succeeds => succeeds
  | _ => true

/-- Lines are appended in order under the cap, and the queries succeed. -/
def inOrder : Condition StreamedBuild LogSseStream BuildInput StreamWakeup where
  enter s input := ∀ chunks, input = .appendLogs chunks → appendInOrder s.log chunks
  enterBeside _ _ _ := True
  advance _ _ wakeup := wakeup.querySucceeds = true
  advanceBeside _ _ _ _ := True

/-- The stream has read the log but not yet the status, and a line came since. -/
def LogSseStream.missed (t : LogSseStream) (log : BuildLog) : Prop :=
  t.checkStatusNow = true ∧ t.fetchLogsNow = false ∧
    ∃ row ∈ log.rows, t.lastSeq < row.sequence

/-- Beyond that, no build becomes terminal while a stream of it has a line to read and is about to
check the status. -/
def inOrderRead : Condition StreamedBuild LogSseStream BuildInput StreamWakeup :=
  { inOrder with enterBeside := fun s input t =>
      ∀ status : BuildStatus, input = .transition status → status.isTerminal = true →
        ¬t.missed s.log }

/-- A stream that ended sent its lines in order, and all of them that were stored before the end if
it said that the build finished. -/
structure StreamOutcome.Complete (o : StreamOutcome) (s : StreamedBuild) : Prop where
  sorted : Sorted BuildLogChunk.sequence o.sent
  complete : o.reason = .buildFinished →
    ∀ row ∈ s.beforeEnd, o.start < row.sequence → row ∈ o.sent

/-! ## Pages -/

/-- What a stream sent, against the log. -/
structure LogSseStream.Reads (t : LogSseStream) (log : BuildLog) : Prop where
  sorted : Sorted BuildLogChunk.sequence t.sent
  below : ∀ row ∈ t.sent, row.sequence ≤ t.lastSeq
  position : t.lastSeq = t.start ∨ ∃ row ∈ log.rows, row.sequence = t.lastSeq
  read : ∀ row ∈ log.rows, t.start < row.sequence → row.sequence ≤ t.lastSeq → row ∈ t.sent

theorem mem_loadPendingLogPage {log : BuildLog} {after : ℤ} {row : BuildLogChunk}
    (h : row ∈ loadPendingLogPage log after) : row ∈ log.rows ∧ after < row.sequence := by
  obtain ⟨hrow, hafter⟩ := List.mem_filter.mp (List.mem_of_mem_take h)
  exact ⟨hrow, of_decide_eq_true hafter⟩

theorem sorted_loadPendingLogPage (log : BuildLog) (after : ℤ) :
    Sorted BuildLogChunk.sequence (loadPendingLogPage log after) :=
  log.sorted.sublist ((List.take_sublist _ _).trans List.filter_sublist)

/-- A row that is not on the page comes after all of a full page. -/
theorem lt_of_not_mem_page {log : BuildLog} {after : ℤ} {row : BuildLogChunk}
    (hrow : row ∈ log.rows) (hafter : after < row.sequence)
    (hnot : row ∉ loadPendingLogPage log after) :
    (loadPendingLogPage log after).length = sseLogPageSize ∧
      ∀ x ∈ loadPendingLogPage log after, x.sequence < row.sequence := by
  have hpending : row ∈ log.rows.filter fun row => after < row.sequence :=
    List.mem_filter.mpr ⟨hrow, decide_eq_true hafter⟩
  have hsorted : Sorted BuildLogChunk.sequence (log.rows.filter fun row => after < row.sequence) :=
    log.sorted.sublist List.filter_sublist
  unfold loadPendingLogPage at hnot ⊢
  rw [← List.take_append_drop sseLogPageSize (log.rows.filter _)] at hpending hsorted
  have hdrop := (List.mem_append.mp hpending).resolve_left hnot
  refine ⟨List.length_take_of_le ?_, fun x hx => (List.pairwise_append.mp hsorted).2.2 x hx row hdrop⟩
  by_contra hshort
  rw [List.drop_eq_nil_of_le (Nat.le_of_not_le hshort)] at hdrop
  cases hdrop

variable {t : LogSseStream} {log : BuildLog}

theorem getLast_loadPendingLogPage (log : BuildLog) (after : ℤ) :
    loadPendingLogPage log after = [] ∨ ∃ last ∈ loadPendingLogPage log after,
      (loadPendingLogPage log after).getLast? = some last ∧
        ∀ x ∈ loadPendingLogPage log after, x.sequence ≤ last.sequence := by
  rcases List.eq_nil_or_concat (loadPendingLogPage log after) with hnil | ⟨init, last, hconcat⟩
  · exact .inl hnil
  · right
    have hsorted := sorted_loadPendingLogPage log after
    rw [hconcat, List.concat_eq_append] at hsorted ⊢
    refine ⟨last, by simp, by simp, fun x hx => ?_⟩
    rcases List.mem_append.mp hx with hx | hx
    · exact ((List.pairwise_append.mp hsorted).2.2 x hx last (List.mem_singleton_self _)).le
    · rw [List.mem_singleton.mp hx]

/-- A page continues what was sent. -/
theorem LogSseStream.Reads.page (h : t.Reads log) :
    (t.page (loadPendingLogPage log t.lastSeq)).Reads log := by
  have hsorted : Sorted BuildLogChunk.sequence (t.sent ++ loadPendingLogPage log t.lastSeq) :=
    List.pairwise_append.mpr ⟨h.sorted, sorted_loadPendingLogPage _ _, fun a ha b hb =>
      (h.below a ha).trans_lt (mem_loadPendingLogPage hb).2⟩
  unfold LogSseStream.page
  rcases getLast_loadPendingLogPage log t.lastSeq with hnil | ⟨last, hmem, hlast, hmax⟩
  · rw [hnil] at hsorted ⊢
    refine ⟨hsorted, fun row hrow => h.below row ?_, h.position, fun row hrow hstart hle => ?_⟩
    · rwa [List.append_nil] at hrow
    · rw [List.append_nil]
      exact h.read row hrow hstart hle
  · rw [hlast]
    refine ⟨hsorted, fun row hrow => ?_, .inr ⟨last, (mem_loadPendingLogPage hmem).1, rfl⟩,
      fun row hrow hstart hle => ?_⟩
    · rcases List.mem_append.mp hrow with hrow | hrow
      · exact (h.below row hrow).trans (mem_loadPendingLogPage hmem).2.le
      · exact hmax row hrow
    · rcases le_or_gt row.sequence t.lastSeq with hold | hnew
      · exact List.mem_append_left _ (h.read row hrow hstart hold)
      · by_cases hin : row ∈ loadPendingLogPage log t.lastSeq
        · exact List.mem_append_right _ hin
        · exact absurd hle ((lt_of_not_mem_page hrow hnew hin).2 last hmem).not_ge

/-- After a page that is not full, every line was sent. -/
theorem LogSseStream.Reads.page_all (h : t.Reads log)
    (hshort : (t.page (loadPendingLogPage log t.lastSeq)).fetchLogsNow = false) :
    ∀ row ∈ log.rows, t.start < row.sequence →
      row ∈ (t.page (loadPendingLogPage log t.lastSeq)).sent := by
  intro row hrow hstart
  show row ∈ t.sent ++ loadPendingLogPage log t.lastSeq
  rcases le_or_gt row.sequence t.lastSeq with hold | hnew
  · exact List.mem_append_left _ (h.read row hrow hstart hold)
  · by_cases hin : row ∈ loadPendingLogPage log t.lastSeq
    · exact List.mem_append_right _ hin
    · exact absurd (lt_of_not_mem_page hrow hnew hin).1 (of_decide_eq_false hshort)

/-! ## The invariant -/

structure StreamedBuild.Ok (s : StreamedBuild) : Prop where
  stored : ∀ row ∈ s.beforeEnd, row ∈ s.log.rows
  announced : ∀ status ∈ s.announced, status.isTerminal = true → s.status.isTerminal = true
  ended : ∀ o ∈ s.ended, o.Complete s ∧ (o.reason = .buildFinished → s.status.isTerminal = true)

/-- A stream that is about to check the status of a build that became terminal sent what was stored
before. -/
structure LogSseStream.Ok (s : StreamedBuild) (t : LogSseStream) : Prop where
  reads : t.Reads s.log
  afterLogs : t.doneAfterLogs = true → s.status.isTerminal = true
  checked : s.status.isTerminal = true → t.checkStatusNow = true → t.fetchLogsNow = false →
    ∀ row ∈ s.beforeEnd, t.start < row.sequence → row ∈ t.sent

theorem LogSseStream.ok_new (s : StreamedBuild) (start : ℤ) : LogSseStream.Ok s (.new start) where
  reads := ⟨List.Pairwise.nil, fun _ h => absurd h List.not_mem_nil, .inl rfl,
    fun _ _ hstart hle => absurd hle hstart.not_ge⟩
  afterLogs h := by cases h
  checked _ _ h := by cases h

theorem StreamedBuild.ok_new (buildId : ℕ) : (StreamedBuild.new buildId).Ok where
  stored _ h := h
  announced _ h := absurd h List.not_mem_nil
  ended _ h := absurd h List.not_mem_nil

/-- The end of a stream. -/
theorem StreamedBuild.Ok.done {s : StreamedBuild} (h : s.Ok) {t : LogSseStream}
    (ht : Sorted BuildLogChunk.sequence t.sent) {reason : DoneReason}
    (hreason : reason = .buildFinished → s.status.isTerminal = true ∧
      ∀ row ∈ s.beforeEnd, t.start < row.sequence → row ∈ t.sent) :
    (s.done t reason).1.Ok where
  stored := h.stored
  announced := h.announced
  ended o ho := by
    rcases List.mem_cons.mp ho with rfl | ho
    · exact ⟨⟨ht, fun heq => (hreason heq).2⟩, fun heq => (hreason heq).1⟩
    · exact ⟨⟨(h.ended o ho).1.sorted, (h.ended o ho).1.complete⟩, (h.ended o ho).2⟩

theorem storeLogChunks_inOrder {chunks : List BuildLogChunk} (h : appendInOrder log chunks) :
    (storeLogChunks log chunks).1.rows = log.rows ++ chunks.map BuildLogChunk.stored := by
  obtain ⟨hsorted, hlen⟩ := h
  have hstored : Sorted BuildLogChunk.sequence
      (log.rows ++ chunks.map BuildLogChunk.stored) := by
    obtain ⟨hrows, hchunks, hlt⟩ := List.pairwise_append.mp hsorted
    refine List.pairwise_append.mpr ⟨hrows, List.pairwise_map.mpr hchunks, fun a ha b hb => ?_⟩
    obtain ⟨chunk, hchunk, rfl⟩ := List.mem_map.mp hb
    exact hlt a ha chunk hchunk
  rw [rows_storeLogChunks, insertAll_of_sorted hstored, trimRows_of_le]
  rwa [List.length_append, List.length_map]

/-- Lines that are appended in order come after what a stream sent. -/
theorem LogSseStream.Reads.append {chunks : List BuildLogChunk} (h : t.Reads log)
    (hinOrder : appendInOrder log chunks) : t.Reads (storeLogChunks log chunks).1 := by
  have hrows := storeLogChunks_inOrder hinOrder
  refine ⟨h.sorted, h.below, ?_, fun row hrow hstart hle => ?_⟩
  · rw [hrows]
    exact h.position.imp_right fun ⟨row, hrow, heq⟩ => ⟨row, List.mem_append_left _ hrow, heq⟩
  · rw [hrows] at hrow
    rcases List.mem_append.mp hrow with hrow | hrow
    · exact h.read row hrow hstart hle
    · obtain ⟨chunk, hchunk, rfl⟩ := List.mem_map.mp hrow
      rcases h.position with hpos | ⟨last, hlast, hpos⟩
      · exact absurd (hpos ▸ hle) hstart.not_ge
      · have hlt := (List.pairwise_append.mp hinOrder.1).2.2 last hlast chunk hchunk
        exact absurd (hpos ▸ hle) hlt.not_ge

/-! ## Steps -/

theorem enterBuild_ok {s s' : StreamedBuild} {input : BuildInput} {started : List LogSseStream}
    (h : s.Ok) (hinOrder : ∀ chunks, input = .appendLogs chunks → appendInOrder s.log chunks)
    (henter : enterBuild s input = some (s', started)) :
    s'.Ok ∧ ∀ t ∈ started, LogSseStream.Ok s' t := by
  cases input with
  | connect lastEventId =>
    cases henter
    refine ⟨h, fun t ht => ?_⟩
    rw [List.mem_singleton.mp ht]
    exact LogSseStream.ok_new s lastEventId
  | announce =>
    cases henter
    refine ⟨⟨h.stored, fun status hstatus hterminal => ?_, fun o ho =>
      ⟨⟨(h.ended o ho).1.sorted, (h.ended o ho).1.complete⟩, (h.ended o ho).2⟩⟩, by simp⟩
    rcases List.mem_cons.mp hstatus with rfl | hstatus
    · exact hterminal
    · exact h.announced status hstatus hterminal
  | transition status =>
    simp only [enterBuild] at henter
    split at henter
    · cases henter
    · rename_i hactive
      cases henter
      refine ⟨⟨h.stored, fun other hother hterminal =>
        absurd (h.announced other hother hterminal) hactive, fun o ho =>
        ⟨⟨(h.ended o ho).1.sorted, (h.ended o ho).1.complete⟩, fun heq =>
          absurd ((h.ended o ho).2 heq) hactive⟩⟩, by simp⟩
  | appendLogs chunks =>
    have hrows := storeLogChunks_inOrder (hinOrder chunks rfl)
    cases henter
    refine ⟨⟨fun row hrow => ?_, h.announced, fun o ho => ?_⟩, by simp⟩
    · dsimp only at hrow ⊢
      split at hrow
      · rw [hrows]
        exact List.mem_append_left _ (h.stored row hrow)
      · exact hrow
    · obtain ⟨hcomplete, hterminal⟩ := h.ended o ho
      refine ⟨⟨hcomplete.sorted, fun heq row hrow => ?_⟩, hterminal⟩
      dsimp only at hrow
      rw [if_pos (hterminal heq)] at hrow
      exact hcomplete.complete heq row hrow

/-- What the log and the status of the build do to a stream beside them. -/
theorem enterBuild_beside {s s' : StreamedBuild} {input : BuildInput}
    {started : List LogSseStream} {t : LogSseStream} (h : s.Ok) (ht : LogSseStream.Ok s t)
    (hinOrder : ∀ chunks, input = .appendLogs chunks → appendInOrder s.log chunks)
    (hread : ∀ status : BuildStatus, input = .transition status → status.isTerminal = true →
      ¬t.missed s.log)
    (henter : enterBuild s input = some (s', started)) : LogSseStream.Ok s' t := by
  cases input with
  | connect lastEventId =>
    cases henter
    exact ht
  | announce =>
    cases henter
    exact ⟨ht.reads, ht.afterLogs, ht.checked⟩
  | transition status =>
    simp only [enterBuild] at henter
    split at henter
    · cases henter
    · rename_i hactive
      cases henter
      refine ⟨ht.reads, fun hdone => absurd (ht.afterLogs hdone) hactive,
        fun hterminal hcheck hfetch row hrow hstart => ?_⟩
      refine ht.reads.read row (h.stored row hrow) hstart ?_
      by_contra hgt
      exact hread status rfl hterminal
        ⟨hcheck, hfetch, row, h.stored row hrow, lt_of_not_ge hgt⟩
  | appendLogs chunks =>
    cases henter
    refine ⟨ht.reads.append (hinOrder chunks rfl), ht.afterLogs,
      fun hterminal hcheck hfetch row hrow => ?_⟩
    dsimp only at hrow hterminal
    rw [if_pos hterminal] at hrow
    exact ht.checked hterminal hcheck hfetch row hrow

/-- A stream that is told to read the log first. -/
theorem LogSseStream.Ok.fetch {s : StreamedBuild} (h : LogSseStream.Ok s t)
    {checkStatusNow doneAfterLogs : Bool}
    (hdone : doneAfterLogs = true → s.status.isTerminal = true) :
    LogSseStream.Ok s { t with
      fetchLogsNow := true
      checkStatusNow := checkStatusNow
      doneAfterLogs := doneAfterLogs } where
  reads := ⟨h.reads.sorted, h.reads.below, h.reads.position, h.reads.read⟩
  afterLogs := hdone
  checked _ _ hfetch := by cases hfetch

theorem advanceStream_fetchLogs {s s' : StreamedBuild} {next : Option LogSseStream} {valid : Bool}
    (h : s.Ok) (ht : LogSseStream.Ok s t)
    (hadvance : advanceStream s t (.fetchLogs valid true) = some (s', next)) :
    s'.Ok ∧ ∀ t' ∈ next, LogSseStream.Ok s' t' := by
  have hreads := ht.reads.page
  have hall := ht.reads.page_all
  simp only [advanceStream, if_true] at hadvance
  split at hadvance
  · split at hadvance
    · split at hadvance
      · -- a terminal state was announced, and this was the last page
        rename_i hlast
        rw [Bool.and_eq_true, Bool.not_eq_true'] at hlast
        cases hadvance
        exact ⟨h.done hreads.sorted fun _ => ⟨ht.afterLogs hlast.2, fun row hrow =>
          hall hlast.1 row (h.stored row hrow)⟩, by simp⟩
      · cases hadvance
        refine ⟨h, fun t' ht' => ?_⟩
        obtain rfl := Option.some.inj ht'
        exact ⟨hreads, ht.afterLogs, fun _ _ hfetch row hrow =>
          hall hfetch row (h.stored row hrow)⟩
    · cases hadvance
      exact ⟨h.done ht.reads.sorted (by simp), by simp⟩
  · cases hadvance

theorem advanceStream_ok {s s' : StreamedBuild} {wakeup : StreamWakeup}
    {next : Option LogSseStream} (h : s.Ok) (ht : LogSseStream.Ok s t)
    (hqueries : wakeup.querySucceeds = true)
    (hadvance : advanceStream s t wakeup = some (s', next)) :
    s'.Ok ∧ ∀ t' ∈ next, LogSseStream.Ok s' t' := by
  have hsame : s.Ok ∧ ∀ t' ∈ some t, LogSseStream.Ok s t' :=
    ⟨h, fun t' ht' => Option.some.inj ht' ▸ ht⟩
  have hfetch : ∀ {checkStatusNow doneAfterLogs : Bool},
      (doneAfterLogs = true → s.status.isTerminal = true) →
      ∀ t' ∈ some { t with
        fetchLogsNow := true
        checkStatusNow := checkStatusNow
        doneAfterLogs := doneAfterLogs }, LogSseStream.Ok s t' :=
    fun hdone t' ht' => Option.some.inj ht' ▸ ht.fetch hdone
  cases wakeup with
  | authorizationCheck valid =>
    simp only [advanceStream] at hadvance
    split at hadvance
    · cases hadvance
      exact hsame
    · cases hadvance
      exact ⟨h.done ht.reads.sorted (by simp), by simp⟩
  | recovery =>
    cases hadvance
    exact ⟨h, hfetch ht.afterLogs⟩
  | fetchLogs valid succeeds =>
    replace hqueries : succeeds = true := hqueries
    subst hqueries
    exact advanceStream_fetchLogs h ht hadvance
  | checkStatus succeeds =>
    simp only [advanceStream] at hadvance
    split at hadvance
    · rename_i hflags
      rw [Bool.and_eq_true, Bool.not_eq_true'] at hflags
      split at hadvance
      · rename_i hterminal
        rw [Bool.and_eq_true] at hterminal
        cases hadvance
        exact ⟨h.done ht.reads.sorted fun _ =>
          ⟨hterminal.2, ht.checked hterminal.2 hflags.1 hflags.2⟩, by simp⟩
      · cases hadvance
        refine ⟨h, fun t' ht' => ?_⟩
        obtain rfl := Option.some.inj ht'
        exact ⟨⟨ht.reads.sorted, ht.reads.below, ht.reads.position, ht.reads.read⟩,
          ht.afterLogs, fun _ hcheck => by cases hcheck⟩
    · cases hadvance
  | logEvent buildId latestSequence =>
    simp only [advanceStream] at hadvance
    split at hadvance
    · cases hadvance
    · split at hadvance
      · cases hadvance
        exact ⟨h, hfetch ht.afterLogs⟩
      · cases hadvance
        exact hsame
  | buildStateEvent buildId toStatus =>
    simp only [advanceStream] at hadvance
    split at hadvance
    · cases hadvance
    · split at hadvance
      · split at hadvance
        · rename_i hannounced
          split at hadvance
          · rename_i hterminal
            cases hadvance
            exact ⟨h, hfetch fun _ =>
              h.announced toStatus (List.contains_iff_mem.mp hannounced) hterminal⟩
          · cases hadvance
            exact hsame
        · cases hadvance
      · cases hadvance
        exact hsame
  | lagged =>
    simp only [advanceStream] at hadvance
    split at hadvance
    · cases hadvance
    · cases hadvance
      exact ⟨h, hfetch ht.afterLogs⟩
  | closed =>
    simp only [advanceStream] at hadvance
    split at hadvance
    · cases hadvance
    · cases hadvance
      exact ⟨h.done ht.reads.sorted (by simp), by simp⟩

/-- A stream changes nothing that another one looks at. -/
theorem advanceStream_beside {s s' : StreamedBuild} {wakeup : StreamWakeup}
    {next : Option LogSseStream} (hadvance : advanceStream s t wakeup = some (s', next)) :
    s'.log = s.log ∧ s'.status = s.status ∧ s'.beforeEnd = s.beforeEnd := by
  cases wakeup <;> simp only [advanceStream] at hadvance <;> repeat' split at hadvance
  all_goals cases hadvance <;> exact ⟨rfl, rfl, rfl⟩

theorem logStreams_stable : Stable logStreams inOrderRead StreamedBuild.Ok LogSseStream.Ok
    fun _ _ => True where
  symm _ _ _ := trivial
  enter _ _ _ _ h hcond henter :=
    have hok := enterBuild_ok h hcond henter
    ⟨hok.1, hok.2, List.pairwise_of_forall fun _ _ => trivial⟩
  enterBeside _ _ _ _ _ h hcond henter ht hread :=
    ⟨enterBuild_beside h ht hcond hread henter, fun _ _ => trivial⟩
  advance _ _ _ _ _ h ht hcond hadvance := advanceStream_ok h ht hcond hadvance
  advanceBeside s t _ s' _ u _ _ _ hadvance hu _ _ := by
    obtain ⟨hlog, hstatus, hbefore⟩ := advanceStream_beside hadvance
    refine ⟨⟨?_, ?_, ?_⟩, fun _ _ => trivial⟩
    · rw [hlog]
      exact hu.reads
    · rw [hstatus]
      exact hu.afterLogs
    · rw [hstatus, hbefore]
      exact hu.checked
  drop _ _ h _ := h
  dropBeside _ _ _ _ _ ht _ := ht
  restart _ h := h

/-- Every stream sends its lines in order, and where no build becomes terminal while a stream of it
that is about to check the status has a line to read, the ones that say that the build finished sent
all that was stored before. -/
theorem streams_complete {buildId : ℕ} {es : List (Event BuildInput StreamWakeup)}
    {c : Config StreamedBuild LogSseStream}
    (hmeets : logStreams.Meets inOrderRead ⟨.new buildId, []⟩ es)
    (hrun : logStreams.run ⟨.new buildId, []⟩ es = some c) :
    (∀ t ∈ c.calls, Sorted BuildLogChunk.sequence t.sent) ∧
      ∀ o ∈ c.shared.ended, o.Complete c.shared := by
  have hholds := logStreams_stable.run (.start (StreamedBuild.ok_new buildId)) hmeets hrun
  exact ⟨fun t ht => (hholds.calls t ht).reads.sorted, fun o ho => (hholds.shared.ended o ho).1⟩

/-! ## Two runs -/

instance (t : LogSseStream) (log : BuildLog) : Decidable (t.missed log) :=
  inferInstanceAs (Decidable (_ ∧ _ ∧ ∃ row ∈ log.rows, t.lastSeq < row.sequence))

/-- A check of the steps of a run. -/
def checkInOrder (c : Config StreamedBuild LogSseStream) : Event BuildInput StreamWakeup → Bool
  | .enter (.appendLogs chunks) => decide (appendInOrder c.shared.log chunks)
  | .advance _ wakeup => wakeup.querySucceeds
  | _ => true

def checkRead (c : Config StreamedBuild LogSseStream) : Event BuildInput StreamWakeup → Bool
  | .enter (.transition status) =>
    !status.isTerminal || c.calls.all fun t => !decide (t.missed c.shared.log)
  | e => checkInOrder c e

theorem met_of_checkInOrder {c : Config StreamedBuild LogSseStream}
    {e : Event BuildInput StreamWakeup} (h : checkInOrder c e = true) : inOrder.Met c e := by
  cases e with
  | enter input =>
    refine ⟨fun chunks heq => ?_, fun _ _ => trivial⟩
    subst heq
    exact of_decide_eq_true h
  | advance i wakeup => exact fun t _ => ⟨h, fun _ _ => trivial⟩
  | drop i => trivial
  | restart => trivial

theorem met_of_checkRead {c : Config StreamedBuild LogSseStream}
    {e : Event BuildInput StreamWakeup} (h : checkRead c e = true) : inOrderRead.Met c e := by
  cases e with
  | enter input =>
    cases input with
    | transition status =>
      refine ⟨fun _ heq => (by cases heq), fun t ht other heq hterminal => ?_⟩
      obtain rfl := BuildInput.transition.inj heq
      replace h : (!status.isTerminal || c.calls.all fun t => !decide (t.missed c.shared.log)) =
        true := h
      rw [hterminal, Bool.not_true, Bool.false_or] at h
      simpa using List.all_eq_true.mp h t ht
    | connect lastEventId => exact ⟨fun _ heq => (by cases heq), fun _ _ _ heq => (by cases heq)⟩
    | announce => exact ⟨fun _ heq => (by cases heq), fun _ _ _ heq => (by cases heq)⟩
    | appendLogs chunks =>
      exact ⟨(met_of_checkInOrder (e := .enter (.appendLogs chunks)) h).1,
        fun _ _ _ heq => (by cases heq)⟩
  | advance i wakeup => exact fun t _ => ⟨h, fun _ _ => trivial⟩
  | drop i => trivial
  | restart => trivial

/-- A stream that reads a line before the build ends. -/
def readBeforeEnd : List (Event BuildInput StreamWakeup) :=
  [.enter (.connect (-1)), .enter (.appendLogs [⟨0, "failed", .stderr⟩]),
    .advance 0 (.fetchLogs true true), .enter (.transition .failed), .advance 0 (.checkStatus true)]

theorem streams_complete_read : ∃ c, logStreams.run ⟨.new 1, []⟩ readBeforeEnd = some c ∧
    ∀ o ∈ c.shared.ended, o.Complete c.shared := by
  have hmeets : logStreams.Meets inOrderRead ⟨.new 1, []⟩ readBeforeEnd :=
    meets_of_checks logStreams (fun _ _ => met_of_checkRead)
      (show logStreams.checks checkRead ⟨.new 1, []⟩ readBeforeEnd = true by decide +kernel)
  obtain ⟨c, hc⟩ := Option.isSome_iff_exists.mp
    (show (logStreams.run ⟨.new 1, []⟩ readBeforeEnd).isSome = true by decide +kernel)
  exact ⟨c, hc, (streams_complete hmeets hc).2⟩

/-- A line and the end of the build come between the two reads of a new stream. -/
def endBetweenReads : List (Event BuildInput StreamWakeup) :=
  [.enter (.connect (-1)), .advance 0 (.fetchLogs true true),
    .enter (.appendLogs [⟨0, "failed", .stderr⟩]), .enter (.transition .failed),
    .advance 0 (.checkStatus true)]

/-- The stream says that the build finished, without its last line. -/
theorem stream_loses_line : ¬ ∀ (buildId : ℕ) (es : List (Event BuildInput StreamWakeup))
    (c : Config StreamedBuild LogSseStream), logStreams.Meets inOrder ⟨.new buildId, []⟩ es →
    logStreams.run ⟨.new buildId, []⟩ es = some c →
    (∀ t ∈ c.calls, Sorted BuildLogChunk.sequence t.sent) ∧
      ∀ o ∈ c.shared.ended, o.Complete c.shared := by
  intro h
  have hmeets : logStreams.Meets inOrder ⟨.new 1, []⟩ endBetweenReads :=
    meets_of_checks logStreams (fun _ _ => met_of_checkInOrder)
      (show logStreams.checks checkInOrder ⟨.new 1, []⟩ endBetweenReads = true by decide +kernel)
  have hlast : (logStreams.run ⟨.new 1, []⟩ endBetweenReads).any (fun c =>
      c.shared.ended.any (fun o => o.start = -1 && o.sent.isEmpty && o.reason = .buildFinished) &&
        c.shared.beforeEnd = [⟨0, "failed", .stderr⟩]) = true := by
    decide +kernel
  obtain ⟨c, hc, hshared⟩ := Option.any_eq_true _ _ |>.mp hlast
  rw [Bool.and_eq_true, List.any_eq_true] at hshared
  obtain ⟨⟨o, ho, houtcome⟩, hbefore⟩ := hshared
  simp only [Bool.and_eq_true, decide_eq_true_eq, List.isEmpty_iff] at houtcome hbefore
  obtain ⟨⟨hstart, hsent⟩, hreason⟩ := houtcome
  have hin := ((h 1 endBetweenReads c hmeets hc).2 o ho).complete hreason
    ⟨0, "failed", .stderr⟩ (by rw [hbefore]; exact List.mem_singleton_self _)
    (by rw [hstart]; decide)
  rw [hsent] at hin
  cases hin

end OoreBuild
