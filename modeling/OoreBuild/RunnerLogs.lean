import OoreBuild.BuildLogs

/-!
# The runner's log writers

A build's runner writes lines one by one (`append_runner_log_line`) and, for the output of a
command, in batches (`run_and_stream`), and a request or its reply may be lost. The first writer
uses a sequence number again until it sees a reply, the second one never does.
`log_writers_faithful_iff` says when nothing is lost by that.
-/

namespace OoreBuild

open Text SortedTable

/-! ## The writers -/

/-- Every occurrence of the pattern replaced, up to so many. -/
def replaceAll (pattern replacement : Text) : ℕ → Text → Text
  | 0, text => text
  | fuel + 1, text =>
    match splitFirst pattern text with
    | none => text
    | some (before, after) => before ++ replacement ++ replaceAll pattern replacement fuel after

structure SecretMasker where
  patterns : List Text

def SecretMasker.mask (masker : SecretMasker) (text : Text) : Text :=
  masker.patterns.foldl (fun masked pattern =>
    if contains masked pattern then replaceAll pattern "***" masked.length masked else masked) text

structure BuildLogCursor where
  seq : ℤ
  masker : SecretMasker

/-- What becomes of a request: it does not reach the store, its reply is lost, or neither. -/
inductive RequestFate where
  | lost
  | replyLost
  | confirmed
  deriving DecidableEq, Repr

/-- The lines sent so far, the requests that reached the store with what it answered, and the
stored log. -/
structure LogChannel where
  sent : List BuildLogChunk
  arrived : List (List BuildLogChunk × ℕ)
  log : BuildLog

def LogChannel.empty : LogChannel := ⟨[], [], .empty⟩

def LogChannel.send (channel : LogChannel) (chunks : List BuildLogChunk) :
    RequestFate → LogChannel
  | .lost => { channel with sent := channel.sent ++ chunks }
  | _ =>
    { sent := channel.sent ++ chunks
      arrived := channel.arrived ++ [(chunks, (storeLogChunks channel.log chunks).2)]
      log := (storeLogChunks channel.log chunks).1 }

def appendRunnerLogLine (cursor : BuildLogCursor) (stream : LogStream) (content : Text)
    (fate : RequestFate) (channel : LogChannel) : BuildLogCursor × LogChannel :=
  (if fate = .confirmed then { cursor with seq := cursor.seq + 1 } else cursor,
    channel.send [⟨cursor.seq, cursor.masker.mask content, stream⟩] fate)

/-- What the upload task of `run_and_stream` wakes up for. The fate is that of the request it then
sends, if it sends one. -/
inductive OutputEvent where
  | line (content : Text) (stream : LogStream) (fate : RequestFate)
  | tick (fate : RequestFate)

structure Uploader where
  localSeq : ℤ
  batch : List BuildLogChunk
  channel : LogChannel

def Uploader.flush (u : Uploader) (fate : RequestFate) : Uploader :=
  if u.batch = [] then u else { u with batch := [], channel := u.channel.send u.batch fate }

def Uploader.step (masker : SecretMasker) (u : Uploader) : OutputEvent → Uploader
  | .line content stream fate =>
    let u' : Uploader :=
      { u with
        batch := u.batch ++ [⟨u.localSeq, masker.mask content, stream⟩]
        localSeq := u.localSeq + 1 }
    if 50 ≤ u'.batch.length then u'.flush fate else u'
  | .tick fate => u.flush fate

def runAndStream (cursor : BuildLogCursor) (events : List OutputEvent) (last : RequestFate)
    (channel : LogChannel) : BuildLogCursor × LogChannel :=
  let u := (events.foldl (Uploader.step cursor.masker) ⟨cursor.seq, [], channel⟩).flush last
  ({ cursor with seq := u.localSeq }, u.channel)

/-! ## What a build writes -/

inductive WriterStep where
  | setMasker (masker : SecretMasker)
  | append (stream : LogStream) (content : Text) (fate : RequestFate)
  | output (events : List OutputEvent) (last : RequestFate)

def writeStep (w : BuildLogCursor × LogChannel) : WriterStep → BuildLogCursor × LogChannel
  | .setMasker masker => ({ w.1 with masker := masker }, w.2)
  | .append stream content fate => appendRunnerLogLine w.1 stream content fate w.2
  | .output events last => runAndStream w.1 events last w.2

def writeSteps (w : BuildLogCursor × LogChannel) (steps : List WriterStep) :
    BuildLogCursor × LogChannel := steps.foldl writeStep w

def OutputEvent.printed : OutputEvent → Option (Text × LogStream)
  | .line content stream _ => some (content, stream)
  | .tick _ => none

/-- The lines a step has to write. -/
def WriterStep.printed : WriterStep → List (Text × LogStream)
  | .setMasker _ => []
  | .append stream content _ => [(content, stream)]
  | .output events _ => events.filterMap OutputEvent.printed

/-- Lines under consecutive sequence numbers. -/
def numbered (masker : SecretMasker) : ℤ → List (Text × LogStream) → List BuildLogChunk
  | _, [] => []
  | seq, (content, stream) :: rest =>
    ⟨seq, masker.mask content, stream⟩ :: numbered masker (seq + 1) rest

/-- No sequence number is used for two lines, every line that reached the store was new to it, and
the log is what is kept of the lines that reached it. -/
structure LogChannel.Faithful (channel : LogChannel) : Prop where
  distinct : (channel.sent.map BuildLogChunk.sequence).Nodup
  appended : ∀ request ∈ channel.arrived, request.2 = request.1.length
  stored : channel.log.rows = trimRows maxLogLinesPerBuild logHeadLines
    ((channel.arrived.flatMap Prod.fst).map BuildLogChunk.stored)

/-- After a line whose reply `append_runner_log_line` did not see, there is no other. -/
def AppendsConfirmed : List WriterStep → Prop
  | [] => True
  | .append _ _ fate :: rest =>
    (fate = .confirmed ∨ ∀ step ∈ rest, step.printed = []) ∧ AppendsConfirmed rest
  | _ :: rest => AppendsConfirmed rest

/-! ## Requests in order -/

/-- Requests that send these lines in this order. -/
inductive SendsLines (channel : LogChannel) : List BuildLogChunk → LogChannel → Prop where
  | none : SendsLines channel [] channel
  | send {chunks : List BuildLogChunk} {mid : LogChannel} (before : SendsLines channel chunks mid)
      {more : List BuildLogChunk} (h : more ≠ []) (fate : RequestFate) :
      SendsLines channel (chunks ++ more) (mid.send more fate)

theorem LogChannel.sent_send (channel : LogChannel) (chunks : List BuildLogChunk)
    (fate : RequestFate) : (channel.send chunks fate).sent = channel.sent ++ chunks := by
  cases fate <;> rfl

theorem SendsLines.sent {channel channel' : LogChannel} {chunks : List BuildLogChunk}
    (h : SendsLines channel chunks channel') : channel'.sent = channel.sent ++ chunks := by
  induction h with
  | none => exact (List.append_nil _).symm
  | send _ _ fate ih => rw [LogChannel.sent_send, ih, List.append_assoc]

theorem SendsLines.eq_of_nil {channel channel' : LogChannel} (h : SendsLines channel [] channel') :
    channel' = channel := by
  generalize hchunks : ([] : List BuildLogChunk) = chunks at h
  cases h with
  | none => rfl
  | send _ hmore _ => exact absurd (List.append_eq_nil_iff.mp hchunks.symm).2 hmore

theorem numbered_append (masker : SecretMasker) (seq : ℤ) (a b : List (Text × LogStream)) :
    numbered masker seq (a ++ b) = numbered masker seq a ++ numbered masker (seq + a.length) b := by
  induction a generalizing seq with
  | nil => simp [numbered]
  | cons line a ih =>
    show _ :: numbered masker (seq + 1) (a ++ b) = _
    rw [ih, List.length_cons, Nat.cast_succ, add_assoc, add_comm 1]
    rfl

/-- What the upload task has sent and what it has in its batch are the lines printed so far. -/
structure Uploader.Ok (cursor : BuildLogCursor) (channel : LogChannel)
    (lines : List (Text × LogStream)) (u : Uploader) : Prop where
  localSeq : u.localSeq = cursor.seq + lines.length
  sends : ∃ done, SendsLines channel done u.channel ∧
    done ++ u.batch = numbered cursor.masker cursor.seq lines

variable {cursor : BuildLogCursor} {channel : LogChannel}

theorem Uploader.Ok.flush {lines : List (Text × LogStream)} {u : Uploader}
    (h : u.Ok cursor channel lines) (fate : RequestFate) :
    (u.flush fate).Ok cursor channel lines ∧ (u.flush fate).batch = [] := by
  unfold Uploader.flush
  split
  · rename_i hempty
    exact ⟨h, hempty⟩
  · rename_i hbatch
    obtain ⟨done, hsends, hlines⟩ := h.sends
    refine ⟨⟨h.localSeq, done ++ u.batch, hsends.send hbatch fate, ?_⟩, rfl⟩
    rw [List.append_nil, hlines]

theorem Uploader.Ok.step {lines : List (Text × LogStream)} {u : Uploader}
    (h : u.Ok cursor channel lines) (event : OutputEvent) :
    (u.step cursor.masker event).Ok cursor channel (lines ++ event.printed.toList) := by
  cases event with
  | tick fate =>
    rw [OutputEvent.printed, Option.toList_none, List.append_nil]
    exact (h.flush fate).1
  | line content stream fate =>
    have hline : Uploader.Ok cursor channel (lines ++ [(content, stream)])
        { u with
          batch := u.batch ++ [⟨u.localSeq, cursor.masker.mask content, stream⟩]
          localSeq := u.localSeq + 1 } := by
      obtain ⟨done, hsends, hlines⟩ := h.sends
      refine ⟨?_, done, hsends, ?_⟩
      · show u.localSeq + 1 = _
        rw [h.localSeq, List.length_append, List.length_singleton]
        omega
      · rw [← List.append_assoc, hlines, numbered_append, h.localSeq]
        rfl
    show Uploader.Ok cursor channel _ (if _ then _ else _)
    split
    · exact (hline.flush fate).1
    · exact hline

variable (cursor channel) in
/-- The upload task sends every line it gets, under consecutive numbers. -/
theorem runAndStream_sends (events : List OutputEvent) (last : RequestFate) :
    SendsLines channel (numbered cursor.masker cursor.seq (events.filterMap OutputEvent.printed))
        (runAndStream cursor events last channel).2 ∧
      (runAndStream cursor events last channel).1 =
        { cursor with
          seq := cursor.seq + (events.filterMap OutputEvent.printed).length } := by
  have hloop : ∀ (rest : List OutputEvent) (u : Uploader) (lines : List (Text × LogStream)),
      u.Ok cursor channel lines → (rest.foldl (Uploader.step cursor.masker) u).Ok cursor channel
        (lines ++ rest.filterMap OutputEvent.printed) := by
    intro rest
    induction rest with
    | nil =>
      intro u lines h
      rwa [List.filterMap_nil, List.append_nil]
    | cons event rest ih =>
      intro u lines h
      have hstep := ih _ _ (h.step event)
      rw [List.append_assoc] at hstep
      rw [List.filterMap_cons]
      cases hprinted : event.printed with
      | none => rwa [hprinted] at hstep
      | some line => rwa [hprinted] at hstep
  have hstart : Uploader.Ok cursor channel [] ⟨cursor.seq, [], channel⟩ :=
    ⟨(add_zero _).symm, [], .none, rfl⟩
  obtain ⟨hok, hbatch⟩ := (hloop events _ _ hstart).flush last
  obtain ⟨done, hsends, hlines⟩ := hok.sends
  rw [hbatch, List.append_nil] at hlines
  exact ⟨hlines ▸ hsends, by
    show ({ cursor with seq := _ } : BuildLogCursor) = _
    rw [hok.localSeq]
    rfl⟩

/-! ## What the requests leave in the store -/

/-- The lines that reached the store. -/
abbrev LogChannel.arrivedLines (channel : LogChannel) : List BuildLogChunk :=
  channel.arrived.flatMap Prod.fst

/-- The lines went out in the order of their numbers, all below the next one. -/
structure LogChannel.Ordered (channel : LogChannel) (next : ℤ) : Prop where
  sorted : Sorted BuildLogChunk.sequence channel.sent
  below : ∀ line ∈ channel.sent, line.sequence < next
  arrived : channel.arrivedLines.Sublist channel.sent
  appended : ∀ request ∈ channel.arrived, request.2 = request.1.length
  stored : channel.log.rows = trimRows maxLogLinesPerBuild logHeadLines
    (channel.arrivedLines.map BuildLogChunk.stored)

theorem LogChannel.ordered_empty (next : ℤ) : LogChannel.empty.Ordered next where
  sorted := List.Pairwise.nil
  below _ hline := absurd hline List.not_mem_nil
  arrived := List.Sublist.refl _
  appended _ hrequest := absurd hrequest List.not_mem_nil
  stored := (trimRows_of_le (Nat.zero_le _)).symm

theorem LogChannel.Ordered.faithful {next : ℤ} (h : channel.Ordered next) : channel.Faithful where
  distinct := List.nodup_iff_pairwise_ne.mpr
    (List.pairwise_map.mpr (h.sorted.imp fun hlt => hlt.ne))
  appended := h.appended
  stored := h.stored

theorem sorted_stored {lines : List BuildLogChunk} (h : Sorted BuildLogChunk.sequence lines) :
    Sorted BuildLogChunk.sequence (lines.map BuildLogChunk.stored) :=
  List.pairwise_map.mpr h

/-- A request that reaches the store in its turn. -/
theorem storeLogChunks_of_sorted {log : BuildLog} {before chunks : List BuildLogChunk}
    (hlog : log.rows = trimRows maxLogLinesPerBuild logHeadLines
      (before.map BuildLogChunk.stored))
    (hsorted : Sorted BuildLogChunk.sequence (before ++ chunks)) :
    (storeLogChunks log chunks).1.rows = trimRows maxLogLinesPerBuild logHeadLines
        ((before ++ chunks).map BuildLogChunk.stored) ∧
      (storeLogChunks log chunks).2 = chunks.length := by
  have hstored := sorted_stored hsorted
  rw [List.map_append] at hstored
  have hbefore : Sorted BuildLogChunk.sequence (before.map BuildLogChunk.stored) :=
    hstored.sublist (List.sublist_append_left _ _)
  -- what is left of the lines before has their sequences
  have htrimmed : Sorted BuildLogChunk.sequence
      (log.rows ++ chunks.map BuildLogChunk.stored) := by
    obtain ⟨-, hnew, hlt⟩ := List.pairwise_append.mp hstored
    refine List.pairwise_append.mpr ⟨log.sorted, hnew, fun row hrow chunk hchunk => ?_⟩
    rw [hlog] at hrow
    obtain ⟨x, hx, hsequence⟩ := exists_of_mem_trimRows logHeadLines_lt hrow
    rw [← hsequence]
    exact hlt x hx chunk hchunk
  constructor
  · rw [rows_storeLogChunks, hlog,
      trimRows_insertAll logHeadLines_lt hbefore hstored.consistent,
      insertAll_of_sorted hstored, List.map_append]
  · show (insertAll BuildLogChunk.sequence log.rows (chunks.map BuildLogChunk.stored)).length -
      log.rows.length = chunks.length
    rw [insertAll_of_sorted htrimmed, List.length_append, List.length_map]
    omega

theorem LogChannel.Ordered.send {next next' : ℤ} (h : channel.Ordered next)
    {chunks : List BuildLogChunk} (hsorted : Sorted BuildLogChunk.sequence chunks)
    (hfrom : ∀ line ∈ chunks, next ≤ line.sequence ∧ line.sequence < next') (hle : next ≤ next')
    (fate : RequestFate) : (channel.send chunks fate).Ordered next' := by
  have hall : Sorted BuildLogChunk.sequence (channel.sent ++ chunks) :=
    List.pairwise_append.mpr ⟨h.sorted, hsorted, fun a ha b hb =>
      (h.below a ha).trans_le (hfrom b hb).1⟩
  have hbelow : ∀ line ∈ channel.sent ++ chunks, line.sequence < next' := by
    intro line hline
    rcases List.mem_append.mp hline with hline | hline
    · exact (h.below line hline).trans_le hle
    · exact (hfrom line hline).2
  have harrived : Sorted BuildLogChunk.sequence (channel.arrivedLines ++ chunks) :=
    hall.sublist (h.arrived.append_right _)
  obtain ⟨hrows, hanswer⟩ := storeLogChunks_of_sorted h.stored harrived
  have hreached : (channel.send chunks .confirmed).Ordered next' := by
    have hlines : (channel.send chunks .confirmed).arrivedLines =
        channel.arrivedLines ++ chunks := by
      show (channel.arrived ++ [_]).flatMap Prod.fst = _
      rw [List.flatMap_append]
      simp
    refine ⟨hall, hbelow, ?_, fun request hrequest => ?_, ?_⟩
    · rw [hlines]
      exact h.arrived.append_right _
    · rcases List.mem_append.mp hrequest with hrequest | hrequest
      · exact h.appended request hrequest
      · rw [List.mem_singleton.mp hrequest]
        exact hanswer
    · rw [hlines]
      exact hrows
  cases fate with
  | lost =>
    exact ⟨hall, hbelow, h.arrived.trans (List.sublist_append_left _ _), h.appended, h.stored⟩
  | replyLost => exact hreached
  | confirmed => exact hreached

/-- Lines in order, in any requests. -/
theorem SendsLines.ordered {channel channel' : LogChannel} {chunks : List BuildLogChunk}
    (h : SendsLines channel chunks channel') {next : ℤ} (hordered : channel.Ordered next)
    (hsorted : Sorted BuildLogChunk.sequence chunks)
    (hfrom : ∀ line ∈ chunks, next ≤ line.sequence) {next' : ℤ} (hle : next ≤ next')
    (hbelow : ∀ line ∈ chunks, line.sequence < next') : channel'.Ordered next' := by
  induction h generalizing next' with
  | none =>
    exact ⟨hordered.sorted, fun line hline => (hordered.below line hline).trans_le hle,
      hordered.arrived, hordered.appended, hordered.stored⟩
  | @send chunks mid before more hmore fate ih =>
    obtain ⟨hchunks, hrest, hlt⟩ := List.pairwise_append.mp hsorted
    -- the requests before end below the first line of this one
    obtain ⟨first, rest, rfl⟩ := List.exists_cons_of_ne_nil hmore
    have hfirst := hfrom first (List.mem_append_right _ List.mem_cons_self)
    have hmid : mid.Ordered first.sequence := ih hchunks
      (fun line hline => hfrom line (List.mem_append_left _ hline)) hfirst
      fun line hline => hlt line hline first List.mem_cons_self
    refine hmid.send hrest (fun line hline => ⟨?_, hbelow line (List.mem_append_right _ hline)⟩)
      (hbelow first (List.mem_append_right _ List.mem_cons_self)).le fate
    rcases List.mem_cons.mp hline with rfl | hline
    · exact le_refl _
    · exact ((List.pairwise_cons.mp hrest).1 line hline).le

theorem mem_numbered {masker : SecretMasker} {seq : ℤ} {lines : List (Text × LogStream)}
    {line : BuildLogChunk} (h : line ∈ numbered masker seq lines) :
    seq ≤ line.sequence ∧ line.sequence < seq + lines.length := by
  induction lines generalizing seq with
  | nil => cases h
  | cons first lines ih =>
    rw [List.length_cons, Nat.cast_succ]
    rcases List.mem_cons.mp h with rfl | h
    · constructor <;> dsimp only <;> omega
    · have hrest := ih h
      omega

theorem sorted_numbered (masker : SecretMasker) (seq : ℤ) (lines : List (Text × LogStream)) :
    Sorted BuildLogChunk.sequence (numbered masker seq lines) := by
  induction lines generalizing seq with
  | nil => exact List.Pairwise.nil
  | cons first lines ih =>
    refine List.pairwise_cons.mpr ⟨fun line hline => ?_, ih _⟩
    have hfrom := (mem_numbered hline).1
    show seq < line.sequence
    omega

/-! ## Runs -/

variable {steps : List WriterStep}

theorem writeSteps_cons (w : BuildLogCursor × LogChannel) (step : WriterStep)
    (rest : List WriterStep) : writeSteps w (step :: rest) = writeSteps (writeStep w step) rest :=
  rfl

/-- A step with nothing to write changes neither the number nor the channel. -/
theorem writeStep_of_printed_nil {w : BuildLogCursor × LogChannel} {step : WriterStep}
    (h : step.printed = []) : (writeStep w step).1.seq = w.1.seq ∧ (writeStep w step).2 = w.2 := by
  cases step with
  | setMasker masker => exact ⟨rfl, rfl⟩
  | append stream content fate => cases h
  | output events last =>
    obtain ⟨hsends, hcursor⟩ :=
      runAndStream_sends w.1 w.2 events last
    replace h : events.filterMap OutputEvent.printed = [] := h
    rw [h] at hsends hcursor
    refine ⟨?_, hsends.eq_of_nil⟩
    show (runAndStream w.1 events last w.2).1.seq = _
    rw [hcursor]
    exact add_zero _

theorem writeSteps_of_printed_nil {w : BuildLogCursor × LogChannel}
    (h : ∀ step ∈ steps, step.printed = []) : (writeSteps w steps).2 = w.2 := by
  induction steps generalizing w with
  | nil => rfl
  | cons step rest ih =>
    rw [writeSteps_cons, ih fun step hstep => h step (List.mem_cons_of_mem _ hstep)]
    exact (writeStep_of_printed_nil (h step List.mem_cons_self)).2

/-- What a step writes comes after what was sent, and starts at the number of the cursor. -/
theorem sent_writeStep (w : BuildLogCursor × LogChannel) (step : WriterStep) :
    (writeStep w step).2.sent =
      w.2.sent ++ numbered w.1.masker w.1.seq step.printed := by
  cases step with
  | setMasker masker => exact (List.append_nil _).symm
  | append stream content fate => exact LogChannel.sent_send _ _ _
  | output events last => exact (runAndStream_sends _ _ events last).1.sent

theorem sent_prefix (w : BuildLogCursor × LogChannel) (steps : List WriterStep) :
    w.2.sent <+: (writeSteps w steps).2.sent := by
  induction steps generalizing w with
  | nil => exact List.prefix_refl _
  | cons step rest ih =>
    refine List.IsPrefix.trans ?_ (ih (writeStep w step))
    rw [sent_writeStep]
    exact List.prefix_append _ _

/-- Where there is a line to write, the number of the cursor is used. -/
theorem exists_sent {w : BuildLogCursor × LogChannel}
    (h : ∃ step ∈ steps, step.printed ≠ []) : ∃ later, (writeSteps w steps).2.sent =
      w.2.sent ++ later ∧ w.1.seq ∈ later.map BuildLogChunk.sequence := by
  induction steps generalizing w with
  | nil =>
    obtain ⟨step, hstep, -⟩ := h
    cases hstep
  | cons step rest ih =>
    by_cases hprinted : step.printed = []
    · obtain ⟨step', hstep', hne⟩ := h
      obtain ⟨hseq, hchannel⟩ := writeStep_of_printed_nil (w := w) hprinted
      rw [← hseq, ← hchannel]
      rcases List.mem_cons.mp hstep' with rfl | hstep'
      · exact absurd hprinted hne
      · exact ih ⟨step', hstep', hne⟩
    · obtain ⟨later, hlater⟩ := sent_prefix (writeStep w step) rest
      rw [sent_writeStep, List.append_assoc] at hlater
      refine ⟨_, hlater.symm, ?_⟩
      obtain ⟨line, lines, hlines⟩ := List.exists_cons_of_ne_nil hprinted
      rw [hlines]
      exact List.mem_map.mpr ⟨_, List.mem_append_left _ List.mem_cons_self, rfl⟩

theorem ordered_writeSteps {w : BuildLogCursor × LogChannel} (h : w.2.Ordered w.1.seq)
    (hconfirmed : AppendsConfirmed steps) : ∃ next, (writeSteps w steps).2.Ordered next := by
  induction steps generalizing w with
  | nil => exact ⟨_, h⟩
  | cons step rest ih =>
    rw [writeSteps_cons]
    cases step with
    | setMasker masker => exact ih h hconfirmed
    | output events last =>
      obtain ⟨hsends, hcursor⟩ :=
        runAndStream_sends w.1 w.2 events last
      refine ih (hsends.ordered h (sorted_numbered _ _ _) (fun line hline =>
        (mem_numbered hline).1) ?_ fun line hline => ?_) hconfirmed
      · show w.1.seq ≤ (runAndStream w.1 events last w.2).1.seq
        rw [hcursor]
        dsimp only
        omega
      · show line.sequence < (runAndStream w.1 events last w.2).1.seq
        rw [hcursor]
        exact (mem_numbered hline).2
    | append stream content fate =>
      have hsent : (w.2.send [⟨w.1.seq, w.1.masker.mask content, stream⟩] fate).Ordered
          (w.1.seq + 1) := by
        refine h.send (List.pairwise_singleton _ _) (fun line hline => ?_) (by omega) fate
        rw [List.mem_singleton.mp hline]
        dsimp only
        omega
      by_cases hfate : fate = .confirmed
      · refine ih ?_ hconfirmed.2
        show LogChannel.Ordered _ (if fate = .confirmed then _ else w.1).seq
        rw [if_pos hfate]
        exact hsent
      · -- this was the last line
        rw [writeSteps_of_printed_nil (hconfirmed.1.resolve_left hfate)]
        exact ⟨_, hsent⟩

/-- A line after one whose reply was not seen has its number. -/
theorem not_nodup_of_not_confirmed {w : BuildLogCursor × LogChannel}
    (h : ¬AppendsConfirmed steps) :
    ¬((writeSteps w steps).2.sent.map BuildLogChunk.sequence).Nodup := by
  induction steps generalizing w with
  | nil => exact absurd trivial h
  | cons step rest ih =>
    rw [writeSteps_cons]
    cases step with
    | setMasker masker => exact ih h
    | output events last => exact ih h
    | append stream content fate =>
      by_cases hrest : AppendsConfirmed rest
      · have hnot : ¬(fate = .confirmed ∨ ∀ step ∈ rest, step.printed = []) :=
          fun hfirst => h ⟨hfirst, hrest⟩
        obtain ⟨hfate, hmore⟩ := not_or.mp hnot
        simp only [not_forall] at hmore
        obtain ⟨step, hstep, hne⟩ := hmore
        obtain ⟨later, hlater, hagain⟩ :=
          exists_sent (w := writeStep w (.append stream content fate)) ⟨step, hstep, hne⟩
        have hsame : (writeStep w (.append stream content fate)).1.seq = w.1.seq := by
          show BuildLogCursor.seq (if fate = .confirmed then _ else w.1) = _
          rw [if_neg hfate]
        rw [hlater, sent_writeStep, List.map_append]
        intro hnodup
        refine (List.nodup_append.mp hnodup).2.2 w.1.seq ?_ _ hagain hsame.symm
        rw [List.map_append]
        exact List.mem_append_right _ List.mem_cons_self
      · exact ih hrest

/-- Nothing is lost to a number used twice exactly when no line follows one whose reply
`append_runner_log_line` did not see. -/
theorem log_writers_faithful_iff (masker : SecretMasker) (steps : List WriterStep) :
    (writeSteps (⟨0, masker⟩, .empty) steps).2.Faithful ↔ AppendsConfirmed steps := by
  constructor
  · intro h
    by_contra hnot
    exact not_nodup_of_not_confirmed hnot h.distinct
  · intro h
    obtain ⟨next, hordered⟩ :=
      ordered_writeSteps (w := (⟨0, masker⟩, .empty)) (LogChannel.ordered_empty 0) h
    exact hordered.faithful

/-- A lost reply, and the line after it is ignored. -/
theorem lost_reply_loses_line : ¬ ∀ (masker : SecretMasker) (steps : List WriterStep),
    (writeSteps (⟨0, masker⟩, .empty) steps).2.Faithful := by
  intro h
  have hfaithful := h ⟨[]⟩
    [.append .stdout "building" .replyLost, .append .stdout "built" .confirmed]
  exact absurd hfaithful.distinct (by decide)

end OoreBuild
