import OoreBuild.Lib.SortedTable
import OoreBuild.Lib.Text

/-!
# Build logs

`store_log_chunks` keeps the log of a build under a cap: the first lines, a marker for what is
missing, and the latest lines. What is stored depends on which lines were sent, not on how they
were split into requests, on their order or on repeats (`rows_storeAll`).
-/

namespace OoreBuild

open Text SortedTable

/-! ## Lines -/

/-- Where a line was printed; the column takes nothing else. -/
inductive LogStream where
  | stdout
  | stderr
  deriving DecidableEq, Repr

structure BuildLogChunk where
  sequence : ℤ
  content : Text
  stream : LogStream
  deriving DecidableEq, Repr

/-- Log lines stored per build. -/
def maxLogLinesPerBuild : ℕ := 10000

/-- Lines kept from the start of an oversized log. -/
def logHeadLines : ℕ := 1000

/-- Bytes of a line that are stored. -/
def maxLineBytes : ℕ := 4096

/-- The text up to the last character boundary within so many bytes. -/
def truncateUtf8Bytes : Text → ℕ → Text
  | [], _ => []
  | c :: rest, maxBytes =>
    if c.utf8Size ≤ maxBytes then c :: truncateUtf8Bytes rest (maxBytes - c.utf8Size) else []

theorem isPrefix_truncateUtf8Bytes (input : Text) (maxBytes : ℕ) :
    truncateUtf8Bytes input maxBytes <+: input := by
  induction input generalizing maxBytes with
  | nil => exact List.prefix_refl _
  | cons c rest ih =>
    unfold truncateUtf8Bytes
    split
    · exact (List.prefix_cons_inj c).mpr (ih _)
    · exact List.nil_prefix

theorem byteLen_truncateUtf8Bytes (input : Text) (maxBytes : ℕ) :
    byteLen (truncateUtf8Bytes input maxBytes) ≤ maxBytes := by
  induction input generalizing maxBytes with
  | nil => exact Nat.zero_le _
  | cons c rest ih =>
    unfold truncateUtf8Bytes
    split
    · rename_i hc
      have hrest := ih (maxBytes - c.utf8Size)
      have hlen : byteLen (c :: truncateUtf8Bytes rest (maxBytes - c.utf8Size)) =
          c.utf8Size + byteLen (truncateUtf8Bytes rest (maxBytes - c.utf8Size)) := rfl
      omega
    · exact Nat.zero_le _

/-- A text that fits is kept whole. -/
theorem truncateUtf8Bytes_of_le {input : Text} {maxBytes : ℕ} (h : byteLen input ≤ maxBytes) :
    truncateUtf8Bytes input maxBytes = input := by
  induction input generalizing maxBytes with
  | nil => rfl
  | cons c rest ih =>
    have hlen : byteLen (c :: rest) = c.utf8Size + byteLen rest := rfl
    unfold truncateUtf8Bytes
    rw [if_pos (by omega), ih (by omega)]

/-- The row of a line. -/
def BuildLogChunk.stored (chunk : BuildLogChunk) : BuildLogChunk :=
  { chunk with content := truncateUtf8Bytes chunk.content maxLineBytes }

/-- A line that fits is stored as it is. -/
theorem BuildLogChunk.stored_of_le {chunk : BuildLogChunk}
    (h : byteLen chunk.content ≤ maxLineBytes) : chunk.stored = chunk := by
  unfold BuildLogChunk.stored
  rw [truncateUtf8Bytes_of_le h]

theorem BuildLogChunk.byteLen_stored (chunk : BuildLogChunk) :
    byteLen chunk.stored.content ≤ maxLineBytes :=
  byteLen_truncateUtf8Bytes _ _

/-! ## The stored log -/

/-- The rows of a build's log, in the order of their sequence. -/
structure BuildLog where
  rows : List BuildLogChunk
  sorted : Sorted BuildLogChunk.sequence rows

def BuildLog.empty : BuildLog := ⟨[], List.Pairwise.nil⟩

/-- The row that stands for the lines from its sequence to the next one. -/
def markerRow (cap head : ℕ) (sequence next : ℤ) : BuildLogChunk where
  sequence := sequence
  content := "[oore] " ++ ofInt (next - sequence) ++ " log lines omitted. Logs keep the first " ++
    ofNat head ++ " and the latest " ++ ofNat (cap - head - 1) ++ " lines of a build."
  stream := .stderr

/-- Drop the oldest rows after the head and the marker, and write the marker over its row. -/
def trimRows (cap head : ℕ) (rows : List BuildLogChunk) : List BuildLogChunk :=
  let excess := rows.length - cap
  if 0 < excess then
    let kept := rows.take (head + 1) ++ rows.drop (head + 1 + excess)
    match kept.drop head with
    | marker :: next :: rest =>
      kept.take head ++ markerRow cap head marker.sequence next.sequence :: next :: rest
    | _ => kept
  else rows

/-- What an oversized log is cut to. -/
theorem trimRows_of_lt {cap head : ℕ} {rows : List BuildLogChunk} (hlen : cap < rows.length)
    (hhead : head + 1 < cap) : ∃ sequence next rest,
      (rows.map BuildLogChunk.sequence)[head]? = some sequence ∧
      rows.rtake (cap - head - 1) = next :: rest ∧
      trimRows cap head rows =
        rows.take head ++ markerRow cap head sequence next.sequence :: next :: rest := by
  have hlt : head < rows.length := by omega
  have hhigh : rows.drop (head + 1 + (rows.length - cap)) = rows.rtake (cap - head - 1) := by
    unfold List.rtake
    congr 1
    omega
  have hne : (rows.rtake (cap - head - 1)).length = cap - head - 1 := by
    rw [List.rtake, List.length_drop]
    omega
  obtain ⟨next, rest, hnext⟩ : ∃ next rest, rows.rtake (cap - head - 1) = next :: rest := by
    cases hcases : rows.rtake (cap - head - 1) with
    | nil =>
      rw [hcases, List.length_nil] at hne
      omega
    | cons next rest => exact ⟨next, rest, rfl⟩
  refine ⟨rows[head].sequence, next, rest, by simp [hlt], hnext, ?_⟩
  have htake : (rows.take head).length = head := List.length_take_of_le hlt.le
  have hkept : rows.take (head + 1) ++ rows.drop (head + 1 + (rows.length - cap)) =
      rows.take head ++ rows[head] :: next :: rest := by
    rw [hhigh, hnext, ← List.take_append_getElem hlt, List.append_assoc, List.singleton_append]
  unfold trimRows
  dsimp only
  rw [if_pos (by omega), hkept, List.drop_left' htake, List.take_left' htake]

theorem trimRows_of_le {cap head : ℕ} {rows : List BuildLogChunk} (hlen : rows.length ≤ cap) :
    trimRows cap head rows = rows := by
  unfold trimRows
  rw [if_neg (by omega)]

/-- Oversized logs with the same lowest and highest rows are cut to the same log. -/
theorem trimRows_congr {cap head : ℕ} {l m : List BuildLogChunk} (hhead : head + 1 < cap)
    (hl : cap < l.length) (hm : cap < m.length) (hlow : m.take head = l.take head)
    (hmarker : (m.map BuildLogChunk.sequence).take (head + 1) =
      (l.map BuildLogChunk.sequence).take (head + 1))
    (hhigh : m.rtake (cap - head - 1) = l.rtake (cap - head - 1)) :
    trimRows cap head m = trimRows cap head l := by
  obtain ⟨sequence, next, rest, hsequence, hnext, heq⟩ := trimRows_of_lt hl hhead
  obtain ⟨sequence', next', rest', hsequence', hnext', heq'⟩ := trimRows_of_lt hm hhead
  have hsame : (m.map BuildLogChunk.sequence)[head]? = (l.map BuildLogChunk.sequence)[head]? := by
    rw [← List.getElem?_take_of_succ, hmarker, List.getElem?_take_of_succ]
  rw [hsequence, hsequence'] at hsame
  rw [hhigh, hnext] at hnext'
  obtain ⟨rfl, rfl⟩ := List.cons.inj hnext'
  rw [heq, heq', hlow, Option.some.inj hsame]

/-- The rows that are kept have the sequences they had. -/
theorem sequences_trimRows {cap head : ℕ} (hhead : head + 1 < cap) (rows : List BuildLogChunk) :
    ((trimRows cap head rows).map BuildLogChunk.sequence).Sublist
      (rows.map BuildLogChunk.sequence) := by
  rcases Nat.lt_or_ge cap rows.length with hlen | hlen
  · obtain ⟨sequence, next, rest, hsequence, hnext, heq⟩ := trimRows_of_lt hlen hhead
    have hlow : (rows.map BuildLogChunk.sequence).take (head + 1) =
        (rows.take head).map BuildLogChunk.sequence ++ [sequence] := by
      rw [List.take_add_one, hsequence, List.map_take]
      rfl
    have hsplit : (trimRows cap head rows).map BuildLogChunk.sequence =
        (rows.map BuildLogChunk.sequence).take (head + 1) ++
          (rows.map BuildLogChunk.sequence).drop (rows.length - (cap - head - 1)) := by
      rw [heq, hlow, ← hnext, List.map_append, List.map_cons, List.rtake, List.map_drop,
        List.append_assoc, List.singleton_append]
      rfl
    rw [hsplit]
    conv_rhs => rw [← List.take_append_drop (head + 1) (rows.map BuildLogChunk.sequence)]
    refine (List.Sublist.refl _).append ?_
    exact List.drop_sublist_drop_left _ (by omega)
  · rw [trimRows_of_le hlen]

theorem exists_of_mem_trimRows {cap head : ℕ} {rows : List BuildLogChunk} (hhead : head + 1 < cap)
    {row : BuildLogChunk} (h : row ∈ trimRows cap head rows) :
    ∃ x ∈ rows, x.sequence = row.sequence :=
  List.mem_map.mp ((sequences_trimRows hhead rows).subset (List.mem_map_of_mem h))

theorem sorted_trimRows {cap head : ℕ} {rows : List BuildLogChunk} (hhead : head + 1 < cap)
    (h : Sorted BuildLogChunk.sequence rows) :
    Sorted BuildLogChunk.sequence (trimRows cap head rows) :=
  List.pairwise_map.mp ((List.pairwise_map.mpr h).sublist (sequences_trimRows hhead rows))

/-- The log is never over the cap, and full where it was cut. -/
theorem length_trimRows {cap head : ℕ} (hhead : head + 1 < cap) (rows : List BuildLogChunk) :
    (trimRows cap head rows).length = min rows.length cap := by
  rcases Nat.lt_or_ge cap rows.length with hlen | hlen
  · obtain ⟨sequence, next, rest, -, hnext, heq⟩ := trimRows_of_lt hlen hhead
    have hlow : (rows.take head).length = head := List.length_take_of_le (by omega)
    have hhigh : (next :: rest).length = cap - head - 1 := by
      rw [← hnext, List.rtake, List.length_drop]
      omega
    rw [heq, List.length_append, List.length_cons, hlow, hhigh]
    omega
  · rw [trimRows_of_le hlen]
    omega

/-! ## Requests -/

/-- A cut log has its lowest rows and its highest ones as they were. -/
theorem mem_trimRows {cap head : ℕ} {rows : List BuildLogChunk} (hhead : head + 1 < cap)
    {row : BuildLogChunk} (h : row ∈ rows.take head ∨ row ∈ rows.rtake (cap - head - 1)) :
    row ∈ trimRows cap head rows := by
  rcases Nat.lt_or_ge cap rows.length with hlen | hlen
  · obtain ⟨sequence, next, rest, -, hnext, heq⟩ := trimRows_of_lt hlen hhead
    rw [heq, ← hnext]
    rcases h with hlow | hhigh
    · exact List.mem_append.mpr (.inl hlow)
    · exact List.mem_append.mpr (.inr (List.mem_cons_of_mem _ hhigh))
  · rw [trimRows_of_le hlen]
    exact h.elim List.mem_of_mem_take List.mem_of_mem_drop

/-- Its marker has the sequence of the row it was written over. -/
theorem mem_sequences_trimRows {cap head : ℕ} {rows : List BuildLogChunk} (hhead : head + 1 < cap)
    {sequence : ℤ} (h : sequence ∈ (rows.map BuildLogChunk.sequence).take (head + 1)) :
    sequence ∈ (trimRows cap head rows).map BuildLogChunk.sequence := by
  rcases Nat.lt_or_ge cap rows.length with hlen | hlen
  · obtain ⟨marker, next, rest, hmarker, -, heq⟩ := trimRows_of_lt hlen hhead
    rw [List.take_add_one, hmarker, ← List.map_take, List.mem_append] at h
    rw [heq, List.map_append, List.mem_append]
    refine h.imp_right fun hin => ?_
    rw [List.map_cons]
    exact List.mem_cons.mpr (.inl (List.mem_singleton.mp hin))
  · rw [trimRows_of_le hlen]
    exact List.mem_of_mem_take h

/-- The rows of an oversized log that a cut keeps are there after more rows come to the cut log. -/
theorem mem_of_cut {cap head : ℕ} {l new : List BuildLogChunk} (hhead : head + 1 < cap)
    (hconsistent : Consistent BuildLogChunk.sequence (l ++ new)) {x : BuildLogChunk}
    (hx : x ∈ insertAll BuildLogChunk.sequence l new)
    (hkept : x ∈ l → x ∈ trimRows cap head l) :
    x ∈ insertAll BuildLogChunk.sequence (trimRows cap head l) new := by
  by_cases hold : x ∈ l
  · exact sublist_insertAll.subset (hkept hold)
  · have hnew : x ∈ new := (mem_insertAll hx).resolve_left hold
    refine mem_insertAll_of_new (fun y hy z hz => hconsistent y (List.mem_append_right _ hy) z
      (List.mem_append_right _ hz)) hnew fun y hy heq => hold ?_
    obtain ⟨z, hz, hsequence⟩ := exists_of_mem_trimRows hhead hy
    rw [← hconsistent z (List.mem_append_left _ hz) x (List.mem_append_right _ hnew)
      (hsequence.trans heq)]
    exact hz

/-- The low sequences of a log are there after more rows come to the cut log. -/
theorem mem_sequences_of_cut {cap head : ℕ} {l new : List BuildLogChunk} (hhead : head + 1 < cap)
    {sequence : ℤ} (h : sequence ∈
      ((insertAll BuildLogChunk.sequence l new).map BuildLogChunk.sequence).take (head + 1))
    (hwhole : Sorted BuildLogChunk.sequence (insertAll BuildLogChunk.sequence l new)) :
    sequence ∈ (insertAll BuildLogChunk.sequence (trimRows cap head l) new).map
      BuildLogChunk.sequence := by
  have hnodup : ((insertAll BuildLogChunk.sequence l new).map BuildLogChunk.sequence).Nodup :=
    (List.pairwise_map.mpr hwhole).imp fun hlt => hlt.ne
  obtain ⟨x, hx, rfl⟩ := List.mem_map.mp (List.mem_of_mem_take h)
  by_cases hold : x.sequence ∈ l.map BuildLogChunk.sequence
  · have hlow := mem_take_of_sublist (sublist_insertAll.map BuildLogChunk.sequence) hnodup hold h
    exact (sublist_insertAll.map BuildLogChunk.sequence).subset
      (mem_sequences_trimRows hhead hlow)
  · have hnew : x ∈ new := (mem_insertAll hx).resolve_left fun hin =>
      hold (List.mem_map_of_mem hin)
    obtain ⟨y, hy, heq⟩ := exists_key_insertAll BuildLogChunk.sequence (trimRows cap head l) hnew
    exact List.mem_map.mpr ⟨y, hy, heq⟩

/-- Lines that come to a cut log lead to the same log as when they come to the whole one. -/
theorem trimRows_insertAll {cap head : ℕ} {l new : List BuildLogChunk} (hhead : head + 1 < cap)
    (hl : Sorted BuildLogChunk.sequence l)
    (hconsistent : Consistent BuildLogChunk.sequence (l ++ new)) :
    trimRows cap head (insertAll BuildLogChunk.sequence (trimRows cap head l) new) =
      trimRows cap head (insertAll BuildLogChunk.sequence l new) := by
  rcases Nat.lt_or_ge cap l.length with hlen | hlen
  swap
  · rw [trimRows_of_le hlen]
  have hcut : Sorted BuildLogChunk.sequence (trimRows cap head l) := sorted_trimRows hhead hl
  have hwhole := hl.insertAll new
  have hsome := hcut.insertAll new
  have hnodup : (insertAll BuildLogChunk.sequence l new).Nodup :=
    hwhole.imp fun h heq => absurd (heq ▸ h) (lt_irrefl _)
  -- the cut log has no sequence that the whole one lacks
  have hkeys : ∀ y ∈ insertAll BuildLogChunk.sequence (trimRows cap head l) new,
      ∃ x ∈ insertAll BuildLogChunk.sequence l new, x.sequence = y.sequence := by
    intro y hy
    rcases mem_insertAll hy with hold | hnew
    · obtain ⟨x, hx, hsequence⟩ := exists_of_mem_trimRows hhead hold
      exact ⟨x, sublist_insertAll.subset hx, hsequence⟩
    · exact exists_key_insertAll BuildLogChunk.sequence l hnew
  have hgrown : cap ≤ (insertAll BuildLogChunk.sequence (trimRows cap head l) new).length := by
    have hle : (trimRows cap head l).length ≤
        (insertAll BuildLogChunk.sequence (trimRows cap head l) new).length :=
      sublist_insertAll.length_le
    rw [length_trimRows hhead] at hle
    omega
  have hbig : cap < (insertAll BuildLogChunk.sequence l new).length :=
    hlen.trans_le sublist_insertAll.length_le
  rcases Nat.lt_or_ge cap (insertAll BuildLogChunk.sequence (trimRows cap head l) new).length
    with hover | hfull
  · refine trimRows_congr hhead hbig hover ?_ ?_ ?_
    · refine take_eq hwhole hsome head (fun x hx => ?_) hkeys
      refine mem_of_cut hhead hconsistent (List.mem_of_mem_take hx) fun hold => ?_
      exact mem_trimRows hhead (.inl (mem_take_of_sublist sublist_insertAll hnodup hold hx))
    · have hsequences : Sorted id
          ((insertAll BuildLogChunk.sequence l new).map BuildLogChunk.sequence) :=
        List.pairwise_map.mpr hwhole
      refine take_eq hsequences (List.pairwise_map.mpr hsome) (head + 1)
        (fun sequence hsequence => ?_) fun sequence hsequence => ?_
      · exact mem_sequences_of_cut hhead hsequence hwhole
      · obtain ⟨y, hy, rfl⟩ := List.mem_map.mp hsequence
        obtain ⟨x, hx, heq⟩ := hkeys y hy
        exact ⟨x.sequence, List.mem_map_of_mem hx, heq⟩
    · refine rtake_eq hwhole hsome _ (fun x hx => ?_) hkeys
      refine mem_of_cut hhead hconsistent (List.mem_of_mem_drop hx) fun hold => ?_
      exact mem_trimRows hhead (.inr (mem_rtake_of_sublist sublist_insertAll hnodup hold hx))
  · -- nothing came to the cut log, so nothing comes to the whole one
    have hsame : trimRows cap head l =
        insertAll BuildLogChunk.sequence (trimRows cap head l) new := by
      refine sublist_insertAll.eq_of_length ?_
      rw [length_trimRows hhead]
      omega
    have hpresent : ∀ x ∈ new, ∃ y ∈ l, y.sequence = x.sequence := by
      intro x hx
      obtain ⟨y, hy, heq⟩ := exists_key_insertAll BuildLogChunk.sequence (trimRows cap head l) hx
      rw [← hsame] at hy
      obtain ⟨z, hz, heq'⟩ := exists_of_mem_trimRows hhead hy
      exact ⟨z, hz, heq'.trans heq⟩
    rw [trimRows_of_le hfull, ← hsame, insertAll_of_keys hl hpresent]

theorem logHeadLines_lt : logHeadLines + 1 < maxLogLinesPerBuild := by
  unfold logHeadLines maxLogLinesPerBuild
  omega

/-- Insert the lines of a request and cut the log; with how many of them were new. -/
def storeLogChunks (log : BuildLog) (chunks : List BuildLogChunk) : BuildLog × ℕ :=
  let rows := insertAll BuildLogChunk.sequence log.rows (chunks.map BuildLogChunk.stored)
  (⟨trimRows maxLogLinesPerBuild logHeadLines rows,
    sorted_trimRows logHeadLines_lt (log.sorted.insertAll _)⟩, rows.length - log.rows.length)

theorem rows_storeLogChunks (log : BuildLog) (chunks : List BuildLogChunk) :
    (storeLogChunks log chunks).1.rows = trimRows maxLogLinesPerBuild logHeadLines
      (insertAll BuildLogChunk.sequence log.rows (chunks.map BuildLogChunk.stored)) := by
  simp only [storeLogChunks]

/-- The log after requests. -/
def storeAll (requests : List (List BuildLogChunk)) : BuildLog :=
  requests.foldl (fun log chunks => (storeLogChunks log chunks).1) .empty

theorem storeAll_concat (requests : List (List BuildLogChunk)) (chunks : List BuildLogChunk) :
    storeAll (requests ++ [chunks]) = (storeLogChunks (storeAll requests) chunks).1 := by
  unfold storeAll
  rw [List.foldl_append]
  rfl

theorem length_storeAll_le (requests : List (List BuildLogChunk)) :
    (storeAll requests).rows.length ≤ maxLogLinesPerBuild := by
  induction requests using List.reverseRecOn with
  | nil => exact Nat.zero_le _
  | append_singleton requests chunks ih =>
    rw [storeAll_concat, rows_storeLogChunks, length_trimRows logHeadLines_lt]
    exact Nat.min_le_right _ _

/-- Lines of equal sequences have equal rows. -/
theorem consistent_stored {lines : List BuildLogChunk}
    (h : Consistent BuildLogChunk.sequence lines) :
    Consistent BuildLogChunk.sequence (lines.map BuildLogChunk.stored) := by
  intro x hx y hy heq
  obtain ⟨a, ha, rfl⟩ := List.mem_map.mp hx
  obtain ⟨b, hb, rfl⟩ := List.mem_map.mp hy
  rw [h a ha b hb heq]

/-- However the lines come, the log is what a single cut makes of all of them. -/
theorem rows_storeAll {requests : List (List BuildLogChunk)}
    (h : Consistent BuildLogChunk.sequence requests.flatten) :
    (storeAll requests).rows = trimRows maxLogLinesPerBuild logHeadLines
      (insertAll BuildLogChunk.sequence [] (requests.flatten.map BuildLogChunk.stored)) := by
  induction requests using List.reverseRecOn with
  | nil => rfl
  | append_singleton requests chunks ih =>
    have hflatten : (requests ++ [chunks]).flatten = requests.flatten ++ chunks := by simp
    rw [hflatten] at h ⊢
    have hbefore : Consistent BuildLogChunk.sequence requests.flatten := fun x hx y hy =>
      h x (List.mem_append_left _ hx) y (List.mem_append_left _ hy)
    have hrows := consistent_stored h
    rw [List.map_append] at hrows
    rw [storeAll_concat, rows_storeLogChunks, ih hbefore,
      trimRows_insertAll logHeadLines_lt (Sorted.insertAll List.Pairwise.nil _)]
    · rw [List.map_append]
      unfold insertAll
      rw [List.foldl_append]
    · have hin : ∀ x ∈ insertAll BuildLogChunk.sequence []
          (requests.flatten.map BuildLogChunk.stored) ++ chunks.map BuildLogChunk.stored,
          x ∈ requests.flatten.map BuildLogChunk.stored ++ chunks.map BuildLogChunk.stored := by
        intro x hx
        rcases List.mem_append.mp hx with hold | hnew
        · exact List.mem_append_left _ ((mem_insertAll hold).resolve_left List.not_mem_nil)
        · exact List.mem_append_right _ hnew
      exact fun x hx y hy => hrows x (hin x hx) y (hin y hy)

/-! ## Consecutive lines -/

/-- The line at each place has the sequence of that place. -/
def Consecutive (start : ℤ) (lines : List BuildLogChunk) : Prop :=
  ∀ (k : ℕ) line, lines[k]? = some line → line.sequence = start + k

/-- What is kept of consecutive lines: all, or the first ones, a marker that says how many are
missing, and the last ones. -/
def keptLines (start : ℤ) (lines : List BuildLogChunk) : List BuildLogChunk :=
  if lines.length ≤ maxLogLinesPerBuild then lines
  else
    lines.take logHeadLines ++
      { sequence := start + logHeadLines
        content := "[oore] " ++ ofNat (lines.length - (maxLogLinesPerBuild - 1)) ++
          " log lines omitted. Logs keep the first " ++ ofNat logHeadLines ++
          " and the latest " ++ ofNat (maxLogLinesPerBuild - logHeadLines - 1) ++
          " lines of a build."
        stream := .stderr } ::
      lines.rtake (maxLogLinesPerBuild - logHeadLines - 1)

theorem Consecutive.stored {start : ℤ} {lines : List BuildLogChunk} (h : Consecutive start lines) :
    Consecutive start (lines.map BuildLogChunk.stored) := by
  intro k row hrow
  rw [List.getElem?_map] at hrow
  obtain ⟨line, hline, rfl⟩ := Option.map_eq_some_iff.mp hrow
  exact h k line hline

theorem Consecutive.sorted {start : ℤ} {lines : List BuildLogChunk} (h : Consecutive start lines) :
    Sorted BuildLogChunk.sequence lines := by
  refine List.pairwise_iff_getElem.mpr fun i j hi hj hlt => ?_
  rw [h i _ (List.getElem?_eq_getElem hi), h j _ (List.getElem?_eq_getElem hj)]
  omega

theorem Consecutive.consistent {start : ℤ} {lines : List BuildLogChunk}
    (h : Consecutive start lines) : Consistent BuildLogChunk.sequence lines := by
  intro x hx y hy heq
  obtain ⟨i, hi⟩ := List.mem_iff_getElem?.mp hx
  obtain ⟨j, hj⟩ := List.mem_iff_getElem?.mp hy
  have hsame : i = j := by
    rw [h i x hi, h j y hj] at heq
    omega
  subst hsame
  exact Option.some.inj (hi.symm.trans hj)

/-- A cut of consecutive lines keeps what it says. -/
theorem trimRows_consecutive {start : ℤ} {lines : List BuildLogChunk} (h : Consecutive start lines) :
    trimRows maxLogLinesPerBuild logHeadLines lines = keptLines start lines := by
  unfold keptLines
  split
  · rename_i hlen
    exact trimRows_of_le hlen
  · rename_i hlen
    obtain ⟨sequence, next, rest, hsequence, hnext, heq⟩ :=
      trimRows_of_lt (Nat.lt_of_not_le hlen) logHeadLines_lt
    have hmarker : sequence = start + logHeadLines := by
      rw [List.getElem?_map] at hsequence
      obtain ⟨line, hline, rfl⟩ := Option.map_eq_some_iff.mp hsequence
      exact h _ line hline
    have hfirst : next.sequence =
        start + (lines.length - (maxLogLinesPerBuild - logHeadLines - 1) : ℕ) := by
      refine h _ next ?_
      have hhead : (lines.rtake (maxLogLinesPerBuild - logHeadLines - 1))[0]? = some next := by
        rw [hnext]
        rfl
      rwa [List.rtake, List.getElem?_drop, Nat.add_zero] at hhead
    have homitted : next.sequence - sequence =
        ((lines.length - (maxLogLinesPerBuild - 1) : ℕ) : ℤ) := by
      rw [hmarker, hfirst]
      unfold maxLogLinesPerBuild logHeadLines at *
      omega
    rw [heq, ← hnext]
    unfold markerRow
    rw [homitted, hmarker]
    rfl

/-- Whatever the requests, their order and the repeats, the log of consecutive lines is the same,
of the lines as they are stored: those that fit as they are, and of the others the start. It is
never over the cap. -/
theorem log_of_consecutive_lines (start : ℤ) (lines : List BuildLogChunk)
    (requests : List (List BuildLogChunk)) (hconsecutive : Consecutive start lines)
    (hsent : ∀ line, line ∈ requests.flatten ↔ line ∈ lines) :
    (storeAll requests).rows = keptLines start (lines.map BuildLogChunk.stored) ∧
      (∀ line ∈ lines, line.stored.content <+: line.content ∧
        (byteLen line.content ≤ maxLineBytes → line.stored = line)) ∧
      ∀ k, (storeAll (requests.take k)).rows.length ≤ maxLogLinesPerBuild := by
  refine ⟨?_, fun line _ => ⟨isPrefix_truncateUtf8Bytes _ _, BuildLogChunk.stored_of_le⟩,
    fun k => length_storeAll_le _⟩
  have hconsistent : Consistent BuildLogChunk.sequence requests.flatten := fun x hx y hy =>
    hconsecutive.consistent x ((hsent x).mp hx) y ((hsent y).mp hy)
  have hall : insertAll BuildLogChunk.sequence [] (requests.flatten.map BuildLogChunk.stored) =
      lines.map BuildLogChunk.stored := by
    refine Sorted.ext (Sorted.insertAll List.Pairwise.nil _) hconsecutive.stored.sorted fun x => ?_
    have hrows : x ∈ requests.flatten.map BuildLogChunk.stored ↔
        x ∈ lines.map BuildLogChunk.stored := by
      simp only [List.mem_map, hsent]
    rw [← hrows]
    refine ⟨fun hx => (mem_insertAll hx).resolve_left List.not_mem_nil, fun hx => ?_⟩
    exact mem_insertAll_of_new (consistent_stored hconsistent) hx (by simp)
  rw [rows_storeAll hconsistent, hall, trimRows_consecutive hconsecutive.stored]

/-- Two lines that come in the wrong order, one of them twice. -/
theorem log_of_consecutive_lines_two :
    (storeAll [[⟨8, "built", .stdout⟩], [⟨7, "building", .stdout⟩, ⟨8, "built", .stdout⟩]]).rows =
      keptLines 7 [⟨7, "building", .stdout⟩, ⟨8, "built", .stdout⟩] := by
  have hconsecutive : Consecutive 7 [⟨7, "building", .stdout⟩, ⟨8, "built", .stdout⟩] := by
    intro k line hline
    match k with
    | 0 => cases hline; rfl
    | 1 => cases hline; rfl
    | k + 2 => cases hline
  refine (log_of_consecutive_lines 7 _ [[⟨8, "built", .stdout⟩], [⟨7, "building", .stdout⟩,
    ⟨8, "built", .stdout⟩]] hconsecutive fun line => ?_).1.trans ?_
  · simp only [List.flatten_cons, List.flatten_nil, List.append_nil, List.mem_append,
      List.mem_cons, List.not_mem_nil, or_false]
    exact ⟨fun h => h.elim .inr id, .inr⟩
  · rw [List.map_cons, List.map_singleton, BuildLogChunk.stored_of_le (by decide),
      BuildLogChunk.stored_of_le (by decide)]

theorem byteLen_replicate (n : ℕ) : byteLen (List.replicate n 'a') = n := by
  induction n with
  | zero => rfl
  | succ n ih =>
    show Char.utf8Size 'a' + byteLen (List.replicate n 'a') = n + 1
    rw [ih, Nat.add_comm]
    rfl

/-- A line that is one byte too long is not stored as it came. -/
theorem long_line_is_cut : ¬ ∀ (start : ℤ) (lines : List BuildLogChunk)
    (requests : List (List BuildLogChunk)), Consecutive start lines →
    (∀ line, line ∈ requests.flatten ↔ line ∈ lines) →
    (storeAll requests).rows = keptLines start lines := by
  intro h
  obtain ⟨content, hcontent⟩ : ∃ content : Text, byteLen content = 4097 :=
    ⟨_, byteLen_replicate 4097⟩
  have hlong : Consecutive 0 [⟨0, content, .stdout⟩] := by
    intro k line hline
    match k with
    | 0 =>
      obtain rfl := Option.some.inj hline
      rfl
    | k + 1 => cases hline
  have hkept := h 0 [⟨0, content, .stdout⟩] [[⟨0, content, .stdout⟩]] hlong (fun line => by simp)
  have hrows : (storeAll [[⟨0, content, .stdout⟩]]).rows =
      [(⟨0, content, .stdout⟩ : BuildLogChunk).stored] := by
    have hconsistent : Consistent BuildLogChunk.sequence
        [[(⟨0, content, .stdout⟩ : BuildLogChunk)]].flatten := hlong.consistent
    refine (rows_storeAll hconsistent).trans (trimRows_of_le ?_)
    show 1 ≤ maxLogLinesPerBuild
    unfold maxLogLinesPerBuild
    omega
  have hsame : keptLines 0 [⟨0, content, .stdout⟩] = [⟨0, content, .stdout⟩] := by
    unfold keptLines maxLogLinesPerBuild
    exact if_pos (by simp)
  rw [hrows, hsame] at hkept
  have hlen := BuildLogChunk.byteLen_stored ⟨0, content, .stdout⟩
  rw [List.head_eq_of_cons_eq hkept, hcontent] at hlen
  exact absurd hlen (by decide)

end OoreBuild
