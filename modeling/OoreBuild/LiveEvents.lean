import OoreBuild.Lib.ChangeFeed
import OoreBuild.Lib.Upsert
import OoreBuild.Release

/-!
# Live events

A watcher scans the tables of builds, releases and runners while a client is connected, and tells
the clients what changed. It finds a changed build or release by the stamp of its last write, in a
window that reaches two seconds back from the newest stamp it has seen, and a changed runner by
comparing the table with what it was. A client that took the tables when the watcher took its
baseline, and follows the events since, holds the builds of the tables by stamp and status, the
releases of a known state by stamp, state and fraction, and the runners exactly, while the writes
are on time and no scan fails between its queries: the rows of a query before the failing one are
seen, but their events are never sent.
-/

namespace OoreBuild

namespace LiveEvents

open Text ChangeFeed

def watchLookbackSecs : ℤ := 2

def watchBatchLimit : ℕ := 500

structure BuildRow where
  id : Text
  projectId : Text
  buildNumber : ℤ
  status : Text
  updatedAt : ℤ
  deriving DecidableEq

structure ReleaseRow where
  id : Text
  projectId : Text
  buildId : Text
  state : Text
  rolloutFraction : F64
  updatedAt : ℤ
  deriving DecidableEq

structure RunnerRow where
  id : Text
  name : Text
  status : Text
  deriving DecidableEq

structure Tables where
  builds : List BuildRow
  releases : List ReleaseRow
  runners : List RunnerRow

/-- An event carries the row as it was read; of a runner that is gone, the row that was known. -/
inductive LiveEvent where
  | build (row : BuildRow)
  | release (row : ReleaseRow)
  | runner (row : RunnerRow) (removed : Bool)
  | resync (reason : Text)
  deriving DecidableEq

def LiveEvent.isResync : LiveEvent → Bool
  | .resync _ => true
  | _ => false

def parseReleaseState (s : Text) : Option ReleaseState :=
  [.uploading, .processing, .inReview, .rolling, .paused, .halted, .complete, .failed].find?
    fun state : ReleaseState => state.asStr = s

/-! ## The watcher -/

section Watcher

-- How a fraction is written.
variable (display : F64 → Text)

def scanBuilds : Watch BuildRow Text Text where
  key := BuildRow.id
  stamp := BuildRow.updatedAt
  version row := some row.status
  reach := watchLookbackSecs
  limit := watchBatchLimit

/-- A release of a state that is not known is passed over. -/
def scanReleases : Watch ReleaseRow Text Text where
  key := ReleaseRow.id
  stamp := ReleaseRow.updatedAt
  version row := (parseReleaseState row.state).map fun _ =>
    row.state ++ ":" ++ display row.rolloutFraction
  reach := watchLookbackSecs
  limit := watchBatchLimit

/-- The runners that are new or changed, and then those that are gone. -/
def scanRunners (old current : List RunnerRow) : List LiveEvent :=
  ((current.filter fun row => lookup RunnerRow.id old row.id ≠ some row).map (.runner · false)) ++
    (old.filter fun row => lookup RunnerRow.id current row.id = none).map (.runner · true)

structure ChangeCursor where
  builds : Recent Text Text
  releases : Recent Text Text
  runners : List RunnerRow

/-- Start watching without reporting the rows that are there. -/
def ChangeCursor.baseline (tables : Tables) (now : ℤ) : ChangeCursor where
  builds := (scanBuilds.scan (.startingAt now) tables.builds).1
  releases := ((scanReleases display).scan (.startingAt now) tables.releases).1
  runners := tables.runners

/-- The queries of a scan. -/
inductive Query where
  | builds
  | releases
  | runners
  deriving DecidableEq

/-- A scan; the query of one table may fail. -/
def ChangeCursor.scan (cursor : ChangeCursor) (tables : Tables) (failed : Option Query) :
    ChangeCursor × Except Text (List LiveEvent) :=
  if failed = some .builds then (cursor, .error "scan failed")
  else
    let builds := scanBuilds.scan cursor.builds tables.builds
    let cursor := { cursor with builds := builds.1 }
    if failed = some .releases then (cursor, .error "scan failed")
    else
      let releases := (scanReleases display).scan cursor.releases tables.releases
      let cursor := { cursor with releases := releases.1 }
      if (builds.2.2 || releases.2.2) = true then (cursor, .ok [.resync "burst"])
      else if failed = some .runners then (cursor, .error "scan failed")
      else
        ({ cursor with runners := tables.runners },
          .ok (builds.2.1.map .build ++ releases.2.1.map .release ++
            scanRunners cursor.runners tables.runners))

/-- One round of the watcher: the cursor after it and the events that it publishes. -/
def watch (cursor : Option ChangeCursor) (tables : Tables) (now : ℤ) (subscribed : Bool)
    (failed : Option Query) : Option ChangeCursor × List LiveEvent :=
  if subscribed = false then (none, [])
  else
    match cursor with
    | some cursor =>
      match cursor.scan display tables failed with
      | (cursor, .ok events) => (if events.any (·.isResync) then none else some cursor, events)
      | (cursor, .error _) => (some cursor, [])
    | none => (if failed.isSome then none else some (.baseline display tables now), [])

end Watcher

/-! ## Clients -/

/-- What a client holds. -/
structure Client where
  builds : Text → Option BuildRow
  releases : Text → Option ReleaseRow
  runners : Text → Option RunnerRow

/-- A client that fetches the tables. -/
def Client.fetch (tables : Tables) : Client where
  builds := lookup BuildRow.id tables.builds
  releases := lookup ReleaseRow.id tables.releases
  runners := lookup RunnerRow.id tables.runners

def Client.apply (client : Client) : LiveEvent → Client
  | .build row => { client with builds := Function.update client.builds row.id (some row) }
  | .release row => { client with releases := Function.update client.releases row.id (some row) }
  | .runner row removed =>
    { client with
      runners := Function.update client.runners row.id (if removed then none else some row) }
  | .resync _ => client

/-! ## Runs -/

inductive Op where
  | putBuild (row : BuildRow)
  | deleteBuild (id : Text)
  | putRelease (row : ReleaseRow)
  | deleteRelease (id : Text)
  | putRunner (row : RunnerRow)
  | deleteRunner (id : Text)
  | watch (now : ℤ) (subscribed : Bool) (failed : Option Query)

/-- The tables and the watcher, with a client that fetched the tables at the last baseline and the
newest stamp or time so far. -/
structure Run where
  tables : Tables
  cursor : Option ChangeCursor
  client : Option Client
  latest : ℤ

def Run.new (now : ℤ) : Run := ⟨⟨[], [], []⟩, none, none, now⟩

/-- The client after a round of the watcher; without a cursor there is none. -/
def follow (t : Run) (cursor : Option ChangeCursor) (events : List LiveEvent) : Option Client :=
  cursor.map fun _ => match t.client with
    | some client => events.foldl Client.apply client
    | none => .fetch t.tables

variable (display : F64 → Text)

def Run.step (t : Run) : Op → Run
  | .putBuild row =>
    { t with
      tables := { t.tables with builds := Rows.put BuildRow.id row t.tables.builds }
      latest := max t.latest row.updatedAt }
  | .deleteBuild id =>
    { t with tables := { t.tables with builds := Rows.erase BuildRow.id id t.tables.builds } }
  | .putRelease row =>
    { t with
      tables := { t.tables with releases := Rows.put ReleaseRow.id row t.tables.releases }
      latest := max t.latest row.updatedAt }
  | .deleteRelease id =>
    { t with tables := { t.tables with releases := Rows.erase ReleaseRow.id id t.tables.releases } }
  | .putRunner row =>
    { t with tables := { t.tables with runners := Rows.put RunnerRow.id row t.tables.runners } }
  | .deleteRunner id =>
    { t with tables := { t.tables with runners := Rows.erase RunnerRow.id id t.tables.runners } }
  | .watch now subscribed failed =>
    let round := watch display t.cursor t.tables now subscribed failed
    { t with
      cursor := round.1
      client := follow t round.1 round.2
      latest := max t.latest now }

def after (now : ℤ) (ops : List Op) : Run := ops.foldl (Run.step display) (.new now)

/-- Every operation of a run meets a condition on the state before it. -/
def Along (cond : Run → Op → Prop) : Run → List Op → Prop
  | _, [] => True
  | t, op :: ops => cond t op ∧ Along cond (t.step display op) ops

/-- While the watcher has a cursor, no write is stamped more than the lookback before the newest
stamp, and a scan does not fail once it has read the builds. -/
def OnTime (t : Run) : Op → Prop
  | .putBuild row => t.cursor.isSome → t.latest ≤ row.updatedAt + watchLookbackSecs
  | .putRelease row => t.cursor.isSome → t.latest ≤ row.updatedAt + watchLookbackSecs
  | .watch _ _ failed => t.cursor.isSome → failed = none ∨ failed = some .builds
  | _ => True

/-- A baseline finds fewer rows in its window than a scan reads. -/
def Calm (t : Run) : Op → Prop
  | .watch now _ _ => t.cursor = none →
    (scanBuilds.scan (.startingAt now) t.tables.builds).2.2 = false ∧
      ((scanReleases display).scan (.startingAt now) t.tables.releases).2.2 = false
  | _ => True

/-! ## A client follows the tables -/

section Follow

variable {display : F64 → Text} {t : Run} {client : Client} {cursor : ChangeCursor}

/-- The client holds every build by its stamp and status, every release of a known state by its
stamp, state and fraction, and the runners exactly. Of a build or a release that was deleted nothing
is said. -/
structure Client.Shows (display : F64 → Text) (client : Client) (tables : Tables) : Prop where
  builds : ∀ row ∈ tables.builds, scanBuilds.Shows client.builds row
  releases : ∀ row ∈ tables.releases, (parseReleaseState row.state).isSome →
    (scanReleases display).Shows client.releases row
  runners : client.runners = lookup RunnerRow.id tables.runners

/-- What holds of a client while the watcher has a cursor. -/
structure Follows (display : F64 → Text) (tables : Tables) (latest : ℤ) (cursor : ChangeCursor)
    (client : Client) : Prop where
  builds : Current scanBuilds cursor.builds client.builds tables.builds
  releases : Current (scanReleases display) cursor.releases client.releases tables.releases
  runners : client.runners = lookup RunnerRow.id cursor.runners
  distinct : (cursor.runners.map RunnerRow.id).Nodup
  buildsSince : cursor.builds.since ≤ latest
  releasesSince : cursor.releases.since ≤ latest

/-- The stamps of the tables are not after the newest one, and their ids differ. -/
structure Sorted (t : Run) : Prop where
  builds : (t.tables.builds.map BuildRow.id).Nodup
  releases : (t.tables.releases.map ReleaseRow.id).Nodup
  runners : (t.tables.runners.map RunnerRow.id).Nodup
  buildStamps : ∀ row ∈ t.tables.builds, row.updatedAt ≤ t.latest
  releaseStamps : ∀ row ∈ t.tables.releases, row.updatedAt ≤ t.latest

theorem Sorted.step (h : Sorted t) (op : Op) : Sorted (t.step display op) := by
  cases op with
  | putBuild row =>
    refine ⟨Rows.nodup_put h.builds, h.releases, h.runners, fun other hother => ?_,
      fun other hother => (h.releaseStamps other hother).trans (le_max_left _ _)⟩
    rcases Rows.mem_upsert.mp hother with rfl | ⟨hother, _⟩
    · exact le_max_right _ _
    · exact (h.buildStamps other hother).trans (le_max_left _ _)
  | deleteBuild id =>
    exact ⟨Rows.nodup_erase h.builds id, h.releases, h.runners,
      fun other hother => h.buildStamps other (Rows.mem_erase.mp hother).1, h.releaseStamps⟩
  | putRelease row =>
    refine ⟨h.builds, Rows.nodup_put h.releases, h.runners,
      fun other hother => (h.buildStamps other hother).trans (le_max_left _ _),
      fun other hother => ?_⟩
    rcases Rows.mem_upsert.mp hother with rfl | ⟨hother, _⟩
    · exact le_max_right _ _
    · exact (h.releaseStamps other hother).trans (le_max_left _ _)
  | deleteRelease id =>
    exact ⟨h.builds, Rows.nodup_erase h.releases id, h.runners, h.buildStamps,
      fun other hother => h.releaseStamps other (Rows.mem_erase.mp hother).1⟩
  | putRunner row => exact ⟨h.builds, h.releases, Rows.nodup_put h.runners, h.buildStamps,
      h.releaseStamps⟩
  | deleteRunner id => exact ⟨h.builds, h.releases, Rows.nodup_erase h.runners id, h.buildStamps,
      h.releaseStamps⟩
  | watch now subscribed failed => exact ⟨h.builds, h.releases, h.runners,
      fun other hother => (h.buildStamps other hother).trans (le_max_left _ _),
      fun other hother => (h.releaseStamps other hother).trans (le_max_left _ _)⟩

/-- The events of a scan are the changes of each table. -/
theorem foldl_apply (client : Client) (builds : List BuildRow) (releases : List ReleaseRow)
    (old current : List RunnerRow) :
    (builds.map LiveEvent.build ++ releases.map LiveEvent.release ++
        scanRunners old current).foldl Client.apply client =
      { builds := apply client.builds (scanBuilds.changes builds)
        releases := apply client.releases ((scanReleases display).changes releases)
        runners := apply client.runners (diff RunnerRow.id old current) } := by
  have hbuilds : ∀ (rows : List BuildRow) (client : Client), (rows.map .build).foldl Client.apply
      client = { client with builds := apply client.builds (scanBuilds.changes rows) } := by
    intro rows
    induction rows with
    | nil => exact fun _ => rfl
    | cons row rows ih => exact fun client => ih (client.apply (.build row))
  have hreleases : ∀ (rows : List ReleaseRow) (client : Client),
      (rows.map .release).foldl Client.apply client =
        { client with
          releases := apply client.releases ((scanReleases display).changes rows) } := by
    intro rows
    induction rows with
    | nil => exact fun _ => rfl
    | cons row rows ih => exact fun client => ih (client.apply (.release row))
  have hrunners : ∀ (removed : Bool) (rows : List RunnerRow) (client : Client),
      (rows.map (.runner · removed)).foldl Client.apply client =
        { client with
          runners := apply client.runners
            (rows.map fun row => (row.id, if removed then none else some row)) } := by
    intro removed rows
    induction rows with
    | nil => exact fun _ => rfl
    | cons row rows ih => exact fun client => ih (client.apply (.runner row removed))
  unfold scanRunners diff
  rw [List.foldl_append, List.foldl_append, List.foldl_append, hbuilds, hreleases, hrunners,
    hrunners]
  unfold ChangeFeed.apply
  rw [List.foldl_append]
  rfl

/-- A scan of which no query fails. -/
theorem scan_none (cursor : ChangeCursor) (tables : Tables) :
    cursor.scan display tables none =
      if ((scanBuilds.scan cursor.builds tables.builds).2.2 ||
          ((scanReleases display).scan cursor.releases tables.releases).2.2) = true then
        ({ cursor with
            builds := (scanBuilds.scan cursor.builds tables.builds).1
            releases := ((scanReleases display).scan cursor.releases tables.releases).1 },
          .ok [.resync "burst"])
      else
        ({ builds := (scanBuilds.scan cursor.builds tables.builds).1
           releases := ((scanReleases display).scan cursor.releases tables.releases).1
           runners := tables.runners },
          .ok ((scanBuilds.scan cursor.builds tables.builds).2.1.map LiveEvent.build ++
            ((scanReleases display).scan cursor.releases tables.releases).2.1.map
              LiveEvent.release ++ scanRunners cursor.runners tables.runners)) := rfl

theorem not_resync (builds : List BuildRow) (releases : List ReleaseRow)
    (old current : List RunnerRow) :
    (builds.map LiveEvent.build ++ releases.map LiveEvent.release ++
      scanRunners old current).any (·.isResync) = false := by
  simp [scanRunners, LiveEvent.isResync]

/-- A round of the watcher with a cursor: it fails and changes nothing, or asks the clients to fetch
anew, or tells what changed. -/
theorem watch_some {tables : Tables} {now : ℤ} {failed : Option Query}
    (hfailed : failed = none ∨ failed = some .builds) :
    (failed = some .builds ∧
        watch display (some cursor) tables now true failed = (some cursor, [])) ∨
      (watch display (some cursor) tables now true failed = (none, [.resync "burst"])) ∨
        failed = none ∧ (scanBuilds.scan cursor.builds tables.builds).2.2 = false ∧
          ((scanReleases display).scan cursor.releases tables.releases).2.2 = false ∧
            watch display (some cursor) tables now true failed =
              (some
                { builds := (scanBuilds.scan cursor.builds tables.builds).1
                  releases := ((scanReleases display).scan cursor.releases tables.releases).1
                  runners := tables.runners },
                (scanBuilds.scan cursor.builds tables.builds).2.1.map LiveEvent.build ++
                  ((scanReleases display).scan cursor.releases tables.releases).2.1.map
                    LiveEvent.release ++ scanRunners cursor.runners tables.runners) := by
  rcases hfailed with rfl | rfl
  · right
    unfold watch
    rw [if_neg (Bool.true_eq_false ▸ not_false)]
    dsimp only
    rw [scan_none]
    split_ifs with hfull
    · exact Or.inl rfl
    · rw [Bool.or_eq_true, not_or, Bool.not_eq_true, Bool.not_eq_true] at hfull
      refine Or.inr ⟨rfl, hfull.1, hfull.2, ?_⟩
      dsimp only
      rw [not_resync]
      rfl
  · exact Or.inl ⟨rfl, rfl⟩

/-- The reader of the watcher and its cursor come and go together. -/
inductive Linked (display : F64 → Text) (t : Run) : Prop
  | off (hcursor : t.cursor = none) (hclient : t.client = none)
  | on {cursor : ChangeCursor} {client : Client} (hcursor : t.cursor = some cursor)
      (hclient : t.client = some client)
      (hfollows : Follows display t.tables t.latest cursor client)

theorem follows_baseline (h : Sorted t) {now : ℤ} :
    Follows display t.tables (max t.latest now) (.baseline display t.tables now)
      (.fetch t.tables) where
  builds := current_baseline h.builds now
  releases := current_baseline h.releases now
  runners := rfl
  distinct := h.runners
  buildsSince := scan_since_le _ (le_max_right _ _) fun row hrow =>
    (h.buildStamps row hrow).trans (le_max_left _ _)
  releasesSince := scan_since_le _ (le_max_right _ _) fun row hrow =>
    (h.releaseStamps row hrow).trans (le_max_left _ _)

theorem Follows.scan (h : Follows display t.tables t.latest cursor client) (hsorted : Sorted t)
    (hbuilds : (scanBuilds.scan cursor.builds t.tables.builds).2.2 = false)
    (hreleases : ((scanReleases display).scan cursor.releases t.tables.releases).2.2 = false) :
    Follows display t.tables t.latest
      { builds := (scanBuilds.scan cursor.builds t.tables.builds).1
        releases := ((scanReleases display).scan cursor.releases t.tables.releases).1
        runners := t.tables.runners }
      { builds := apply client.builds
          (scanBuilds.changes (scanBuilds.scan cursor.builds t.tables.builds).2.1)
        releases := apply client.releases ((scanReleases display).changes
          ((scanReleases display).scan cursor.releases t.tables.releases).2.1)
        runners := apply client.runners
          (diff RunnerRow.id cursor.runners t.tables.runners) } where
  builds := h.builds.scan hsorted.builds hbuilds
  releases := h.releases.scan hsorted.releases hreleases
  runners := by
    rw [h.runners]
    exact apply_diff hsorted.runners
  distinct := hsorted.runners
  buildsSince := scan_since_le _ h.buildsSince hsorted.buildStamps
  releasesSince := scan_since_le _ h.releasesSince hsorted.releaseStamps

theorem Follows.later {tables : Tables} {latest latest' : ℤ}
    (h : Follows display tables latest cursor client) (hle : latest ≤ latest') :
    Follows display tables latest' cursor client :=
  ⟨h.builds, h.releases, h.runners, h.distinct, h.buildsSince.trans hle, h.releasesSince.trans hle⟩

/-- Tables that differ by rows that are gone, and by rows that are written in time. -/
theorem Follows.of_writes {tables tables' : Tables} {latest : ℤ}
    (h : Follows display tables latest cursor client)
    (hbuilds : ∀ row ∈ tables'.builds,
      row ∈ tables.builds ∨ latest ≤ row.updatedAt + watchLookbackSecs)
    (hreleases : ∀ row ∈ tables'.releases,
      row ∈ tables.releases ∨ latest ≤ row.updatedAt + watchLookbackSecs) :
    Follows display tables' latest cursor client where
  builds := h.builds.of_writes fun row hrow => (hbuilds row hrow).imp_right fun htime => by
    have hsince := h.buildsSince
    show cursor.builds.since - watchLookbackSecs ≤ row.updatedAt
    omega
  releases := h.releases.of_writes fun row hrow => (hreleases row hrow).imp_right fun htime => by
    have hsince := h.releasesSince
    show cursor.releases.since - watchLookbackSecs ≤ row.updatedAt
    omega
  runners := h.runners
  distinct := h.distinct
  buildsSince := h.buildsSince
  releasesSince := h.releasesSince

theorem Linked.watch (h : Linked display t) (hsorted : Sorted t) {now : ℤ} {subscribed : Bool}
    {failed : Option Query} (htime : OnTime t (.watch now subscribed failed)) :
    Linked display (t.step display (.watch now subscribed failed)) := by
  cases subscribed with
  | false => exact .off rfl rfl
  | true =>
    cases h with
    | off hcursor hclient =>
      have hround : LiveEvents.watch display t.cursor t.tables now true failed =
          (if failed.isSome then none else some (.baseline display t.tables now), []) := by
        rw [hcursor]
        rfl
      dsimp only [Run.step]
      rw [hround]
      by_cases hfailed : failed.isSome = true
      · rw [if_pos hfailed]
        exact .off rfl rfl
      · rw [if_neg hfailed]
        refine .on rfl ?_ (follows_baseline hsorted)
        show some (match t.client with | some client => _ | none => _) = _
        rw [hclient]
    | @on cursor client hcursor hclient hfollows =>
      dsimp only [Run.step]
      rw [hcursor]
      have hfailed := htime (by rw [hcursor]; rfl)
      rcases watch_some hfailed with ⟨_, hround⟩ | hround | ⟨_, hbuilds, hreleases, hround⟩
      · rw [hround]
        refine .on rfl ?_ (hfollows.later (le_max_left _ _))
        show some (match t.client with | some client => _ | none => _) = _
        rw [hclient]
        rfl
      · rw [hround]
        exact .off rfl rfl
      · rw [hround]
        refine .on rfl ?_ ((hfollows.scan hsorted hbuilds hreleases).later (le_max_left _ _))
        show some (match t.client with | some client => _ | none => _) = _
        rw [hclient]
        exact congrArg some (foldl_apply client _ _ _ _)

theorem Linked.step (h : Linked display t) (hsorted : Sorted t) {op : Op} (htime : OnTime t op) :
    Linked display (t.step display op) := by
  cases op with
  | watch now subscribed failed => exact h.watch hsorted htime
  | putBuild row =>
    cases h with
    | off hcursor hclient => exact .off hcursor hclient
    | on hcursor hclient hfollows =>
      refine .on hcursor hclient (Follows.later ?_ (le_max_left t.latest row.updatedAt))
      refine hfollows.of_writes (fun other hother => ?_) fun _ => Or.inl
      rcases Rows.mem_upsert.mp hother with rfl | ⟨hother, _⟩
      · exact Or.inr (htime (by rw [hcursor]; rfl))
      · exact Or.inl hother
  | putRelease row =>
    cases h with
    | off hcursor hclient => exact .off hcursor hclient
    | on hcursor hclient hfollows =>
      refine .on hcursor hclient (Follows.later ?_ (le_max_left t.latest row.updatedAt))
      refine hfollows.of_writes (fun _ => Or.inl) fun other hother => ?_
      rcases Rows.mem_upsert.mp hother with rfl | ⟨hother, _⟩
      · exact Or.inr (htime (by rw [hcursor]; rfl))
      · exact Or.inl hother
  | deleteBuild id =>
    cases h with
    | off hcursor hclient => exact .off hcursor hclient
    | on hcursor hclient hfollows =>
      exact .on hcursor hclient (hfollows.of_writes
        (fun _ hother => Or.inl (Rows.mem_erase.mp hother).1) fun _ => Or.inl)
  | deleteRelease id =>
    cases h with
    | off hcursor hclient => exact .off hcursor hclient
    | on hcursor hclient hfollows =>
      exact .on hcursor hclient (hfollows.of_writes (fun _ => Or.inl)
        fun _ hother => Or.inl (Rows.mem_erase.mp hother).1)
  | putRunner row =>
    cases h with
    | off hcursor hclient => exact .off hcursor hclient
    | on hcursor hclient hfollows =>
      exact .on hcursor hclient (hfollows.of_writes (fun _ => Or.inl) fun _ => Or.inl)
  | deleteRunner id =>
    cases h with
    | off hcursor hclient => exact .off hcursor hclient
    | on hcursor hclient hfollows =>
      exact .on hcursor hclient (hfollows.of_writes (fun _ => Or.inl) fun _ => Or.inl)

theorem linked_foldl {ops : List Op} (h : Linked display t) (hsorted : Sorted t)
    (htime : Along display OnTime t ops) :
    Linked display (ops.foldl (Run.step display) t) ∧
      Sorted (ops.foldl (Run.step display) t) := by
  induction ops generalizing t with
  | nil => exact ⟨h, hsorted⟩
  | cons op ops ih => exact ih (h.step hsorted htime.1) (hsorted.step op) htime.2

theorem sorted_new (now : ℤ) : Sorted (.new now) :=
  ⟨List.nodup_nil, List.nodup_nil, List.nodup_nil, nofun, nofun⟩

theorem shows_fetch {tables : Tables} (hbuilds : (tables.builds.map BuildRow.id).Nodup)
    (hreleases : (tables.releases.map ReleaseRow.id).Nodup) :
    (Client.fetch tables).Shows display tables where
  builds _ hrow := shows_of_view (lookup_eq_some hbuilds hrow)
  releases _ hrow _ := shows_of_view (lookup_eq_some hreleases hrow)
  runners := rfl

/-- A round without a failing query that ends with a cursor leaves the client with the rows of the
tables. -/
theorem Linked.shows (h : Linked display t) (hsorted : Sorted t) {now : ℤ} {client : Client}
    (hclient : (t.step display (.watch now true none)).client = some client) :
    client.Shows display t.tables := by
  cases h with
  | off hcursor hnone =>
    dsimp only [Run.step] at hclient
    rw [hcursor] at hclient
    change some (match t.client with | some client => _ | none => _) = _ at hclient
    rw [hnone] at hclient
    obtain rfl := Option.some.inj hclient
    exact shows_fetch hsorted.builds hsorted.releases
  | @on cursor held hcursor hheld hfollows =>
    dsimp only [Run.step] at hclient
    rw [hcursor] at hclient
    rcases watch_some (Or.inl rfl) with ⟨hnone, _⟩ | hround | ⟨_, hbuilds, hreleases, hround⟩
    · cases hnone
    · rw [hround] at hclient
      cases hclient
    · rw [hround] at hclient
      change some (match t.client with | some client => _ | none => _) = _ at hclient
      rw [hheld] at hclient
      obtain rfl := (Option.some.inj hclient).symm.trans (@foldl_apply display held _ _ _ _)
      exact
        { builds := fun row hrow => shows_scan hfollows.builds hsorted.builds hbuilds hrow rfl
          releases := fun row hrow hstate => shows_scan hfollows.releases hsorted.releases hreleases
            hrow (by
              unfold Watch.entry scanReleases
              rw [Option.isSome_map, Option.isSome_map]
              exact hstate)
          runners := by
            show apply held.runners _ = _
            rw [hfollows.runners]
            exact apply_diff hsorted.runners }

/-- Where a round of the watcher without a failing query ends with a cursor, a client that fetched
the tables at the baseline and applied every event since holds every build by stamp and status,
every release of a known state by stamp, state and fraction, and the runners exactly: in any run of
writes and rounds in which, while there is a cursor, no write is stamped more than the lookback too
early and no scan fails once it has read the builds. -/
theorem clients_hold_the_tables (display : F64 → Text) (started now : ℤ) {ops : List Op}
    (htime : Along display OnTime (.new started) ops) {client : Client}
    (hclient : (after display started (ops ++ [.watch now true none])).client = some client) :
    client.Shows display (after display started (ops ++ [.watch now true none])).tables := by
  obtain ⟨hlinked, hsorted⟩ := linked_foldl (.off rfl rfl) (sorted_new started) htime
  unfold after at hclient ⊢
  rw [List.foldl_append] at hclient ⊢
  exact hlinked.shows hsorted hclient

/-- A build that a late write changes after a release was seen. -/
def lateWrite : List Op :=
  [.putBuild ⟨"b1", "p1", 1, "queued", 100⟩, .putRunner ⟨"r1", "mac", "online"⟩,
    .watch 100 true none, .putRelease ⟨"s1", "p1", "b1", "rolling", .finite 0, 101⟩,
    .watch 101 true none, .putBuild ⟨"b1", "p1", 1, "running", 99⟩,
    .putRunner ⟨"r1", "mac", "busy"⟩]

theorem onTime_lateWrite : Along (fun _ => "0") OnTime (.new 90) lateWrite := by
  refine ⟨nofun, trivial, nofun, ?_, ?_, ?_, trivial, trivial⟩
  · exact fun _ => by decide
  · exact fun _ => Or.inl rfl
  · exact fun _ => by decide

theorem clients_hold_the_tables_lateWrite : ∃ client,
    (after (fun _ => "0") 90 (lateWrite ++ [.watch 102 true none])).client = some client ∧
      client.Shows (fun _ => "0")
        (after (fun _ => "0") 90 (lateWrite ++ [.watch 102 true none])).tables :=
  ⟨_, rfl, clients_hold_the_tables _ 90 102 onTime_lateWrite rfl⟩

-- A scan that fails at the releases has seen the builds: the client never hears of the status.
example : ((after (fun _ => "0") 90 [.putBuild ⟨"b1", "p1", 1, "queued", 100⟩, .watch 100 true none,
      .putBuild ⟨"b1", "p1", 1, "running", 101⟩, .watch 101 true (some .releases),
      .watch 102 true none]).client.bind (·.builds "b1")).map (·.status) = some "queued" := by
  decide +kernel

/-! ## Only news is told -/

/-- What the client holds of a window is remembered as told. -/
def Marked (display : F64 → Text) (t : Run) : Prop :=
  ∀ cursor client, t.cursor = some cursor → t.client = some client →
    Exact scanBuilds cursor.builds client.builds ∧
      Exact (scanReleases display) cursor.releases client.releases

theorem Marked.watch (h : Marked display t) (hlinked : Linked display t) (hsorted : Sorted t)
    {now : ℤ} {subscribed : Bool} {failed : Option Query}
    (htime : OnTime t (.watch now subscribed failed))
    (hcalm : Calm display t (.watch now subscribed failed)) :
    Marked display (t.step display (.watch now subscribed failed)) := by
  intro cursor' client' hcursor' hclient'
  cases subscribed with
  | false => cases hcursor'
  | true =>
    cases hlinked with
    | off hcursor hclient =>
      dsimp only [Run.step] at hcursor' hclient'
      rw [hcursor] at hcursor' hclient'
      by_cases hfailed : failed.isSome = true
      · have hnone : (LiveEvents.watch display none t.tables now true failed).1 = none :=
          if_pos hfailed
        rw [hnone] at hcursor'
        cases hcursor'
      · have hsome : (LiveEvents.watch display none t.tables now true failed).1 =
            some (.baseline display t.tables now) := if_neg hfailed
        rw [hsome] at hcursor' hclient'
        change some (match t.client with | some client => _ | none => _) = _ at hclient'
        rw [hclient] at hclient'
        obtain rfl := Option.some.inj hcursor'
        obtain rfl := Option.some.inj hclient'
        obtain ⟨hbuilds, hreleases⟩ := hcalm hcursor
        exact ⟨exact_baseline hsorted.builds hbuilds, exact_baseline hsorted.releases hreleases⟩
    | @on cursor client hcursor hclient hfollows =>
      obtain ⟨hexact, hexact'⟩ := h cursor client hcursor hclient
      dsimp only [Run.step] at hcursor' hclient'
      rw [hcursor] at hcursor' hclient'
      have hfailed := htime (by rw [hcursor]; rfl)
      rcases watch_some hfailed with ⟨_, hround⟩ | hround | ⟨_, hbuilds, hreleases, hround⟩
      · rw [hround] at hcursor' hclient'
        change some (match t.client with | some client => _ | none => _) = _ at hclient'
        rw [hclient] at hclient'
        obtain rfl := Option.some.inj hcursor'
        obtain rfl := Option.some.inj hclient'
        exact ⟨hexact, hexact'⟩
      · rw [hround] at hcursor'
        cases hcursor'
      · rw [hround] at hcursor' hclient'
        change some (match t.client with | some client => _ | none => _) = _ at hclient'
        rw [hclient] at hclient'
        obtain rfl := Option.some.inj hcursor'
        obtain rfl := (Option.some.inj hclient').symm.trans (@foldl_apply display client _ _ _ _)
        exact ⟨hexact.scan hfollows.builds hsorted.builds,
          hexact'.scan hfollows.releases hsorted.releases⟩

theorem Marked.step (h : Marked display t) (hlinked : Linked display t) (hsorted : Sorted t)
    {op : Op} (htime : OnTime t op) (hcalm : Calm display t op) :
    Marked display (t.step display op) := by
  cases op with
  | watch now subscribed failed => exact h.watch hlinked hsorted htime hcalm
  | putBuild | deleteBuild | putRelease | deleteRelease | putRunner | deleteRunner => exact h

theorem marked_foldl {ops : List Op} (h : Marked display t) (hlinked : Linked display t)
    (hsorted : Sorted t) (htime : Along display OnTime t ops)
    (hcalm : Along display (Calm display) t ops) :
    Marked display (ops.foldl (Run.step display) t) := by
  induction ops generalizing t with
  | nil => exact h
  | cons op ops ih =>
    exact ih (h.step hlinked hsorted htime.1 hcalm.1) (hlinked.step hsorted htime.1)
      (hsorted.step op) htime.2 hcalm.2

/-- A runner that was known and is gone. -/
theorem mem_removed {old current : List RunnerRow} (hold : (old.map RunnerRow.id).Nodup)
    {row : RunnerRow} : (row ∈ old ∧ lookup RunnerRow.id current row.id = none) ↔
      lookup RunnerRow.id old row.id = some row ∧ ∀ other ∈ current, other.id ≠ row.id := by
  refine and_congr ⟨lookup_eq_some hold, List.mem_of_find?_eq_some⟩ ?_
  unfold lookup
  rw [List.find?_eq_none]
  simp only [decide_eq_true_eq, ne_eq]

/-- The events of a round that is no resync and of which no query fails are the builds whose stamp
and status the client does not hold, the releases of a known state whose stamp, state and fraction
it does not hold, the runners that it does not hold as they are, and those that it holds and that
are gone: in any run with the conditions of `OnTime` whose baselines fit into one scan. -/
theorem only_news_is_told (display : F64 → Text) (started now : ℤ) {ops : List Op}
    (htime : Along display OnTime (.new started) ops)
    (hcalm : Along display (Calm display) (.new started) ops) {client : Client}
    (hclient : (after display started ops).client = some client) {events : List LiveEvent}
    (hevents : (watch display (after display started ops).cursor (after display started ops).tables
      now true none).2 = events) (hnews : events.any (·.isResync) = false) :
    (∀ row, .build row ∈ events ↔ row ∈ (after display started ops).tables.builds ∧
        ¬ scanBuilds.Shows client.builds row) ∧
      (∀ row, .release row ∈ events ↔ row ∈ (after display started ops).tables.releases ∧
        (parseReleaseState row.state).isSome ∧
          ¬ (scanReleases display).Shows client.releases row) ∧
        (∀ row, .runner row false ∈ events ↔ row ∈ (after display started ops).tables.runners ∧
          client.runners row.id ≠ some row) ∧
          ∀ row, .runner row true ∈ events ↔ client.runners row.id = some row ∧
            ∀ other ∈ (after display started ops).tables.runners, other.id ≠ row.id := by
  obtain ⟨hlinked, hsorted⟩ := linked_foldl (.off rfl rfl) (sorted_new started) htime
  have hmarked : Marked display (after display started ops) :=
    marked_foldl (by intro _ _ h; cases h) (.off rfl rfl) (sorted_new started) htime hcalm
  change Linked display (after display started ops) at hlinked
  change Sorted (after display started ops) at hsorted
  generalize after display started ops = t at hlinked hsorted hmarked hclient hevents ⊢
  cases hlinked with
  | off _ hnone =>
    rw [hnone] at hclient
    cases hclient
  | @on cursor held hcursor hheld hfollows =>
    obtain rfl := Option.some.inj (hheld.symm.trans hclient)
    obtain ⟨hexact, hexact'⟩ := hmarked cursor held hcursor hheld
    rw [hcursor] at hevents
    rcases watch_some (Or.inl rfl) with ⟨hnone, _⟩ | hround | ⟨_, hbuilds, hreleases, hround⟩
    · cases hnone
    · rw [hround] at hevents
      subst hevents
      cases hnews
    · rw [hround] at hevents
      subst hevents
      refine ⟨fun row => ?_, fun row => ?_, fun row => ?_, fun row => ?_⟩
      · have hmem : row ∈ _ ↔ _ := mem_scan hfollows.builds hexact hsorted.builds hbuilds
        simp only [List.mem_append, List.mem_map, scanRunners]
        simpa [scanBuilds, Watch.entry] using hmem
      · have hmem : row ∈ _ ↔ _ := mem_scan hfollows.releases hexact' hsorted.releases hreleases
        simp only [List.mem_append, List.mem_map, scanRunners]
        simpa [scanReleases, Watch.entry] using hmem
      · rw [hfollows.runners]
        simp [scanRunners]
      · rw [hfollows.runners, ← mem_removed hfollows.distinct]
        simp [scanRunners]

theorem calm_lateWrite : Along (fun _ => "0") (Calm fun _ => "0") (.new 90) lateWrite := by
  refine ⟨trivial, trivial, ?_, trivial, nofun, trivial, trivial, trivial⟩
  exact fun _ => by decide

theorem only_news_is_told_lateWrite : ∃ client events,
    (after (fun _ => "0") 90 lateWrite).client = some client ∧
      (watch (fun _ => "0") (after (fun _ => "0") 90 lateWrite).cursor
        (after (fun _ => "0") 90 lateWrite).tables 102 true none).2 = events ∧
        events = [.build ⟨"b1", "p1", 1, "running", 99⟩, .runner ⟨"r1", "mac", "busy"⟩ false] ∧
          ∀ row, .build row ∈ events ↔ row ∈ (after (fun _ => "0") 90 lateWrite).tables.builds ∧
            ¬ scanBuilds.Shows client.builds row :=
  ⟨_, _, rfl, rfl, by decide, (only_news_is_told (fun _ => "0") 90 102 onTime_lateWrite
    calm_lateWrite rfl rfl (by decide)).1⟩

end Follow

end LiveEvents

end OoreBuild
