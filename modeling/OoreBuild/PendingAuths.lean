import OoreBuild.Lib.RateWindow
import OoreBuild.Lib.Text
import OoreBuild.Lib.Upsert

/-!
# Sign-ins under way

The store of the OIDC sign-ins that wait for the identity provider. A public sign-in first reserves
its place, against the capacity and against limits on the starts of a minute, and takes it once the
provider is discovered; a sign-in of the setup takes its place at once. The limits are queues of
start times that every reservation prunes.
-/

namespace OoreBuild

namespace PendingAuths

structure PendingAuth (β : Type) where
  redirectUri : Text
  createdAt : ℤ
  setup : Option β

inductive OidcAdmissionError where
  | capacity
  | globalRate
  | sourceRate
  | reservationExpired
  deriving DecidableEq

/-- The store; a source without starts has no queue of its own. The sign-ins and the reservations
are maps by their keys. A generation is drawn anew and differs from the ones before. -/
structure PendingAuthStore (α β : Type) where
  pending : List (Text × PendingAuth β)
  reservations : List (Text × ℤ)
  globalStarts : List ℤ
  sourceStarts : α → List ℤ
  setupGeneration : ℕ

def pendingAuthTtlSecs : ℤ := 600

def maxPendingAuth : ℕ := 1000

def oidcStartRateWindowSecs : ℤ := 60

def maxGlobalOidcStartsPerWindow : ℕ := 120

def maxSourceOidcStartsPerWindow : ℕ := 20

variable {α β : Type}

def PendingAuthStore.new (setupGeneration : ℕ) : PendingAuthStore α β :=
  ⟨[], [], [], fun _ => [], setupGeneration⟩

namespace PendingAuthStore

def cleanup (store : PendingAuthStore α β) (now : ℤ) : PendingAuthStore α β :=
  { store with
    pending := store.pending.filter fun row => now - row.2.createdAt < pendingAuthTtlSecs
    reservations := store.reservations.filter fun row => now - row.2 < pendingAuthTtlSecs
    globalStarts := RateWindow.prune (now - oidcStartRateWindowSecs) store.globalStarts
    sourceStarts := fun source =>
      RateWindow.prune (now - oidcStartRateWindowSecs) (store.sourceStarts source) }

/-- The places that are taken. -/
def taken (store : PendingAuthStore α β) : ℕ := store.pending.length + store.reservations.length

def push [DecidableEq α] (starts : α → List ℤ) (source : α) (now : ℤ) : α → List ℤ := fun other =>
  if other = source then starts other ++ [now] else starts other

def reservePublic [DecidableEq α] (store : PendingAuthStore α β) (reservationId : Text) (source : α)
    (now : ℤ) : PendingAuthStore α β × Except OidcAdmissionError Unit :=
  let store := store.cleanup now
  if maxPendingAuth ≤ store.taken then (store, .error .capacity)
  else if maxGlobalOidcStartsPerWindow ≤ store.globalStarts.length then (store, .error .globalRate)
  else if maxSourceOidcStartsPerWindow ≤ (store.sourceStarts source).length then
    (store, .error .sourceRate)
  else
    ({ store with
        globalStarts := store.globalStarts ++ [now]
        sourceStarts := push store.sourceStarts source now
        reservations := Rows.put Prod.fst (reservationId, now) store.reservations }, .ok ())

def commitPublic (store : PendingAuthStore α β) (reservationId state : Text)
    (pending : PendingAuth β) : PendingAuthStore α β × Except OidcAdmissionError Unit :=
  let store := store.cleanup pending.createdAt
  if reservationId ∈ store.reservations.map Prod.fst then
    ({ store with
        reservations := Rows.erase Prod.fst reservationId store.reservations
        pending := Rows.put Prod.fst (state, pending) store.pending }, .ok ())
  else (store, .error .reservationExpired)

def cancelPublic (store : PendingAuthStore α β) (reservationId : Text) : PendingAuthStore α β :=
  { store with reservations := Rows.erase Prod.fst reservationId store.reservations }

def insertSetup (store : PendingAuthStore α β) (state : Text) (pending : PendingAuth β) (now : ℤ) :
    PendingAuthStore α β × Except OidcAdmissionError Unit :=
  let store := store.cleanup now
  if maxPendingAuth ≤ store.taken then (store, .error .capacity)
  else ({ store with pending := Rows.put Prod.fst (state, pending) store.pending }, .ok ())

def remove (store : PendingAuthStore α β) (state : Text) :
    PendingAuthStore α β × Option (PendingAuth β) :=
  ({ store with pending := Rows.erase Prod.fst state store.pending },
    (store.pending.find? fun row => row.1 = state).map Prod.snd)

def invalidateSetup (store : PendingAuthStore α β) : PendingAuthStore α β :=
  { store with
    setupGeneration := store.setupGeneration + 1
    pending := store.pending.filter fun row => row.2.setup.isNone }

def clear (store : PendingAuthStore α β) : PendingAuthStore α β :=
  { store with pending := [], reservations := [], globalStarts := [], sourceStarts := fun _ => [] }

end PendingAuthStore

/-! ## Runs -/

inductive Op (α β : Type) where
  | reservePublic (reservationId : Text) (source : α) (now : ℤ)
  | commitPublic (reservationId state : Text) (pending : PendingAuth β)
  | cancelPublic (reservationId : Text)
  | insertSetup (state : Text) (pending : PendingAuth β) (now : ℤ)
  | remove (state : Text)
  | invalidateSetup
  | clear

/-- The time that an operation removes what is old by. -/
def Op.time : Op α β → Option ℤ
  | .reservePublic _ _ now | .insertSetup _ _ now => some now
  | .commitPublic _ _ pending => some pending.createdAt
  | _ => none

/-- A store with the starts that it admitted since it was cleared, the first one first, and the
latest time it was given. -/
structure Run (α β : Type) where
  store : PendingAuthStore α β
  starts : List (α × ℤ)
  latest : ℤ

variable [DecidableEq α]

def Op.apply (store : PendingAuthStore α β) : Op α β → PendingAuthStore α β
  | .reservePublic reservationId source now => (store.reservePublic reservationId source now).1
  | .commitPublic reservationId state pending => (store.commitPublic reservationId state pending).1
  | .cancelPublic reservationId => store.cancelPublic reservationId
  | .insertSetup state pending now => (store.insertSetup state pending now).1
  | .remove state => (store.remove state).1
  | .invalidateSetup => store.invalidateSetup
  | .clear => store.clear

/-- The starts after an operation. -/
def Op.starts (t : Run α β) : Op α β → List (α × ℤ)
  | .reservePublic reservationId source now =>
    match (t.store.reservePublic reservationId source now).2 with
    | .ok () => t.starts ++ [(source, now)]
    | .error _ => t.starts
  | .clear => []
  | _ => t.starts

def Run.step (t : Run α β) (op : Op α β) : Run α β :=
  ⟨op.apply t.store, op.starts t, (op.time.map (max t.latest)).getD t.latest⟩

/-- The run from a new store. -/
def after (generation : ℕ) (latest : ℤ) (ops : List (Op α β)) : Run α β :=
  ops.foldl Run.step ⟨.new generation, [], latest⟩

/-- A start is stamped at most `slack` before the latest time that the store was given. -/
def Run.OnTime (slack : ℤ) (t : Run α β) : Op α β → Prop
  | .reservePublic _ _ now => t.latest ≤ now + slack
  | _ => True

/-- Every operation of the run is on time. -/
def OnTime (slack : ℤ) : Run α β → List (Op α β) → Prop
  | _, [] => True
  | t, op :: ops => t.OnTime slack op ∧ OnTime slack (t.step op) ops

/-- The times of the starts. -/
def times (starts : List (α × ℤ)) : List ℤ := starts.map Prod.snd

/-- The times of the starts of a source. -/
def timesOf (source : α) (starts : List (α × ℤ)) : List ℤ :=
  times (starts.filter fun start => start.1 = source)

/-- The starts in the window of `reach` that ends with `last`. -/
def within (reach last : ℤ) (starts : List ℤ) : ℕ :=
  (starts.filter fun time => last - reach < time ∧ time ≤ last).length

/-! ## The capacity -/

section Capacity

variable {store : PendingAuthStore α β}

omit [DecidableEq α] in
theorem taken_cleanup_le (store : PendingAuthStore α β) (now : ℤ) :
    (store.cleanup now).taken ≤ store.taken :=
  Nat.add_le_add (List.length_filter_le _ _) (List.length_filter_le _ _)

theorem length_put_le {γ : Type} (row : Text × γ) (rows : List (Text × γ)) :
    (Rows.put Prod.fst row rows).length ≤ rows.length + 1 := by
  unfold Rows.put Rows.upsert
  split_ifs
  · rw [List.length_map]
    exact Nat.le_succ _
  · rw [List.length_append, List.length_singleton]

theorem length_erase_lt {γ : Type} {key : Text} {rows : List (Text × γ)}
    (h : key ∈ rows.map Prod.fst) : (Rows.erase Prod.fst key rows).length < rows.length := by
  obtain ⟨row, hrow, rfl⟩ := List.mem_map.mp h
  exact List.length_filter_lt_length_iff_exists.mpr ⟨row, hrow, by simp⟩

theorem taken_apply_le (h : store.taken ≤ maxPendingAuth) (op : Op α β) :
    (op.apply store).taken ≤ maxPendingAuth := by
  cases op with
  | reservePublic reservationId source now =>
    have hclean := taken_cleanup_le store now
    dsimp only [Op.apply, PendingAuthStore.reservePublic]
    split_ifs with hfull hglobal hsource
    · exact hclean.trans h
    · exact hclean.trans h
    · exact hclean.trans h
    · have hput := length_put_le (reservationId, now) (store.cleanup now).reservations
      show (store.cleanup now).pending.length + (Rows.put _ _ _).length ≤ _
      unfold PendingAuthStore.taken at hfull
      omega
  | commitPublic reservationId state pending =>
    have hclean := taken_cleanup_le store pending.createdAt
    dsimp only [Op.apply, PendingAuthStore.commitPublic]
    split_ifs with hthere
    · have hput := length_put_le (state, pending) (store.cleanup pending.createdAt).pending
      have herase := length_erase_lt hthere
      show (Rows.put _ _ _).length + (Rows.erase _ _ _).length ≤ _
      unfold PendingAuthStore.taken at hclean h
      omega
    · exact hclean.trans h
  | cancelPublic reservationId =>
    have herase : (Rows.erase Prod.fst reservationId store.reservations).length ≤ _ :=
      (Rows.erase_sublist reservationId store.reservations).length_le
    show store.pending.length + (Rows.erase _ _ _).length ≤ _
    unfold PendingAuthStore.taken at h
    omega
  | insertSetup state pending now =>
    have hclean := taken_cleanup_le store now
    dsimp only [Op.apply, PendingAuthStore.insertSetup]
    split_ifs with hfull
    · exact hclean.trans h
    · have hput := length_put_le (state, pending) (store.cleanup now).pending
      show (Rows.put _ _ _).length + (store.cleanup now).reservations.length ≤ _
      unfold PendingAuthStore.taken at hfull
      omega
  | remove state =>
    have herase : (Rows.erase Prod.fst state store.pending).length ≤ _ :=
      (Rows.erase_sublist state store.pending).length_le
    show (Rows.erase _ _ _).length + store.reservations.length ≤ _
    unfold PendingAuthStore.taken at h
    omega
  | invalidateSetup =>
    have hfilter := List.length_filter_le (fun row => row.2.setup.isNone) store.pending
    show (store.pending.filter _).length + store.reservations.length ≤ _
    unfold PendingAuthStore.taken at h
    omega
  | clear => exact Nat.zero_le _

end Capacity

/-! ## The limits -/

/-- The queues are the starts but for what is older than a minute, and each start found room. -/
structure Run.Kept (slack : ℤ) (t : Run α β) : Prop where
  global : RateWindow.Recalls (t.latest - oidcStartRateWindowSecs) (times t.starts)
    t.store.globalStarts
  source : ∀ source, RateWindow.Recalls (t.latest - oidcStartRateWindowSecs)
    (timesOf source t.starts) (t.store.sourceStarts source)
  globalLimited : RateWindow.Limited maxGlobalOidcStartsPerWindow
    (oidcStartRateWindowSecs - slack) (times t.starts)
  sourceLimited : ∀ source, RateWindow.Limited maxSourceOidcStartsPerWindow
    (oidcStartRateWindowSecs - slack) (timesOf source t.starts)

theorem kept_new (slack : ℤ) (generation : ℕ) (latest : ℤ) :
    (⟨.new generation, [], latest⟩ : Run α β).Kept slack where
  global := RateWindow.recalls_nil _
  source _ := RateWindow.recalls_nil _
  globalLimited := RateWindow.limited_nil _ _
  sourceLimited _ := RateWindow.limited_nil _ _

/-- Pruning by a time leaves the queues those of the starts. -/
theorem Run.Kept.cleanup {slack : ℤ} {t : Run α β} (h : t.Kept slack) (now : ℤ) :
    (⟨t.store.cleanup now, t.starts, max t.latest now⟩ : Run α β).Kept slack where
  global := by
    have hprune := h.global.prune (now - oidcStartRateWindowSecs)
    rwa [max_sub_sub_right] at hprune
  source source := by
    have hprune := (h.source source).prune (now - oidcStartRateWindowSecs)
    rwa [max_sub_sub_right] at hprune
  globalLimited := h.globalLimited
  sourceLimited := h.sourceLimited

/-- What does not touch the queues keeps them. -/
theorem Run.Kept.of_queues {slack : ℤ} {t : Run α β} (h : t.Kept slack)
    {store : PendingAuthStore α β} (hglobal : store.globalStarts = t.store.globalStarts)
    (hsource : store.sourceStarts = t.store.sourceStarts) :
    (⟨store, t.starts, t.latest⟩ : Run α β).Kept slack where
  global := by
    show RateWindow.Recalls _ _ store.globalStarts
    rw [hglobal]
    exact h.global
  source source := by
    show RateWindow.Recalls _ _ (store.sourceStarts source)
    rw [hsource]
    exact h.source source
  globalLimited := h.globalLimited
  sourceLimited := h.sourceLimited

theorem timesOf_append (source : α) (starts : List (α × ℤ)) (start : α × ℤ) :
    timesOf source (starts ++ [start]) =
      timesOf source starts ++ if start.1 = source then [start.2] else [] := by
  unfold timesOf times
  rw [List.filter_append, List.map_append]
  by_cases h : start.1 = source <;> simp [h]

/-- A start into queues that have room. -/
theorem Run.Kept.admit {slack : ℤ} {t : Run α β} (h : t.Kept slack) {source : α} {now : ℤ}
    (hlatest : t.latest ≤ now + slack)
    (hglobal : t.store.globalStarts.length < maxGlobalOidcStartsPerWindow)
    (hsource : (t.store.sourceStarts source).length < maxSourceOidcStartsPerWindow)
    {store : PendingAuthStore α β} (hqueue : store.globalStarts = t.store.globalStarts ++ [now])
    (hqueues : store.sourceStarts = PendingAuthStore.push t.store.sourceStarts source now) :
    (⟨store, t.starts ++ [(source, now)], t.latest⟩ : Run α β).Kept slack := by
  have htimes : times (t.starts ++ [(source, now)]) = times t.starts ++ [now] := List.map_append
  have hreach : t.latest - oidcStartRateWindowSecs ≤ now - (oidcStartRateWindowSecs - slack) := by
    omega
  refine
    { global := ?_
      source := fun other => ?_
      globalLimited := ?_
      sourceLimited := fun other => ?_ }
  · show RateWindow.Recalls _ _ store.globalStarts
    rw [htimes, hqueue]
    exact h.global.push now
  · show RateWindow.Recalls _ _ (store.sourceStarts other)
    rw [timesOf_append, hqueues]
    unfold PendingAuthStore.push
    by_cases hsame : source = other
    · rw [if_pos hsame, if_pos hsame.symm]
      exact (h.source other).push now
    · rw [if_neg hsame, if_neg fun heq => hsame heq.symm, List.append_nil]
      exact h.source other
  · show RateWindow.Limited _ _ (times (t.starts ++ [(source, now)]))
    rw [htimes]
    exact h.globalLimited.push h.global hreach hglobal
  · show RateWindow.Limited _ _ (timesOf other (t.starts ++ [(source, now)]))
    rw [timesOf_append]
    by_cases hsame : source = other
    · subst hsame
      rw [if_pos rfl]
      exact (h.sourceLimited source).push (h.source source) hreach hsource
    · rw [if_neg hsame, List.append_nil]
      exact h.sourceLimited other

theorem Run.Kept.step {slack : ℤ} {t : Run α β} (h : t.Kept slack) {op : Op α β}
    (hontime : t.OnTime slack op) (hslack : 0 ≤ slack) : (t.step op).Kept slack := by
  cases op with
  | reservePublic reservationId source now =>
    have hclean := h.cleanup now
    have hlatest : max t.latest now ≤ now + slack := max_le hontime (by omega)
    dsimp only [Run.step, Op.apply, Op.starts, Op.time, Option.map_some, Option.getD_some,
      PendingAuthStore.reservePublic]
    split_ifs with hfull hglobal hsource
    · exact hclean
    · exact hclean
    · exact hclean
    · exact hclean.admit hlatest (Nat.not_le.mp hglobal) (Nat.not_le.mp hsource) rfl rfl
  | commitPublic reservationId state pending =>
    have hclean := h.cleanup pending.createdAt
    dsimp only [Run.step, Op.apply, Op.starts, Op.time, Option.map_some, Option.getD_some,
      PendingAuthStore.commitPublic]
    split_ifs
    · exact hclean.of_queues rfl rfl
    · exact hclean
  | cancelPublic reservationId => exact h.of_queues rfl rfl
  | insertSetup state pending now =>
    have hclean := h.cleanup now
    dsimp only [Run.step, Op.apply, Op.starts, Op.time, Option.map_some, Option.getD_some,
      PendingAuthStore.insertSetup]
    split_ifs
    · exact hclean
    · exact hclean.of_queues rfl rfl
  | remove state => exact h.of_queues rfl rfl
  | invalidateSetup => exact h.of_queues rfl rfl
  | clear =>
    exact
      { global := RateWindow.recalls_nil _
        source := fun _ => RateWindow.recalls_nil _
        globalLimited := RateWindow.limited_nil _ _
        sourceLimited := fun _ => RateWindow.limited_nil _ _ }

theorem kept_run {slack : ℤ} (hslack : 0 ≤ slack) {ops : List (Op α β)} {t : Run α β}
    (h : t.Kept slack) (hontime : OnTime slack t ops) : (ops.foldl Run.step t).Kept slack := by
  induction ops generalizing t with
  | nil => exact h
  | cons op ops ih => exact ih (h.step hontime.1 hslack) hontime.2

theorem taken_run {ops : List (Op α β)} {t : Run α β} (h : t.store.taken ≤ maxPendingAuth) :
    (ops.foldl Run.step t).store.taken ≤ maxPendingAuth := by
  induction ops generalizing t with
  | nil => exact h
  | cons op ops ih => exact ih (taken_apply_le h op)

/-- A store never holds more sign-ins and reservations than its capacity. Where no start is stamped
more than `slack` seconds before the latest time that the store was given, no window that is
`slack` short of a minute holds more than 120 starts, or more than 20 of one source. -/
theorem starts_within_limits (slack : ℤ) (hslack : 0 ≤ slack) (generation : ℕ) (latest : ℤ)
    (ops : List (Op α β)) :
    (after generation latest ops).store.taken ≤ maxPendingAuth ∧
      (OnTime slack (after generation latest ([] : List (Op α β))) ops → ∀ last,
        within (oidcStartRateWindowSecs - slack) last (times (after generation latest ops).starts) ≤
            maxGlobalOidcStartsPerWindow ∧
          ∀ source, within (oidcStartRateWindowSecs - slack) last
            (timesOf source (after generation latest ops).starts) ≤
              maxSourceOidcStartsPerWindow) := by
  refine ⟨taken_run (Nat.zero_le _), fun hontime last => ?_⟩
  have hkept := kept_run hslack (kept_new slack generation latest) hontime
  exact ⟨hkept.globalLimited.window last, fun source => (hkept.sourceLimited source).window last⟩

/-- Two sources start three sign-ins, the last of them stamped a second late. -/
def threeStarts : List (Op ℕ Unit) :=
  [.reservePublic ['a'] 1 100, .reservePublic ['b'] 2 130, .reservePublic ['c'] 1 129]

theorem starts_within_limits_three :
    within 59 130 (times (after 0 0 threeStarts).starts) = 3 ∧
      within 59 130 (times (after 0 0 threeStarts).starts) ≤ maxGlobalOidcStartsPerWindow ∧
      within 59 130 (timesOf 1 (after 0 0 threeStarts).starts) ≤ maxSourceOidcStartsPerWindow := by
  have hontime : OnTime 1 (after 0 0 ([] : List (Op ℕ Unit))) threeStarts := by
    refine ⟨?_, ?_, ?_, trivial⟩
    · show (0 : ℤ) ≤ 100 + 1
      decide
    · show max (0 : ℤ) 100 ≤ 130 + 1
      decide
    · show max (max (0 : ℤ) 100) 130 ≤ 129 + 1
      decide
  have hlimits := (starts_within_limits 1 (by decide) 0 0 threeStarts).2 hontime 130
  exact ⟨by decide, hlimits.1, hlimits.2 1⟩

end PendingAuths

end OoreBuild
