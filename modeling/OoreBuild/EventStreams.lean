import OoreBuild.LiveEvents

/-!
# Event streams

A client of the live events holds a stream. The hub admits a bounded number of streams, for each
user and in all. A stream checks every few seconds that its credential is still good, and sends the
events of a project when the user may read it; what it found out about a project it keeps until the
next check.
-/

namespace OoreBuild

namespace EventStreams

open Text LiveEvents

/-! ## Admission -/

def maxStreamsPerUser : ℕ := 8

def maxStreamsGlobal : ℕ := 256

structure ActiveStreams where
  byUser : Text → Option ℕ
  total : ℕ

def ActiveStreams.new : ActiveStreams := ⟨fun _ => none, 0⟩

def ActiveStreams.acquire (active : ActiveStreams) (userId : Text) : Option ActiveStreams :=
  if maxStreamsGlobal ≤ active.total ∨ maxStreamsPerUser ≤ (active.byUser userId).getD 0 then none
  else some
    { total := active.total + 1
      byUser := Function.update active.byUser userId (some ((active.byUser userId).getD 0 + 1)) }

/-- The end of a stream. -/
def ActiveStreams.release (active : ActiveStreams) (userId : Text) : ActiveStreams where
  total := active.total - 1
  byUser :=
    match active.byUser userId with
    | none => active.byUser
    | some count =>
      Function.update active.byUser userId (if count - 1 = 0 then none else some (count - 1))

/-- The hub with the users of the streams that are open. -/
structure Hub where
  active : ActiveStreams
  streams : List Text

inductive HubOp where
  | acquire (userId : Text)
  | drop (i : ℕ)

def Hub.acquire (hub : Hub) (userId : Text) : Hub :=
  match hub.active.acquire userId with
  | some active => ⟨active, userId :: hub.streams⟩
  | none => hub

def Hub.drop (hub : Hub) (i : ℕ) : Hub :=
  match hub.streams[i]? with
  | some userId => ⟨hub.active.release userId, hub.streams.eraseIdx i⟩
  | none => hub

def Hub.step (hub : Hub) : HubOp → Hub
  | .acquire userId => hub.acquire userId
  | .drop i => hub.drop i

def hubAfter (ops : List HubOp) : Hub := ops.foldl Hub.step ⟨.new, []⟩

/-- The counts are those of the open streams. -/
structure Hub.Counted (hub : Hub) : Prop where
  total : hub.active.total = hub.streams.length
  byUser : ∀ userId, hub.active.byUser userId =
    if hub.streams.count userId = 0 then none else some (hub.streams.count userId)
  totalLe : hub.streams.length ≤ maxStreamsGlobal
  countLe : ∀ userId, hub.streams.count userId ≤ maxStreamsPerUser

theorem Hub.Counted.getD {hub : Hub} (h : hub.Counted) (userId : Text) :
    (hub.active.byUser userId).getD 0 = hub.streams.count userId := by
  rw [h.byUser]
  split_ifs with hzero
  · exact hzero.symm
  · rfl

theorem Hub.Counted.acquire {hub : Hub} (h : hub.Counted) (userId : Text) :
    (hub.acquire userId).Counted := by
  unfold Hub.acquire ActiveStreams.acquire
  rw [h.getD, h.total]
  by_cases hfull : maxStreamsGlobal ≤ hub.streams.length ∨
      maxStreamsPerUser ≤ hub.streams.count userId
  · rw [if_pos hfull]
    exact h
  · rw [if_neg hfull]
    rw [not_or, not_le, not_le] at hfull
    refine ⟨rfl, fun other => ?_, hfull.1, fun other => ?_⟩
    · show Function.update _ _ _ _ = _
      by_cases hother : other = userId
      · subst hother
        rw [Function.update_self, List.count_cons_self, if_neg (Nat.succ_ne_zero _)]
      · rw [Function.update_of_ne hother, List.count_cons_of_ne (Ne.symm hother)]
        exact h.byUser other
    · show List.count other (userId :: hub.streams) ≤ _
      by_cases hother : other = userId
      · subst hother
        rw [List.count_cons_self]
        exact hfull.2
      · rw [List.count_cons_of_ne (Ne.symm hother)]
        exact h.countLe other

/-- The counts without a stream. -/
theorem Hub.Counted.release {hub : Hub} (h : hub.Counted) {userId : Text} {rest : List Text}
    (hperm : (userId :: rest).Perm hub.streams) :
    Hub.Counted ⟨hub.active.release userId, rest⟩ := by
  have hcount : ∀ other, hub.streams.count other = (userId :: rest).count other := fun other =>
    (hperm.count_eq other).symm
  have hlength := hperm.length_eq
  rw [List.length_cons] at hlength
  have htotal := h.totalLe
  refine ⟨?_, fun other => ?_, ?_, fun other => ?_⟩
  · show hub.active.total - 1 = rest.length
    rw [h.total]
    omega
  · have hself := h.byUser userId
    rw [hcount, List.count_cons_self, if_neg (Nat.succ_ne_zero _)] at hself
    dsimp only [ActiveStreams.release]
    rw [hself]
    dsimp only
    rw [Nat.add_sub_cancel]
    by_cases hother : other = userId
    · subst hother
      exact Function.update_self _ _ _
    · rw [Function.update_of_ne hother, h.byUser, hcount,
        List.count_cons_of_ne (Ne.symm hother)]
  · show rest.length ≤ _
    omega
  · have hle := h.countLe other
    rw [hcount] at hle
    exact (List.count_le_count_cons).trans hle

theorem Hub.Counted.drop {hub : Hub} (h : hub.Counted) (i : ℕ) : (hub.drop i).Counted := by
  unfold Hub.drop
  cases hi : hub.streams[i]? with
  | none => exact h
  | some userId =>
    obtain ⟨hlt, hget⟩ := List.getElem?_eq_some_iff.mp hi
    exact h.release (hget ▸ List.getElem_cons_eraseIdx_perm hlt)

/-- However streams open and end, the hub counts the open ones, and there are never more of them
than the limits allow; a further stream is admitted exactly below the limits. -/
theorem streams_are_bounded (ops : List HubOp) : (hubAfter ops).Counted ∧
    ∀ userId, ((hubAfter ops).active.acquire userId).isSome ↔
      (hubAfter ops).streams.length < maxStreamsGlobal ∧
        (hubAfter ops).streams.count userId < maxStreamsPerUser := by
  have hcounted : (hubAfter ops).Counted := by
    unfold hubAfter
    have hnew : Hub.Counted ⟨.new, []⟩ := ⟨rfl, fun _ => rfl, Nat.zero_le _, fun _ => Nat.zero_le _⟩
    generalize (⟨.new, []⟩ : Hub) = hub at hnew
    induction ops generalizing hub with
    | nil => exact hnew
    | cons op ops ih =>
      cases op with
      | acquire userId => exact ih _ (hnew.acquire userId)
      | drop i => exact ih _ (hnew.drop i)
  refine ⟨hcounted, fun userId => ?_⟩
  unfold ActiveStreams.acquire
  rw [hcounted.getD, hcounted.total]
  split_ifs with hfull
  · exact iff_of_false nofun (by omega)
  · exact iff_of_true rfl (by omega)

/-! ## Streams -/

inductive Frame where
  | build (row : BuildRow)
  | release (row : ReleaseRow)
  | runner (row : RunnerRow) (removed : Bool)
  | resync (reason : Text)
  | done

/-- A stream, after its first frame. -/
structure Stream where
  filter : Option Text
  /-- What was found out about projects since the last check. -/
  readable : Text → Option Bool
  runnersVisible : Bool
  ended : Bool

/-- What a stream waits for. `access` is what a look at the roles gives at that time, `none` where
it fails. -/
inductive Input where
  /-- A check of the credential: whether it is still good for the user, the access to the project
  of the filter and whether the user may read runners. -/
  | check (alive : Bool) (access : Option Bool) (runners : Bool)
  | receive (event : LiveEvent) (access : Option Bool)
  | lagged
  | closed

/-- What is kept of a project, or else what a look at the roles gives; a failure is not kept. -/
def Stream.canRead (s : Stream) (projectId : Text) (access : Option Bool) : Stream × Option Bool :=
  match s.readable projectId with
  | some readable => (s, some readable)
  | none =>
    match access with
    | none => (s, none)
    | some readable =>
      ({ s with readable := Function.update s.readable projectId (some readable) }, some readable)

/-- The frame of a change in a project; a resync when the access could not be checked. -/
def Stream.projectEvent (s : Stream) (projectId : Text) (access : Option Bool) (frame : Frame) :
    Stream × List Frame :=
  if s.filter.all (· = projectId) then
    match s.canRead projectId access with
    | (s, some true) => (s, [frame])
    | (s, some false) => (s, [])
    | (s, none) => (s, [.resync "access_check_failed"])
  else (s, [])

def Stream.check (s : Stream) (alive : Bool) (access : Option Bool) (runners : Bool) :
    Stream × List Frame :=
  if alive = false then ({ s with ended := true }, [.done])
  else
    let s := { s with readable := fun _ => none }
    match s.filter with
    | none => ({ s with runnersVisible := runners }, [])
    | some projectId =>
      match s.canRead projectId access with
      | (s, some false) => ({ s with ended := true }, [.done])
      | (s, _) => ({ s with runnersVisible := runners }, [])

def Stream.step (s : Stream) (input : Input) : Stream × List Frame :=
  if s.ended then (s, [])
  else
    match input with
    | .check alive access runners => s.check alive access runners
    | .receive (.build row) access => s.projectEvent row.projectId access (.build row)
    | .receive (.release row) access => s.projectEvent row.projectId access (.release row)
    | .receive (.runner row removed) _ =>
      (s, if s.runnersVisible then [.runner row removed] else [])
    | .receive (.resync reason) _ => (s, [.resync reason])
    | .lagged => (s, [.resync "lagged"])
    | .closed => ({ s with ended := true }, [])

def Stream.new (filter : Option Text) (runnersVisible : Bool) : Stream :=
  ⟨filter, fun _ => none, runnersVisible, false⟩

def Stream.after (s : Stream) (inputs : List Input) : Stream :=
  inputs.foldl (fun s input => (s.step input).1) s

/-! ## What a stream sends -/

def projectOf : LiveEvent → Option Text
  | .build row => some row.projectId
  | .release row => some row.projectId
  | _ => none

def frameOf : LiveEvent → Frame
  | .build row => .build row
  | .release row => .release row
  | .runner row removed => .runner row removed
  | .resync reason => .resync reason

def Input.isCheck : Input → Bool
  | .check .. => true
  | _ => false

/-- The roles gave this answer for the project. -/
def Input.Answers (filter : Option Text) (projectId : Text) (readable : Bool) : Input → Prop
  | .check alive access _ => alive = true ∧ filter = some projectId ∧ access = some readable
  | .receive event access => projectOf event = some projectId ∧ access = some readable
  | _ => False

/-- The roles gave this answer for the project, since the last check. -/
def Answered (filter : Option Text) (inputs : List Input) (projectId : Text) (readable : Bool) :
    Prop :=
  ∃ before input later, inputs = before ++ input :: later ∧
    input.Answers filter projectId readable ∧ ∀ other ∈ later, other.isCheck = false

/-- The input ends a stream: its end, a credential that is no longer good, or a filter on a project
that the user may no longer read. -/
def Input.Ends (filter : Option Text) : Input → Prop
  | .closed => True
  | .check alive access _ => alive = false ∨ filter.isSome ∧ access = some false
  | _ => False

section Stream

variable {s : Stream} {inputs : List Input} {projectId : Text} {readable : Bool} {input : Input}

theorem Answered.append {filter : Option Text} (h : Answered filter inputs projectId readable)
    (hinput : input.isCheck = false) : Answered filter (inputs ++ [input]) projectId readable := by
  obtain ⟨before, first, later, rfl, hfirst, hlater⟩ := h
  refine ⟨before, first, later ++ [input], by simp, hfirst, fun other hother => ?_⟩
  rcases List.mem_append.mp hother with hother | hother
  · exact hlater other hother
  · obtain rfl := List.mem_singleton.mp hother
    exact hinput

theorem answered_self {filter : Option Text} (inputs : List Input)
    (h : input.Answers filter projectId readable) :
    Answered filter (inputs ++ [input]) projectId readable :=
  ⟨inputs, input, [], rfl, h, nofun⟩

/-- What a stream keeps of the projects was answered since the last check. -/
structure Kept (filter : Option Text) (inputs : List Input) (s : Stream) : Prop where
  same : s.filter = filter
  answered : s.ended = false → ∀ projectId readable, s.readable projectId = some readable →
    Answered filter inputs projectId readable
  ended : s.ended = true ↔ ∃ input ∈ inputs, input.Ends filter

theorem canRead_cases (s : Stream) (projectId : Text) (access : Option Bool) :
    (∃ readable, s.readable projectId = some readable ∧
        s.canRead projectId access = (s, some readable)) ∨
      (access = none ∧ s.canRead projectId access = (s, none)) ∨
        ∃ readable, access = some readable ∧ s.canRead projectId access =
          ({ s with readable := Function.update s.readable projectId (some readable) },
            some readable) := by
  unfold Stream.canRead
  cases hkept : s.readable projectId with
  | some kept => exact Or.inl ⟨kept, rfl, rfl⟩
  | none =>
    cases access with
    | none => exact Or.inr (Or.inl ⟨rfl, rfl⟩)
    | some found => exact Or.inr (Or.inr ⟨found, rfl, rfl⟩)

theorem Kept.append {filter : Option Text} (h : Kept filter inputs s)
    (hcheck : input.isCheck = false) (hends : ¬ input.Ends filter) :
    Kept filter (inputs ++ [input]) s where
  same := h.same
  answered hopen projectId readable hkept :=
    (h.answered hopen projectId readable hkept).append hcheck
  ended := by
    rw [h.ended]
    constructor
    · rintro ⟨other, hother, hended⟩
      exact ⟨other, List.mem_append_left _ hother, hended⟩
    · rintro ⟨other, hother, hended⟩
      rcases List.mem_append.mp hother with hother | hother
      · exact ⟨other, hother, hended⟩
      · obtain rfl := List.mem_singleton.mp hother
        exact absurd hended hends

theorem Kept.learn {filter : Option Text} (h : Kept filter inputs s)
    (hanswer : Answered filter inputs projectId readable) :
    Kept filter inputs
      { s with readable := Function.update s.readable projectId (some readable) } where
  same := h.same
  answered hopen other found hfound := by
    change Function.update s.readable projectId (some readable) other = some found at hfound
    by_cases hother : other = projectId
    · subst hother
      rw [Function.update_self] at hfound
      obtain rfl := Option.some.inj hfound
      exact hanswer
    · rw [Function.update_of_ne hother] at hfound
      exact h.answered hopen other found hfound
  ended := h.ended

/-- The frames for an event of a project, and what is kept. -/
theorem projectEvent_kept {filter : Option Text} (h : Kept filter inputs s)
    (hopen : s.ended = false) {event : LiveEvent}
    {access : Option Bool} {frame : Frame} (hproject : projectOf event = some projectId) :
    Kept filter (inputs ++ [.receive event access]) (s.projectEvent projectId access frame).1 ∧
      (((s.projectEvent projectId access frame).2 = [frame] ∧
          Answered filter (inputs ++ [.receive event access]) projectId true) ∨
        ((s.projectEvent projectId access frame).2 = [] ∧
          (filter.all (· = projectId) = false ∨
            Answered filter (inputs ++ [.receive event access]) projectId false)) ∨
        (s.projectEvent projectId access frame).2 = [.resync "access_check_failed"] ∧
          access = none) := by
  have hkept : Kept filter (inputs ++ [.receive event access]) s := h.append rfl not_false
  unfold Stream.projectEvent
  rw [h.same]
  by_cases hfilter : filter.all (· = projectId) = true
  · rw [if_pos hfilter]
    rcases canRead_cases s projectId access with ⟨readable, hreadable, heq⟩ | ⟨rfl, heq⟩ |
      ⟨readable, rfl, heq⟩
    · have hanswer := hkept.answered hopen projectId readable hreadable
      rw [heq]
      cases readable with
      | true => exact ⟨hkept, Or.inl ⟨rfl, hanswer⟩⟩
      | false => exact ⟨hkept, Or.inr (Or.inl ⟨rfl, Or.inr hanswer⟩)⟩
    · rw [heq]
      exact ⟨hkept, Or.inr (Or.inr ⟨rfl, rfl⟩)⟩
    · have hanswer : Answered filter (inputs ++ [.receive event (some readable)]) projectId
          readable := answered_self inputs ⟨hproject, rfl⟩
      rw [heq]
      cases readable with
      | true => exact ⟨hkept.learn hanswer, Or.inl ⟨rfl, hanswer⟩⟩
      | false => exact ⟨hkept.learn hanswer, Or.inr (Or.inl ⟨rfl, Or.inr hanswer⟩)⟩
  · rw [if_neg hfilter]
    exact ⟨hkept, Or.inr (Or.inl ⟨rfl, Or.inl (Bool.eq_false_iff.mpr hfilter)⟩)⟩

/-- A stream that an input ends. -/
theorem Kept.close {filter : Option Text} (h : Kept filter inputs s) (hends : input.Ends filter)
    (readable : Text → Option Bool) :
    Kept filter (inputs ++ [input]) { s with ended := true, readable := readable } where
  same := h.same
  answered := nofun
  ended := iff_of_true rfl ⟨input, List.mem_append_right _ (List.mem_singleton_self _), hends⟩

theorem Kept.check {filter : Option Text} (h : Kept filter inputs s) (hopen : s.ended = false)
    (alive : Bool) (access : Option Bool) (runners : Bool) :
    Kept filter (inputs ++ [.check alive access runners]) (s.check alive access runners).1 := by
  have hnever : ∀ input ∈ inputs, ¬ input.Ends filter := fun input hinput hends => by
    rw [h.ended.mpr ⟨input, hinput, hends⟩] at hopen
    cases hopen
  have hstays : ¬ (Input.check alive access runners).Ends filter → ∀ readable,
      (∀ projectId found, readable projectId = some found →
        Answered filter (inputs ++ [.check alive access runners]) projectId found) →
      Kept filter (inputs ++ [.check alive access runners])
        { s with readable := readable, runnersVisible := runners } := fun hends readable hanswers =>
    { same := h.same
      answered := fun _ => hanswers
      ended := by
        refine iff_of_false (by rw [hopen]; nofun) ?_
        rintro ⟨input, hinput, hended⟩
        rcases List.mem_append.mp hinput with hinput | hinput
        · exact hnever input hinput hended
        · obtain rfl := List.mem_singleton.mp hinput
          exact hends hended }
  obtain ⟨filter', readable, visible, ended⟩ := s
  obtain rfl : filter' = filter := h.same
  cases alive with
  | false =>
    have hends : (Input.check false access runners).Ends filter' := Or.inl rfl
    exact h.close hends readable
  | true =>
    cases filter' with
    | none =>
      refine hstays ?_ (fun _ => none) nofun
      rintro (hdead | ⟨hsome, _⟩)
      · cases hdead
      · cases hsome
    | some projectId =>
      cases access with
      | none =>
        refine hstays ?_ (fun _ => none) nofun
        rintro (hdead | ⟨_, hrefused⟩)
        · cases hdead
        · cases hrefused
      | some found =>
        cases found with
        | false =>
          have hends : (Input.check true (some false) runners).Ends (some projectId) :=
            Or.inr ⟨rfl, rfl⟩
          exact h.close hends _
        | true =>
          refine hstays ?_ (Function.update (fun _ => none) projectId (some true))
            fun other found hfound => ?_
          · rintro (hdead | ⟨_, hrefused⟩)
            · cases hdead
            · cases hrefused
          · by_cases hother : other = projectId
            · subst hother
              rw [Function.update_self] at hfound
              obtain rfl := Option.some.inj hfound
              exact answered_self inputs ⟨rfl, rfl, rfl⟩
            · rw [Function.update_of_ne hother] at hfound
              cases hfound

theorem Kept.step {filter : Option Text} (h : Kept filter inputs s) (input : Input) :
    Kept filter (inputs ++ [input]) (s.step input).1 := by
  unfold Stream.step
  by_cases hended : s.ended = true
  · rw [if_pos hended]
    obtain ⟨first, hfirst, hends⟩ := h.ended.mp hended
    exact
      { same := h.same
        answered := fun hopen => by rw [hended] at hopen; cases hopen
        ended := iff_of_true hended ⟨first, List.mem_append_left _ hfirst, hends⟩ }
  · rw [if_neg hended]
    have hopen : s.ended = false := Bool.eq_false_iff.mpr hended
    cases input with
    | check alive access runners => exact h.check hopen alive access runners
    | receive event access =>
      cases event with
      | build row => exact (projectEvent_kept h hopen rfl).1
      | release row => exact (projectEvent_kept h hopen rfl).1
      | runner row removed => exact h.append rfl not_false
      | resync reason => exact h.append rfl not_false
    | lagged => exact h.append rfl not_false
    | closed =>
      have hends : Input.closed.Ends filter := trivial
      exact h.close hends s.readable

theorem kept_after (filter : Option Text) (runnersVisible : Bool) (inputs : List Input) :
    Kept filter inputs ((Stream.new filter runnersVisible).after inputs) := by
  induction inputs using List.reverseRecOn with
  | nil =>
    exact
      { same := rfl
        answered := nofun
        ended := iff_of_false nofun nofun }
  | append_singleton inputs input ih =>
    unfold Stream.after at ih ⊢
    rw [List.foldl_append]
    exact ih.step input

/-- What a stream sends for an event of a project, after any inputs. It sends the event only when
the roles let the user read the project at some time since the last check of the credential. It
sends nothing only after its end, for a project outside its filter or when the roles refused the
project since the last check; a look at the roles that fails makes it send a resync instead. -/
theorem frames_follow_the_roles (filter : Option Text) (runnersVisible : Bool)
    (inputs : List Input) {event : LiveEvent} {projectId : Text}
    (hproject : projectOf event = some projectId) (access : Option Bool) {frames : List Frame}
    (hframes : (((Stream.new filter runnersVisible).after inputs).step
      (.receive event access)).2 = frames) :
    (frames = [frameOf event] ∧
        Answered filter (inputs ++ [.receive event access]) projectId true ∧
          ∀ input ∈ inputs, ¬ input.Ends filter) ∨
      (frames = [] ∧ ((∃ input ∈ inputs, input.Ends filter) ∨
        filter.all (· = projectId) = false ∨
          Answered filter (inputs ++ [.receive event access]) projectId false)) ∨
      frames = [.resync "access_check_failed"] ∧ access = none := by
  have hkept := kept_after filter runnersVisible inputs
  generalize (Stream.new filter runnersVisible).after inputs = s at hkept hframes
  subst hframes
  unfold Stream.step
  by_cases hended : s.ended = true
  · rw [if_pos hended]
    exact Or.inr (Or.inl ⟨rfl, Or.inl (hkept.ended.mp hended)⟩)
  · rw [if_neg hended]
    have hopen : s.ended = false := Bool.eq_false_iff.mpr hended
    have hnever : ∀ input ∈ inputs, ¬ input.Ends filter := fun input hinput hends =>
      hended (hkept.ended.mpr ⟨input, hinput, hends⟩)
    have hsent : ∀ frame, frameOf event = frame →
        ((s.projectEvent projectId access frame).2 = [frameOf event] ∧
          Answered filter (inputs ++ [.receive event access]) projectId true ∧
            ∀ input ∈ inputs, ¬ input.Ends filter) ∨
        ((s.projectEvent projectId access frame).2 = [] ∧
          ((∃ input ∈ inputs, input.Ends filter) ∨ filter.all (· = projectId) = false ∨
            Answered filter (inputs ++ [.receive event access]) projectId false)) ∨
        (s.projectEvent projectId access frame).2 = [.resync "access_check_failed"] ∧
          access = none := by
      rintro frame rfl
      rcases (projectEvent_kept hkept hopen hproject).2 with ⟨heq, hanswer⟩ | ⟨heq, hnot⟩ | hfailed
      · exact Or.inl ⟨heq, hanswer, hnever⟩
      · exact Or.inr (Or.inl ⟨heq, Or.inr hnot⟩)
      · exact Or.inr (Or.inr hfailed)
    cases event with
    | build row =>
      obtain rfl := Option.some.inj hproject
      exact hsent _ rfl
    | release row =>
      obtain rfl := Option.some.inj hproject
      exact hsent _ rfl
    | runner | resync => cases hproject

/-- A stream that has sent a release of the project. -/
def earlierInputs : List Input :=
  [.check true none true,
    .receive (.release ⟨"s1", "p1", "b1", "rolling", .finite 0, 100⟩) (some true)]

theorem frames_follow_the_roles_earlier : Answered none (earlierInputs ++
    [.receive (.build ⟨"b1", "p1", 1, "running", 101⟩) none]) "p1" true := by
  have hproject : projectOf (.build ⟨"b1", "p1", 1, "running", 101⟩) = some "p1" := rfl
  rcases frames_follow_the_roles none true earlierInputs hproject none rfl with
    ⟨_, hanswer, _⟩ | ⟨hnone, _⟩ | ⟨hresync, _⟩
  · exact hanswer
  · exact (List.cons_ne_nil _ _ hnone).elim
  · cases (List.cons.inj (show [Frame.build _] = [Frame.resync _] from hresync)).1

end Stream

end EventStreams

end OoreBuild
