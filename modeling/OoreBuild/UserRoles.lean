import OoreBuild.Lib.Interleave
import OoreBuild.Lib.Table
import OoreBuild.Lib.Text

/-!
# Who makes and unmakes admins

The requests that invite a user, change a role, disable a user and enable one again. Each looks the
target's role up and then writes without a condition, so another request may come in between. That
only the owner may touch admins is checked in three of the four handlers: an invitation may name
the role admin, whoever sends it.
-/

namespace OoreBuild

namespace UserRoles

open Text Interleave

inductive Role where
  | owner
  | admin
  | developer
  | qaViewer
  deriving DecidableEq

inductive Status where
  | active
  | disabled
  | invited
  deriving DecidableEq

structure User where
  id : Text
  email : Text
  role : Role
  status : Status
  invitedBy : Option Text
  deriving DecidableEq

abbrev Users := Table User.id

/-- The session of a request. -/
structure Actor where
  userId : Text
  role : Role
  deriving DecidableEq

/-! ## Requests -/

/-- The policy's rows for users. -/
def usersPolicy : List (Role × Text) :=
  [(.owner, "read"), (.owner, "write"), (.owner, "invite"), (.owner, "delete"), (.owner, "enable"),
    (.admin, "read"), (.admin, "write"), (.admin, "invite"), (.admin, "delete"), (.admin, "enable")]

def checkPermission (actor : Actor) (action : Text) : Bool := (actor.role, action) ∈ usersPolicy

def requireOwner (actor : Actor) : Bool := actor.role = .owner

/-- The roles that a request may name. -/
def parseRole (role : Text) : Option Role :=
  if role = ("admin" : Text) then some .admin
  else if role = ("developer" : Text) then some .developer
  else if role = ("qa_viewer" : Text) then some .qaViewer
  else none

/-- What a request writes to its target. -/
inductive Change where
  | assign (role : Role)
  | disable
  | enable
  deriving DecidableEq

def Change.apply : Change → User → User
  | .assign role, user => { user with role }
  | .disable, user => { user with status := .disabled }
  | .enable, user => { user with status := .active }

theorem Change.id_apply (change : Change) (user : User) : (change.apply user).id = user.id := by
  cases change <;> rfl

inductive Request where
  | inviteUser (actor : Actor) (email role : Text)
  | updateUserRole (actor : Actor) (userId role : Text)
  | deleteUser (actor : Actor) (userId : Text)
  | reEnableUser (actor : Actor) (userId : Text)

/-- The next statement of a request. -/
inductive Point where
  /-- Count the users of an email. -/
  | count (actor : Actor) (email : Text) (role : Role)
  | insert (actor : Actor) (email : Text) (role : Role)
  /-- Look the target up. -/
  | lookup (actor : Actor) (userId : Text) (change : Change)
  | write (actor : Actor) (userId : Text) (change : Change)
  deriving DecidableEq

def Point.actor : Point → Actor
  | .count actor .. | .insert actor .. | .lookup actor .. | .write actor .. => actor

/-- How a statement ends; an insert draws a new id. -/
inductive Answer where
  | done (newId : Text)
  | failed

def isInvitable (email : Text) : Bool :=
  !(email.isEmpty || '@' ∉ email || 256 < byteLen email)

def inviteUser (actor : Actor) (email role : Text) : Option Point :=
  if checkPermission actor "invite" && isInvitable email then
    (parseRole role).map fun role => .count actor email role
  else none

def updateUserRole (actor : Actor) (userId role : Text) : Option Point :=
  if checkPermission actor "write" then
    (parseRole role).bind fun role =>
      if role = .admin && !requireOwner actor then none
      else some (.lookup actor userId (.assign role))
  else none

def deleteUser (actor : Actor) (userId : Text) : Option Point :=
  if checkPermission actor "delete" && actor.userId ≠ userId then
    some (.lookup actor userId .disable)
  else none

def reEnableUser (actor : Actor) (userId : Text) : Option Point :=
  if checkPermission actor "enable" && actor.userId ≠ userId then
    some (.lookup actor userId .enable)
  else none

def start : Request → Option Point
  | .inviteUser actor email role => inviteUser actor email role
  | .updateUserRole actor userId role => updateUserRole actor userId role
  | .deleteUser actor userId => deleteUser actor userId
  | .reEnableUser actor userId => reEnableUser actor userId

/-- Whether the request goes on after it looked its target up. -/
def mayChange (actor : Actor) (change : Change) (target : User) : Bool :=
  target.role ≠ .owner && (target.role ≠ .admin || requireOwner actor) &&
    (change ≠ .enable || target.status = .disabled)

/-- A statement that succeeds. An id or an email that is there makes the insert fail. -/
def statement (users : Users) (newId : Text) : Point → Users × Option Point
  | .count actor email role =>
    if users.rows.any fun user => user.email = email then (users, none)
    else (users, some (.insert actor email role))
  | .insert actor email role =>
    if users.rows.any fun user => user.email = email then (users, none)
    else if h : newId ∉ users.rows.map User.id then
      (users.insert ⟨newId, email, role, .invited, some actor.userId⟩ h, none)
    else (users, none)
  | .lookup actor userId change =>
    match users.find userId with
    | none => (users, none)
    | some target =>
      if mayChange actor change target then (users, some (.write actor userId change))
      else (users, none)
  | .write _ userId change => (users.modify userId change.apply change.id_apply, none)

/-- A statement that fails ends its request. -/
def advance (users : Users) (point : Point) : Answer → Users × Option Point
  | .failed => (users, none)
  | .done newId => statement users newId point

/-- The server: a request that is refused starts no call. -/
def server : Interleave Users Point Request Answer where
  enter users request := some (users, (start request).toList)
  advance users point answer := some (advance users point answer)
  drop users _ := users
  restart users := users

/-! ## What must hold -/

/-- A statement leaves the owner as it is, and the admins where it is not the owner's. -/
structure Leaves (actor : Actor) (users users' : Users) : Prop where
  owner : ∀ user, user.role = .owner → (user ∈ users'.rows ↔ user ∈ users.rows)
  admins : actor.role ≠ .owner →
    ∀ user, user.role = .admin → (user ∈ users'.rows ↔ user ∈ users.rows)

/-- What an event does to the users. -/
def KeepsAdmins (c c' : Config Users Point) : Event Request Answer → Prop
  | .advance i _ => ∀ point, c.calls[i]? = some point → Leaves point.actor c.shared c'.shared
  | _ => c'.shared = c.shared

/-- A request that is not the owner's and has looked the user up. -/
def Point.isPendingOn (userId : Text) : Point → Bool
  | .write actor target _ => target = userId && actor.role ≠ .owner
  | _ => false

/-- Only the owner invites admins, and no user becomes an admin while a request of someone else is
between its lookup of the user and its write. -/
def ownersOnly : Condition Users Point Request Answer where
  enter _ request := match request with
    | .inviteUser actor _ role => actor.role = .owner ∨ role ≠ ("admin" : Text)
    | _ => True
  enterBeside _ _ _ := True
  advance _ _ _ := True
  advanceBeside _ point _ other := match point with
    | .write _ userId change => change = .assign .admin → other.isPendingOn userId = false
    | _ => True

/-! ## The invariant -/

/-- What a call has checked. A change of a role is to none but the owner's to admin, and a target
that was looked up is still there and may be changed. -/
def Point.Checked (users : Users) : Point → Prop
  | .count actor _ role | .insert actor _ role =>
    role ≠ .owner ∧ (actor.role ≠ .owner → role ≠ .admin)
  | .lookup actor _ change => ∀ role, change = .assign role →
    role ≠ .owner ∧ (actor.role ≠ .owner → role ≠ .admin)
  | .write actor userId change =>
    (∀ role, change = .assign role → role ≠ .owner ∧ (actor.role ≠ .owner → role ≠ .admin)) ∧
      ∃ target, users.find userId = some target ∧ target.role ≠ .owner ∧
        (actor.role ≠ .owner → target.role ≠ .admin)

variable {users users' : Users} {actor : Actor} {point : Point} {answer : Answer}
  {next : Option Point}

theorem role_of_parseRole {text : Text} {role : Role} (h : parseRole text = some role) :
    role ≠ .owner ∧ (role = .admin → text = ("admin" : Text)) := by
  unfold parseRole at h
  split_ifs at h with hadmin
  · exact ⟨by rw [← Option.some.inj h]; decide, fun _ => hadmin⟩
  · exact ⟨by rw [← Option.some.inj h]; decide, by rw [← Option.some.inj h]; nofun⟩
  · exact ⟨by rw [← Option.some.inj h]; decide, by rw [← Option.some.inj h]; nofun⟩

/-- What starts a call has checked the role that the request names. -/
theorem checked_start {request : Request} (hcond : ownersOnly.enter users request)
    (h : start request = some point) : point.Checked users := by
  cases request with
  | inviteUser actor email text =>
    obtain ⟨_, hmap⟩ := Option.ite_none_right_eq_some.mp h
    obtain ⟨role, hrole, rfl⟩ := Option.map_eq_some_iff.mp hmap
    obtain ⟨howner, hadmin⟩ := role_of_parseRole hrole
    refine ⟨howner, fun hactor heq => ?_⟩
    exact hcond.elim hactor fun hne => hne (hadmin heq)
  | updateUserRole actor userId text =>
    obtain ⟨_, hbind⟩ := Option.ite_none_right_eq_some.mp h
    obtain ⟨role, hrole, hguard⟩ := Option.bind_eq_some_iff.mp hbind
    obtain ⟨hnot, heq⟩ := Option.ite_none_left_eq_some.mp hguard
    obtain rfl := Option.some.inj heq
    rintro role' hassign
    obtain rfl := Change.assign.inj hassign
    refine ⟨(role_of_parseRole hrole).1, fun hactor hadmin => hnot ?_⟩
    rw [hadmin]
    simpa [requireOwner] using hactor
  | deleteUser actor userId =>
    obtain ⟨_, heq⟩ := Option.ite_none_right_eq_some.mp h
    obtain rfl := Option.some.inj heq
    nofun
  | reEnableUser actor userId =>
    obtain ⟨_, heq⟩ := Option.ite_none_right_eq_some.mp h
    obtain rfl := Option.some.inj heq
    nofun

/-! ## What a statement does -/

/-- The write of a statement, and the call after it. -/
inductive Writes (users : Users) : Point → Users → Option Point → Prop
  | none {point : Point} {next : Option Point}
      (hnext : ∀ v ∈ next, point.Checked users → v.Checked users) : Writes users point users next
  | insert {actor : Actor} {email : Text} {role : Role} {newId : Text}
      (h : newId ∉ users.rows.map User.id) :
      Writes users (.insert actor email role)
        (users.insert ⟨newId, email, role, .invited, some actor.userId⟩ h) Option.none
  | modify {actor : Actor} {userId : Text} {change : Change} :
      Writes users (.write actor userId change)
        (users.modify userId change.apply change.id_apply) Option.none

theorem writes_advance (users : Users) (point : Point) (answer : Answer) :
    Writes users point (advance users point answer).1 (advance users point answer).2 := by
  cases answer with
  | failed => exact Writes.none nofun
  | done newId =>
    cases point with
    | count actor email role =>
      dsimp only [advance, statement]
      split_ifs
      · exact Writes.none nofun
      · refine Writes.none fun v hv hchecked => ?_
        obtain rfl := Option.some.inj hv
        exact hchecked
    | insert actor email role =>
      dsimp only [advance, statement]
      split_ifs with hemail hid
      · exact Writes.none nofun
      · exact Writes.none nofun
      · exact Writes.insert hid
    | lookup actor userId change =>
      dsimp only [advance, statement]
      cases htarget : users.find userId with
      | none => exact Writes.none nofun
      | some target =>
        dsimp only
        split_ifs with hmay
        · refine Writes.none fun v hv hchecked => ?_
          obtain rfl := Option.some.inj hv
          simp only [mayChange, requireOwner, Bool.and_eq_true, Bool.or_eq_true,
            decide_eq_true_eq] at hmay
          exact ⟨hchecked, target, htarget, hmay.1.1, fun hactor hadmin =>
            hmay.1.2.elim (fun hne => hne hadmin) hactor⟩
        · exact Writes.none nofun
    | write actor userId change => exact Writes.modify

theorem leaves_refl (actor : Actor) (users : Users) : Leaves actor users users :=
  ⟨fun _ _ => Iff.rfl, fun _ _ _ => Iff.rfl⟩

theorem mem_modify_of_id_ne {userId : Text} {change : Change} {user : User}
    (h : user.id ≠ userId) :
    user ∈ (users.modify userId change.apply change.id_apply).rows ↔ user ∈ users.rows := by
  constructor
  · intro hmem
    obtain ⟨old, hold, heq⟩ := List.mem_map.mp hmem
    split_ifs at heq with hid
    · exact absurd (heq ▸ (change.id_apply old).trans hid) h
    · exact heq ▸ hold
  · intro hmem
    exact List.mem_map.mpr ⟨user, hmem, if_neg h⟩

/-- The row of a changed user, before or after. -/
theorem role_of_mem_modify {userId : Text} (change : Change) {target user : User}
    (htarget : users.find userId = some target) (hid : user.id = userId) :
    (user ∈ users.rows → user = target) ∧
      (user ∈ (users.modify userId change.apply change.id_apply).rows →
        user = change.apply target) := by
  constructor
  · intro hmem
    have hfind := Table.find_of_mem hmem
    rw [hid, htarget] at hfind
    exact (Option.some.inj hfind).symm
  · intro hmem
    have hfind := Table.find_of_mem hmem
    rw [hid, Table.find_modify_self, htarget] at hfind
    exact (Option.some.inj hfind).symm

/-- The role after a change is the assigned one or the one before. -/
theorem role_apply (change : Change) (user : User) :
    (∃ role, change = .assign role ∧ (change.apply user).role = role) ∨
      (change.apply user).role = user.role := by
  cases change with
  | assign role => exact Or.inl ⟨role, rfl, rfl⟩
  | disable => exact Or.inr rfl
  | enable => exact Or.inr rfl

/-- A user of a role that neither the target nor the change has is left as it is. -/
theorem mem_modify_of_role {userId : Text} {change : Change} {target : User} {role : Role}
    (htarget : users.find userId = some target) (hrole : target.role ≠ role)
    (hassign : ∀ assigned, change = .assign assigned → assigned ≠ role) {user : User}
    (huser : user.role = role) :
    user ∈ (users.modify userId change.apply change.id_apply).rows ↔ user ∈ users.rows := by
  by_cases hid : user.id = userId
  · obtain ⟨hbefore, hafter⟩ := role_of_mem_modify change htarget hid
    refine iff_of_false (fun hmem => ?_) fun hmem => hrole (hbefore hmem ▸ huser)
    rw [hafter hmem] at huser
    rcases role_apply change target with ⟨assigned, hchange, heq⟩ | heq
    · exact hassign assigned hchange (heq.symm.trans huser)
    · exact hrole (heq.symm.trans huser)
  · exact mem_modify_of_id_ne hid

theorem mem_insert_of_role {row user : User} (h : row.id ∉ users.rows.map User.id)
    (hrole : user.role ≠ row.role) : user ∈ (users.insert row h).rows ↔ user ∈ users.rows := by
  show user ∈ users.rows ++ [row] ↔ _
  rw [List.mem_append, List.mem_singleton]
  refine or_iff_left fun heq => hrole (heq ▸ rfl)

/-- A checked statement leaves the owner and the admins as they must be left. -/
theorem leaves_of_writes (hchecked : point.Checked users) (h : Writes users point users' next) :
    Leaves point.actor users users' := by
  cases h with
  | none => exact leaves_refl _ _
  | @insert actor email role newId hid =>
    obtain ⟨howner, hadmin⟩ := hchecked
    exact
      { owner := fun user huser => mem_insert_of_role hid fun heq => howner (heq.symm.trans huser)
        admins := fun hactor user huser =>
          mem_insert_of_role hid fun heq => hadmin hactor (heq.symm.trans huser) }
  | @modify actor userId change =>
    obtain ⟨hassign, target, htarget, howner, hadmin⟩ := hchecked
    exact
      { owner := fun user huser =>
          mem_modify_of_role htarget howner (fun role hrole => (hassign role hrole).1) huser
        admins := fun hactor user huser =>
          mem_modify_of_role htarget (hadmin hactor)
            (fun role hrole => (hassign role hrole).2 hactor) huser }

/-! ## Calls beside a statement -/

/-- A call that is not about to write keeps what it has checked. -/
theorem checked_of_writes_insert {row : User} (h : row.id ∉ users.rows.map User.id)
    (hchecked : point.Checked users) : point.Checked (users.insert row h) := by
  cases point with
  | count actor email role => exact hchecked
  | insert actor email role => exact hchecked
  | lookup actor userId change => exact hchecked
  | write actor userId change =>
    obtain ⟨hassign, target, htarget, hrole⟩ := hchecked
    refine ⟨hassign, target, ?_, hrole⟩
    have hne : userId ≠ row.id := by
      rintro rfl
      exact h (Table.key_of_find htarget ▸ List.mem_map_of_mem (Table.mem_of_find htarget))
    rw [Table.find_insert, if_neg hne]
    exact htarget

/-- A write to the same user assigns the role admin only where the other call is the owner's. -/
theorem checked_of_writes_modify {userId : Text} {change : Change}
    (hassign : ∀ role, change = .assign role → role ≠ .owner)
    (hapart : change = .assign .admin → point.isPendingOn userId = false)
    (hchecked : point.Checked users) :
    point.Checked (users.modify userId change.apply change.id_apply) := by
  cases point with
  | count actor email role => exact hchecked
  | insert actor email role => exact hchecked
  | lookup actor target change => exact hchecked
  | write actor userId' change' =>
    obtain ⟨hassign', target, htarget, howner, hadmin⟩ := hchecked
    by_cases hid : userId' = userId
    · subst hid
      refine ⟨hassign', change.apply target, ?_, ?_, fun hactor => ?_⟩
      · rw [Table.find_modify_self, htarget, Option.map_some]
      · rcases role_apply change target with ⟨role, hchange, hrole⟩ | hrole
        · rw [hrole]
          exact hassign role hchange
        · rw [hrole]
          exact howner
      · rcases role_apply change target with ⟨role, hchange, hrole⟩ | hrole
        · rw [hrole]
          rintro rfl
          have hpending := hapart hchange
          simp [Point.isPendingOn, hactor] at hpending
        · rw [hrole]
          exact hadmin hactor
    · refine ⟨hassign', target, ?_, howner, hadmin⟩
      rw [Table.find_modify_of_ne _ hid]
      exact htarget

theorem checked_beside {other : Point} (hchecked : point.Checked users)
    (h : Writes users point users' next) (hother : other.Checked users)
    (hcond : ownersOnly.advanceBeside users point answer other) : other.Checked users' := by
  cases h with
  | none => exact hother
  | insert hid => exact checked_of_writes_insert hid hother
  | modify =>
    exact checked_of_writes_modify (fun role hrole => (hchecked.1 role hrole).1) hcond hother

/-- Every call keeps what it has checked. -/
theorem stable : Stable server ownersOnly (fun _ => True) (fun users point => point.Checked users)
    (fun _ _ => True) where
  symm _ _ _ := trivial
  enter users request users' calls _ hcond henter := by
    obtain ⟨rfl, rfl⟩ := Prod.mk.inj (Option.some.inj henter)
    refine ⟨trivial, fun point hpoint => ?_, ?_⟩
    · exact checked_start hcond (Option.mem_toList.mp hpoint)
    · cases start request with
      | none => exact List.Pairwise.nil
      | some point => exact List.pairwise_singleton _ point
  enterBeside users request users' calls other _ _ henter hother _ := by
    obtain ⟨rfl, rfl⟩ := Prod.mk.inj (Option.some.inj henter)
    exact ⟨hother, fun _ _ => trivial⟩
  advance users point answer users' next _ hchecked _ hadvance := by
    refine ⟨trivial, fun v hv => ?_⟩
    have hwrites := writes_advance users point answer
    rw [Option.some.inj hadvance] at hwrites
    cases hwrites with
    | none hnext => exact hnext v hv hchecked
    | insert => cases hv
    | modify => cases hv
  advanceBeside users point answer users' next other _ hchecked _ hadvance hother _ hcond := by
    have hwrites := writes_advance users point answer
    rw [Option.some.inj hadvance] at hwrites
    exact ⟨checked_beside hchecked hwrites hother hcond, fun _ _ => trivial⟩
  drop _ _ _ _ := trivial
  dropBeside _ _ _ _ _ hother _ := hother
  restart _ _ := trivial

/-! ## Runs -/

/-- In every run in which only the owner invites admins and no one becomes an admin while a request
of someone else is about to write to the user, each event leaves the owner, and leaves the admins
unless it is the owner's. -/
theorem only_owner_changes_admins (users : Users) (events : List (Event Request Answer))
    (hmeets : server.Meets ownersOnly ⟨users, []⟩ events) (c : Config Users Point)
    (hrun : server.run ⟨users, []⟩ events = some c) (event : Event Request Answer)
    (c' : Config Users Point) (hnext : server.next c event = some c') :
    KeepsAdmins c c' event := by
  have hholds := stable.run (Holds.start trivial) hmeets hrun
  cases event with
  | enter request => exact (congrArg Config.shared (Option.some.inj hnext)).symm
  | advance i answer =>
    intro point hpoint
    obtain ⟨found, hfound, hmap⟩ := Option.bind_eq_some_iff.mp hnext
    obtain ⟨⟨users', next⟩, hadvance, rfl⟩ := Option.map_eq_some_iff.mp hmap
    obtain rfl := Option.some.inj (hpoint.symm.trans hfound)
    have hwrites := writes_advance c.shared point answer
    rw [Option.some.inj hadvance] at hwrites
    exact leaves_of_writes (hholds.calls point (List.mem_of_getElem? hpoint)) hwrites
  | drop i =>
    obtain ⟨point, _, rfl⟩ := Option.map_eq_some_iff.mp hnext
    rfl
  | restart => exact (congrArg Config.shared (Option.some.inj hnext)).symm

/-- An owner, an admin and a developer. -/
def team : Users where
  rows :=
    [⟨"o", "o@x", .owner, .active, none⟩, ⟨"a", "a@x", .admin, .active, none⟩,
      ⟨"d", "d@x", .developer, .active, none⟩]
  nodup := by decide

/-- The admin changes the role of the developer. -/
theorem only_owner_changes_admins_demoted :
    ∃ c c', server.run ⟨team, []⟩
        [.enter (.updateUserRole ⟨"a", .admin⟩ "d" "qa_viewer"), .advance 0 (.done [])] = some c ∧
      server.next c (.advance 0 (.done [])) = some c' ∧
      KeepsAdmins c c' (.advance 0 (.done [])) ∧
      (c'.shared.find "d").map (·.role) = some .qaViewer := by
  have hmeets : server.Meets ownersOnly ⟨team, []⟩
      [.enter (.updateUserRole ⟨"a", .admin⟩ "d" "qa_viewer"), .advance 0 (.done [])] := by
    refine ⟨⟨trivial, nofun⟩, fun c hc => ⟨fun point _ => ⟨trivial, ?_⟩, fun _ _ => trivial⟩⟩
    obtain rfl := Option.some.inj hc
    nofun
  exact ⟨_, _, rfl, rfl, only_owner_changes_admins _ _ hmeets _ rfl _ _ rfl, by decide⟩

/-- An admin invites an admin. -/
theorem not_kept_invitedAdmin :
    ¬ ∀ c c', server.run ⟨team, []⟩
        [.enter (.inviteUser ⟨"a", .admin⟩ "n@x" "admin"), .advance 0 (.done [])] = some c →
      server.next c (.advance 0 (.done "n")) = some c' →
        KeepsAdmins c c' (.advance 0 (.done "n")) := by
  intro h
  have hleaves := h _ _ rfl rfl (.insert ⟨"a", .admin⟩ "n@x" .admin) rfl
  have hadmins := hleaves.admins (by decide) ⟨"n", "n@x", .admin, .invited, some "a"⟩ rfl
  revert hadmins
  decide

end UserRoles

end OoreBuild
