import OoreBuild.UserRoles

/-!
# The members of a project

The requests that add, change and remove a member. A maintainer is removed or demoted after a count
of the maintainer rows that is taken outside the transaction of the write, and counts the rows of
users who cannot act as maintainers too.
-/

namespace OoreBuild

namespace ProjectMembers

open Text Interleave
open UserRoles (Role Status User Users)

inductive ProjectRole where
  | maintainer
  | developer
  | viewer
  deriving DecidableEq

structure Member where
  userId : Text
  role : ProjectRole
  deriving DecidableEq

abbrev Members := Table Member.userId

/-- One project: the users of the instance, the members, and the named approvers of its
environments. -/
structure Project where
  users : Users
  members : Members
  approvers : List (ℕ × Text)

/-- The session of a request, and whether it comes from an API token. -/
structure Actor where
  userId : Text
  role : Role
  apiToken : Bool

/-! ## Permission -/

inductive EffectiveProjectRole where
  | instanceAdmin
  | member (role : ProjectRole)
  | none

/-- The role of a membership within the limits of the instance role. -/
def effectiveMemberRole (storedRole : ProjectRole) (instanceRole : Role) (apiToken : Bool) :
    ProjectRole :=
  if instanceRole = .qaViewer then .viewer
  else if apiToken then
    match instanceRole, storedRole with
    | .developer, .maintainer | .developer, .developer => .developer
    | _, _ => .viewer
  else storedRole

def resolveEffectiveProjectRole (members : Members) (actor : Actor) : EffectiveProjectRole :=
  if actor.role = .owner ∨ actor.role = .admin then .instanceAdmin
  else
    match members.find actor.userId with
    | some member => .member (effectiveMemberRole member.role actor.role actor.apiToken)
    | none => .none

/-- Only maintainers and instance admins manage members. -/
def mayManageMembers : EffectiveProjectRole → Bool
  | .instanceAdmin => true
  | .member role => role = .maintainer
  | .none => false

/-! ## Requests -/

inductive Request where
  | addProjectMember (userId : Text) (role : ProjectRole)
  | updateProjectMember (userId : Text) (role : ProjectRole)
  | removeProjectMember (userId : Text)

/-- What a request writes to a member's row. -/
inductive Change where
  | assign (role : ProjectRole)
  | remove
  deriving DecidableEq

/-- The change takes the role maintainer from its target. -/
def Change.lowers (change : Change) : Bool := change ≠ .assign .maintainer

/-- The next statement of a request. -/
inductive Point where
  | authorize (actor : Actor) (request : Request)
  | projectExists (userId : Text) (role : ProjectRole)
  | targetUser (userId : Text) (role : ProjectRole)
  | alreadyMember (userId : Text) (role : ProjectRole)
  | insert (userId : Text) (role : ProjectRole)
  | targetInstanceRole (userId : Text) (role : ProjectRole)
  | currentRole (userId : Text) (change : Change)
  | maintainerCount (userId : Text) (change : Change)
  | write (userId : Text) (change : Change)

/-- The statement after the permission is checked. -/
def Request.first : Request → Point
  | .addProjectMember userId role => .projectExists userId role
  | .updateProjectMember userId role => .targetInstanceRole userId role
  | .removeProjectMember userId => .currentRole userId .remove

def isMaintainer (member : Member) : Bool := member.role = .maintainer

/-- A user who may be added in a role. -/
def isEligible (role : ProjectRole) (user : User) : Bool :=
  (user.status = .active || user.status = .invited) &&
    !(user.role = .owner || user.role = .admin) && !(user.role = .qaViewer && role ≠ .viewer)

/-- The transaction that changes a member: a viewer and a former member approve nothing. -/
def Project.change (p : Project) (userId : Text) : Change → Project
  | .assign role =>
    { p with
      members := p.members.modify userId (fun member => { member with role }) fun _ => rfl
      approvers :=
        if role = .viewer then p.approvers.filter (·.2 ≠ userId) else p.approvers }
  | .remove =>
    { p with
      members := p.members.erase userId
      approvers := p.approvers.filter (·.2 ≠ userId) }

/-- A statement that succeeds. -/
def statement (p : Project) : Point → Project × Option Point
  | .authorize actor request =>
    if mayManageMembers (resolveEffectiveProjectRole p.members actor) then (p, some request.first)
    else (p, none)
  | .projectExists userId role => (p, some (.targetUser userId role))
  | .targetUser userId role =>
    if (p.users.find userId).any (isEligible role) then (p, some (.alreadyMember userId role))
    else (p, none)
  | .alreadyMember userId role =>
    if (p.members.find userId).isSome then (p, none) else (p, some (.insert userId role))
  | .insert userId role =>
    if h : userId ∉ p.members.rows.map Member.userId then
      ({ p with members := p.members.insert ⟨userId, role⟩ h }, none)
    else (p, none)
  | .targetInstanceRole userId role =>
    if (p.users.find userId).any (·.role = .qaViewer) && role ≠ .viewer then (p, none)
    else if role ≠ .maintainer then (p, some (.currentRole userId (.assign role)))
    else (p, some (.write userId (.assign role)))
  | .currentRole userId change =>
    if (p.members.find userId).any isMaintainer then (p, some (.maintainerCount userId change))
    else (p, some (.write userId change))
  | .maintainerCount userId change =>
    if p.members.rows.countP isMaintainer ≤ 1 then (p, none)
    else (p, some (.write userId change))
  | .write userId change =>
    if (p.members.find userId).isSome then (p.change userId change, none) else (p, none)

/-- The call after a statement that fails: a failed lookup of a membership reads as none, a failed
count as 0, and other failures end the request. -/
def afterFailure : Point → Option Point
  | .alreadyMember userId role => some (.insert userId role)
  | _ => none

inductive Answer where
  | done
  | failed

def advance (p : Project) (point : Point) : Answer → Project × Option Point
  | .done => statement p point
  | .failed => (p, afterFailure point)

/-- The server. -/
def server : Interleave Project Point (Actor × Request) Answer where
  enter p input := some (p, [.authorize input.1 input.2])
  advance p point answer := some (advance p point answer)
  drop p _ := p
  restart p := p

/-! ## What must hold -/

/-- A maintainer row of a user who can act as one. -/
def Project.canMaintain (p : Project) (member : Member) : Bool :=
  isMaintainer member &&
    (p.users.find member.userId).any fun user => user.role ≠ .qaViewer && user.status ≠ .disabled

def Project.HasMaintainer (p : Project) : Prop :=
  ∃ member ∈ p.members.rows, p.canMaintain member = true

/-- Every named approver is a member and not a viewer. -/
def Project.ApproversHold (p : Project) : Prop :=
  ∀ approver ∈ p.approvers, ∃ member, p.members.find approver.2 = some member ∧
    member.role ≠ .viewer

/-- Somebody else than the user can act as maintainer. -/
def Project.HasOther (p : Project) (userId : Text) : Prop :=
  ∃ member ∈ p.members.rows, member.userId ≠ userId ∧ p.canMaintain member = true

/-- The user whom a call is about to remove or to demote. -/
def Point.lowering : Point → Option Text
  | .write userId change => if change.lowers then some userId else none
  | _ => none

/-- No count of two rows or more lets the only maintainer who can act go; and while a request is
about to remove or to demote a member, no other one removes or demotes another maintainer who can
act, or makes that member a maintainer. -/
def oneAtATime : Condition Project Point (Actor × Request) Answer where
  enter _ _ := True
  enterBeside _ _ _ := True
  advance p point answer := match point, answer with
    | .maintainerCount userId _, .done => 1 < p.members.rows.countP isMaintainer →
      (p.members.find userId).any p.canMaintain = true → p.HasOther userId
    | _, _ => True
  advanceBeside p point answer other := match point, answer with
    | .write userId change, .done => ∀ lowered, other.lowering = some lowered →
      (change.lowers = true → userId ≠ lowered →
        (p.members.find userId).any p.canMaintain = false) ∧
      (change.lowers = false → userId ≠ lowered)
    | .insert userId role, .done => ∀ lowered, other.lowering = some lowered →
      role = .maintainer → userId ≠ lowered
    | _, _ => True

variable {p p' : Project} {point : Point} {next : Option Point} {userId : Text}

/-! ## What a statement does -/

/-- The write of a statement, and what is known of the call after it. -/
inductive Writes (p : Project) : Point → Project → Option Point → Prop
  | none {point : Point} {next : Option Point}
      (hnext : ∀ v ∈ next, ∀ lowered, v.lowering = some lowered →
        (p.members.find lowered).any isMaintainer = true →
          ∃ change, point = .maintainerCount lowered change ∧
            1 < p.members.rows.countP isMaintainer) :
      Writes p point p next
  | insert {userId : Text} {role : ProjectRole} (h : userId ∉ p.members.rows.map Member.userId) :
      Writes p (.insert userId role)
        { p with members := p.members.insert ⟨userId, role⟩ h } Option.none
  | change {userId : Text} {change : Change} (h : (p.members.find userId).isSome = true) :
      Writes p (.write userId change) (p.change userId change) Option.none

/-- A request for a member that was not a maintainer is not held up by a count. -/
theorem writes_statement (p : Project) (point : Point) :
    Writes p point (statement p point).1 (statement p point).2 := by
  cases point with
  | authorize actor request =>
    dsimp only [statement]
    split_ifs
    · refine Writes.none fun v hv lowered hlowered => ?_
      obtain rfl := Option.some.inj hv
      cases request <;> cases hlowered
    · exact Writes.none nofun
  | projectExists userId role =>
    refine Writes.none fun v hv lowered hlowered => ?_
    obtain rfl := Option.some.inj hv
    cases hlowered
  | targetUser userId role =>
    dsimp only [statement]
    split_ifs
    · refine Writes.none fun v hv lowered hlowered => ?_
      obtain rfl := Option.some.inj hv
      cases hlowered
    · exact Writes.none nofun
  | alreadyMember userId role =>
    dsimp only [statement]
    split_ifs
    · exact Writes.none nofun
    · refine Writes.none fun v hv lowered hlowered => ?_
      obtain rfl := Option.some.inj hv
      cases hlowered
  | insert userId role =>
    dsimp only [statement]
    split_ifs with h
    · exact Writes.none nofun
    · exact Writes.insert h
  | targetInstanceRole userId role =>
    dsimp only [statement]
    split_ifs with hqa hrole
    · exact Writes.none nofun
    · refine Writes.none fun v hv lowered hlowered => ?_
      obtain rfl := Option.some.inj hv
      cases hlowered
    · refine Writes.none fun v hv lowered hlowered => ?_
      obtain rfl := Option.some.inj hv
      obtain rfl : role = .maintainer := not_not.mp hrole
      cases hlowered
  | currentRole userId change =>
    dsimp only [statement]
    split_ifs with hmaintainer
    · refine Writes.none fun v hv lowered hlowered => ?_
      obtain rfl := Option.some.inj hv
      cases hlowered
    · refine Writes.none fun v hv lowered hlowered hany => ?_
      obtain rfl := Option.some.inj hv
      obtain ⟨_, heq⟩ := Option.ite_none_right_eq_some.mp hlowered
      exact absurd (Option.some.inj heq ▸ hany) hmaintainer
  | maintainerCount userId change =>
    dsimp only [statement]
    split_ifs with hcount
    · exact Writes.none nofun
    · refine Writes.none fun v hv lowered hlowered _ => ?_
      obtain rfl := Option.some.inj hv
      obtain ⟨_, heq⟩ := Option.ite_none_right_eq_some.mp hlowered
      obtain rfl := Option.some.inj heq
      exact ⟨change, rfl, Nat.not_le.mp hcount⟩
  | write userId change =>
    dsimp only [statement]
    split_ifs with h
    · exact Writes.change h
    · exact Writes.none nofun

theorem writes_advance (p : Project) (point : Point) (answer : Answer) :
    Writes p point (advance p point answer).1 (advance p point answer).2 ∧
      (answer = .failed → (advance p point answer).1 = p ∧
        ∀ v ∈ (advance p point answer).2, v.lowering = none) := by
  cases answer with
  | done => exact ⟨writes_statement p point, nofun⟩
  | failed =>
    have hafter : ∀ v ∈ afterFailure point, v.lowering = none := by
      intro v hv
      cases point with
      | alreadyMember userId role =>
        obtain rfl := Option.some.inj hv
        rfl
      | _ => cases hv
    refine ⟨Writes.none fun v hv lowered hlowered => ?_, fun _ => ⟨rfl, hafter⟩⟩
    rw [hafter v hv] at hlowered
    cases hlowered

theorem eq_assign_of_not_lowers {change : Change} (h : change.lowers = false) :
    change = .assign .maintainer := by
  simpa [Change.lowers] using h

theorem mem_change_of_ne {change : Change} {member : Member} (h : member.userId ≠ userId) :
    member ∈ (p.change userId change).members.rows ↔ member ∈ p.members.rows := by
  cases change with
  | assign role =>
    constructor
    · intro hmem
      obtain ⟨old, hold, heq⟩ := List.mem_map.mp hmem
      split_ifs at heq with hid
      · exact absurd ((congrArg Member.userId heq).symm.trans hid) h
      · exact heq ▸ hold
    · exact fun hmem => List.mem_map.mpr ⟨member, hmem, if_neg h⟩
  | remove =>
    show member ∈ p.members.rows.filter _ ↔ _
    rw [List.mem_filter, decide_eq_true_eq]
    exact and_iff_left h

theorem find_assign (p : Project) (userId : Text) (role : ProjectRole) (other : Text) :
    (p.change userId (.assign role)).members.find other =
      if other = userId then (p.members.find userId).map fun member => { member with role }
      else p.members.find other :=
  Table.find_modify p.members userId (fun member => { member with role }) (fun _ => rfl) other

theorem find_change_of_ne {change : Change} {other : Text} (h : other ≠ userId) :
    (p.change userId change).members.find other = p.members.find other := by
  cases change with
  | assign role => exact (find_assign p userId role other).trans (if_neg h)
  | remove => exact (Table.find_erase _ _ _).trans (if_neg h)

theorem canMaintain_change (p : Project) (userId : Text) (change : Change) :
    (p.change userId change).canMaintain = p.canMaintain := by
  cases change <;> rfl

/-- Who was removed or demoted does not act as maintainer. -/
theorem find_change_lowers (p : Project) (userId : Text) {change : Change}
    (h : change.lowers = true) :
    ((p.change userId change).members.find userId).any isMaintainer = false := by
  cases change with
  | assign role =>
    rw [find_assign, if_pos rfl]
    have hrole : role ≠ .maintainer := by
      rintro rfl
      simp [Change.lowers] at h
    cases p.members.find userId with
    | none => rfl
    | some member => exact decide_eq_false hrole
  | remove =>
    have hfind : (p.change userId .remove).members.find userId = none :=
      (Table.find_erase _ _ _).trans (if_pos rfl)
    rw [hfind]
    rfl

theorem isMaintainer_of_canMaintain {member : Member} (h : p.canMaintain member = true) :
    isMaintainer member = true := (Bool.and_eq_true_iff.mp h).1

theorem any_isMaintainer (h : (p.members.find userId).any p.canMaintain = true) :
    (p.members.find userId).any isMaintainer = true := by
  cases hfind : p.members.find userId with
  | none =>
    rw [hfind] at h
    cases h
  | some member =>
    rw [hfind] at h
    exact isMaintainer_of_canMaintain h

theorem any_canMaintain_of_mem {member : Member} (hmem : member ∈ p.members.rows)
    (h : p.canMaintain member = true) :
    (p.members.find member.userId).any p.canMaintain = true := by
  rw [Table.find_of_mem hmem]
  exact h

/-- A maintainer who can act stays one beside a change that does not lower them. -/
theorem exists_canMaintain_change {change : Change} {member : Member}
    (hmem : member ∈ p.members.rows) (hcan : p.canMaintain member = true)
    (h : change.lowers = true → member.userId ≠ userId) :
    ∃ member' ∈ (p.change userId change).members.rows, member'.userId = member.userId ∧
      (p.change userId change).canMaintain member' = true := by
  rw [canMaintain_change]
  by_cases hid : member.userId = userId
  · have hlowers : change.lowers = false := by
      cases hvalue : change.lowers with
      | true => exact absurd hid (h hvalue)
      | false => rfl
    obtain rfl := eq_assign_of_not_lowers hlowers
    refine ⟨{ member with role := .maintainer }, ?_, rfl, ?_⟩
    · exact List.mem_map.mpr ⟨member, hmem, if_pos hid⟩
    · exact Bool.and_eq_true_iff.mpr ⟨rfl, (Bool.and_eq_true_iff.mp hcan).2⟩
  · exact ⟨member, (mem_change_of_ne hid).mpr hmem, rfl, hcan⟩

/-! ## The last maintainer -/

/-- A call that is about to remove or to demote a maintainer leaves another one. -/
def Point.LeavesOther (p : Project) (point : Point) : Prop :=
  ∀ lowered, point.lowering = some lowered →
    (p.members.find lowered).any p.canMaintain = true → p.HasOther lowered

theorem hasMaintainer_writes (h : p.HasMaintainer) (hpoint : point.LeavesOther p)
    (hwrites : Writes p point p' next) : p'.HasMaintainer := by
  cases hwrites with
  | none => exact h
  | insert hid =>
    obtain ⟨member, hmem, hcan⟩ := h
    exact ⟨member, List.mem_append_left _ hmem, hcan⟩
  | @change userId change _ =>
    obtain ⟨member, hmem, hcan⟩ := h
    by_cases hlowered : change.lowers = true ∧ member.userId = userId
    · obtain ⟨hlowers, rfl⟩ := hlowered
      obtain ⟨other, hother, hne, hcanOther⟩ :=
        hpoint member.userId (if_pos hlowers) (any_canMaintain_of_mem hmem hcan)
      obtain ⟨kept, hkept, _, hcanKept⟩ := exists_canMaintain_change hother hcanOther fun _ => hne
      exact ⟨kept, hkept, hcanKept⟩
    · obtain ⟨kept, hkept, _, hcanKept⟩ := exists_canMaintain_change hmem hcan
        fun hlowers hid => hlowered ⟨hlowers, hid⟩
      exact ⟨kept, hkept, hcanKept⟩

theorem leavesOther_change {change : Change} {other : Point} (hother : other.LeavesOther p)
    (hcond : oneAtATime.advanceBeside p (.write userId change) .done other) :
    other.LeavesOther (p.change userId change) := by
  intro lowered hlowered hany
  obtain ⟨hlower, hraise⟩ := hcond lowered hlowered
  by_cases hid : lowered = userId
  · subst hid
    cases hvalue : change.lowers with
    | true =>
      have hnot := find_change_lowers p lowered hvalue
      rw [any_isMaintainer hany] at hnot
      cases hnot
    | false => exact absurd rfl (hraise hvalue)
  · rw [canMaintain_change, find_change_of_ne hid] at hany
    obtain ⟨member, hmem, hne, hcan⟩ := hother lowered hlowered hany
    obtain ⟨kept, hkept, hsame, hcanKept⟩ : ∃ kept ∈ (p.change userId change).members.rows,
        kept.userId = member.userId ∧ (p.change userId change).canMaintain kept = true := by
      refine exists_canMaintain_change hmem hcan fun hvalue hsame => ?_
      have hfalse := hlower hvalue (Ne.symm hid)
      rw [← hsame, any_canMaintain_of_mem hmem hcan] at hfalse
      cases hfalse
    exact ⟨kept, hkept, hsame ▸ hne, hcanKept⟩

theorem leavesOther_insert {role : ProjectRole} (h : userId ∉ p.members.rows.map Member.userId)
    {other : Point} (hother : other.LeavesOther p)
    (hcond : oneAtATime.advanceBeside p (.insert userId role) .done other) :
    other.LeavesOther { p with members := p.members.insert ⟨userId, role⟩ h } := by
  intro lowered hlowered hany
  have hfind : (p.members.insert ⟨userId, role⟩ h).find lowered =
      if lowered = userId then some ⟨userId, role⟩ else p.members.find lowered :=
    Table.find_insert _ _ _ _
  by_cases hid : lowered = userId
  · rw [hfind, if_pos hid] at hany
    have hrole : role = .maintainer :=
      of_decide_eq_true (isMaintainer_of_canMaintain (p := { p with
        members := p.members.insert ⟨userId, role⟩ h }) hany)
    exact absurd hid.symm (hcond lowered hlowered hrole)
  · rw [hfind, if_neg hid] at hany
    obtain ⟨member, hmem, hne, hcan⟩ := hother lowered hlowered hany
    exact ⟨member, List.mem_append_left _ hmem, hne, hcan⟩

/-- A statement leaves another maintainer for the call after it, and for the calls beside it. -/
theorem leavesOther_next {answer : Answer} (hcond : oneAtATime.advance p point answer) :
    ∀ v ∈ (advance p point answer).2, v.LeavesOther (advance p point answer).1 := by
  intro v hv lowered hlowered
  obtain ⟨hwrites, hfailed⟩ := writes_advance p point answer
  cases answer with
  | failed =>
    rw [(hfailed rfl).2 v hv] at hlowered
    cases hlowered
  | done =>
    generalize hp' : (advance p point .done).1 = p' at hwrites ⊢
    generalize (advance p point .done).2 = next at hwrites hv
    cases hwrites with
    | none hnext =>
      intro hany
      obtain ⟨change, rfl, hcount⟩ := hnext v hv lowered hlowered (any_isMaintainer hany)
      exact hcond hcount hany
    | insert => cases hv
    | change => cases hv

theorem leavesOther_beside {answer : Answer} {other : Point} (hother : other.LeavesOther p)
    (hcond : oneAtATime.advanceBeside p point answer other) :
    other.LeavesOther (advance p point answer).1 := by
  obtain ⟨hwrites, hfailed⟩ := writes_advance p point answer
  cases answer with
  | failed =>
    rw [(hfailed rfl).1]
    exact hother
  | done =>
    generalize (advance p point .done).1 = p' at hwrites ⊢
    generalize (advance p point .done).2 = next at hwrites
    cases hwrites with
    | none => exact hother
    | insert hid => exact leavesOther_insert hid hother hcond
    | change => exact leavesOther_change hother hcond

theorem stable_maintainer : Stable server oneAtATime Project.HasMaintainer
    (fun p point => point.LeavesOther p) (fun _ _ => True) where
  symm _ _ _ := trivial
  enter p input p' calls hmaintainer _ henter := by
    obtain ⟨rfl, rfl⟩ := Prod.mk.inj (Option.some.inj henter)
    refine ⟨hmaintainer, fun point hpoint lowered hlowered => ?_, List.pairwise_singleton _ _⟩
    obtain rfl := List.mem_singleton.mp hpoint
    cases hlowered
  enterBeside p input p' calls other _ _ henter hother _ := by
    obtain ⟨rfl, rfl⟩ := Prod.mk.inj (Option.some.inj henter)
    exact ⟨hother, fun _ _ => trivial⟩
  advance p point answer p' next hmaintainer hpoint hcond hadvance := by
    obtain ⟨rfl, rfl⟩ := Prod.mk.inj (Option.some.inj hadvance)
    refine ⟨hasMaintainer_writes hmaintainer hpoint (writes_advance p point answer).1, ?_⟩
    exact leavesOther_next hcond
  advanceBeside p point answer p' next other _ _ _ hadvance hother _ hcond := by
    obtain ⟨rfl, rfl⟩ := Prod.mk.inj (Option.some.inj hadvance)
    exact ⟨leavesOther_beside hother hcond, fun _ _ => trivial⟩
  drop _ _ h _ := h
  dropBeside _ _ _ _ _ hother _ := hother
  restart _ h := h

/-! ## Named approvers -/

theorem approversHold_change {change : Change} (h : p.ApproversHold) :
    (p.change userId change).ApproversHold := by
  intro approver happrover
  have hbefore : approver ∈ p.approvers := by
    cases change with
    | assign role =>
      change approver ∈ (if role = .viewer then p.approvers.filter (·.2 ≠ userId) else p.approvers)
        at happrover
      split_ifs at happrover
      · exact (List.mem_filter.mp happrover).1
      · exact happrover
    | remove => exact (List.mem_filter.mp happrover).1
  obtain ⟨member, hfind, hrole⟩ := h approver hbefore
  by_cases hid : approver.2 = userId
  · cases change with
    | assign role =>
      refine ⟨{ member with role }, ?_, ?_⟩
      · rw [find_assign, if_pos hid, ← hid, hfind]
        rfl
      · rintro rfl
        have hmem : approver ∈ p.approvers.filter (·.2 ≠ userId) := happrover
        exact of_decide_eq_true (List.mem_filter.mp hmem).2 hid
    | remove => exact absurd hid (of_decide_eq_true (List.mem_filter.mp happrover).2)
  · exact ⟨member, (find_change_of_ne hid).trans hfind, hrole⟩

theorem approversHold_writes (h : p.ApproversHold) (hwrites : Writes p point p' next) :
    p'.ApproversHold := by
  cases hwrites with
  | none => exact h
  | @insert userId role hid =>
    intro approver happrover
    obtain ⟨member, hfind, hrole⟩ := h approver happrover
    refine ⟨member, ?_, hrole⟩
    have hne : approver.2 ≠ userId := by
      rintro rfl
      exact hid (Table.key_of_find hfind ▸ List.mem_map_of_mem (Table.mem_of_find hfind))
    have hinsert : (p.members.insert ⟨userId, role⟩ hid).find approver.2 =
        if approver.2 = userId then some ⟨userId, role⟩ else p.members.find approver.2 :=
      Table.find_insert _ _ _ _
    exact hinsert.trans ((if_neg hne).trans hfind)
  | change => exact approversHold_change h

theorem stable_approvers : Stable server .any Project.ApproversHold (fun _ _ => True)
    (fun _ _ => True) where
  symm _ _ _ := trivial
  enter p input p' calls happrovers _ henter := by
    obtain ⟨rfl, rfl⟩ := Prod.mk.inj (Option.some.inj henter)
    exact ⟨happrovers, fun _ _ => trivial, List.pairwise_singleton _ _⟩
  enterBeside _ _ _ _ _ _ _ _ _ _ := ⟨trivial, fun _ _ => trivial⟩
  advance p point answer p' next happrovers _ _ hadvance := by
    obtain ⟨rfl, rfl⟩ := Prod.mk.inj (Option.some.inj hadvance)
    exact ⟨approversHold_writes happrovers (writes_advance p point answer).1, fun _ _ => trivial⟩
  advanceBeside _ _ _ _ _ _ _ _ _ _ _ _ _ := ⟨trivial, fun _ _ => trivial⟩
  drop _ _ h _ := h
  dropBeside _ _ _ _ _ _ _ := trivial
  restart _ h := h

/-! ## Runs -/

/-- In every run the named approvers stay members who are not viewers; and in every run whose
requests remove and demote maintainers one at a time, somebody can act as maintainer. -/
theorem maintainer_remains (p : Project) (hmaintainer : p.HasMaintainer)
    (happrovers : p.ApproversHold) (events : List (Event (Actor × Request) Answer))
    (c : Config Project Point) (hrun : server.run ⟨p, []⟩ events = some c) :
    c.shared.ApproversHold ∧
      (server.Meets oneAtATime ⟨p, []⟩ events → c.shared.HasMaintainer) := by
  have hany := stable_approvers.run (Holds.start happrovers) (server.meets_any _ events) hrun
  refine ⟨hany.shared, fun hmeets => ?_⟩
  exact (stable_maintainer.run (Holds.start hmaintainer) hmeets hrun).shared

/-- Two maintainers, of whom the second one has some status. -/
def pairOf (status : Status) : Project where
  users :=
    { rows := [⟨"a", "a@x", .developer, .active, none⟩, ⟨"b", "b@x", .developer, status, none⟩]
      nodup := by
        show [("a" : Text), ("b" : Text)].Nodup
        decide }
  members := { rows := [⟨"a", .maintainer⟩, ⟨"b", .maintainer⟩], nodup := by decide }
  approvers := [(1, "a")]

/-- The owner removes the first maintainer. -/
def removal : List (Event (Actor × Request) Answer) :=
  [.enter (⟨"o", .owner, false⟩, .removeProjectMember "a"), .advance 0 .done, .advance 0 .done,
    .advance 0 .done, .advance 0 .done]

theorem maintainer_remains_removed :
    ∃ c, server.run ⟨pairOf .active, []⟩ removal = some c ∧ c.shared.ApproversHold ∧
      c.shared.HasMaintainer ∧ c.shared.members.rows = [⟨"b", .maintainer⟩] := by
  have hmeets : server.Meets oneAtATime ⟨pairOf .active, []⟩ removal := by
    refine ⟨⟨trivial, nofun⟩, fun c hc => ?_⟩
    obtain rfl := Option.some.inj hc
    refine ⟨fun point hpoint => ?_, fun c hc => ?_⟩
    · obtain rfl := Option.some.inj hpoint
      exact ⟨trivial, nofun⟩
    obtain rfl := Option.some.inj hc
    refine ⟨fun point hpoint => ?_, fun c hc => ?_⟩
    · obtain rfl := Option.some.inj hpoint
      exact ⟨trivial, nofun⟩
    obtain rfl := Option.some.inj hc
    refine ⟨fun point hpoint => ?_, fun c hc => ?_⟩
    · obtain rfl := Option.some.inj hpoint
      exact ⟨fun _ _ => ⟨⟨"b", .maintainer⟩, by decide, by decide, by decide⟩, nofun⟩
    obtain rfl := Option.some.inj hc
    refine ⟨fun point hpoint => ?_, fun _ _ => trivial⟩
    obtain rfl := Option.some.inj hpoint
    exact ⟨trivial, nofun⟩
  have happrovers : (pairOf .active).ApproversHold := by
    intro approver happrover
    obtain rfl := List.mem_singleton.mp happrover
    exact ⟨⟨"a", .maintainer⟩, by decide, by decide⟩
  obtain ⟨happrovers', hmaintainer⟩ := maintainer_remains (pairOf .active)
    ⟨⟨"b", .maintainer⟩, by decide, by decide⟩ happrovers removal _ rfl
  exact ⟨_, rfl, happrovers', hmaintainer hmeets, by decide⟩

/-- The count takes a disabled maintainer for one who remains. -/
theorem not_remains_disabled :
    ¬ ((pairOf .disabled).HasMaintainer →
      ∀ c, server.run ⟨pairOf .disabled, []⟩ removal = some c → c.shared.HasMaintainer) := by
  intro h
  have hmaintainer : (pairOf .disabled).HasMaintainer :=
    ⟨⟨"a", .maintainer⟩, by decide, by decide⟩
  obtain ⟨member, hmember, hcan⟩ := h hmaintainer _ rfl
  have hrows : member ∈ [(⟨"b", .maintainer⟩ : Member)] := hmember
  obtain rfl := List.mem_singleton.mp hrows
  revert hcan
  decide

end ProjectMembers

end OoreBuild
