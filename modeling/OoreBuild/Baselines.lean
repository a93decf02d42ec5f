import OoreBuild.Build
import OoreBuild.Reports
import OoreBuild.Trigger
import OoreBuild.Lib.Table
import Mathlib.Data.List.Sort

/-!
# The build that a build compares with

Sizes and analyses of a build are compared with the newest earlier successful build on the base
branch (`findBaseline`). Pull requests and their reruns are left out: a rerun has no webhook, so
the build that a trigger started is looked for along `sourceBuildId`, at most 50 builds back.
Retention deletes builds, and a rerun then no longer knows its source.
-/

namespace OoreBuild

namespace Baselines

open Text Reports

/-! ## Tables -/

/-- The hash of a commit: every build that is created has one. -/
abbrev Commit := {sha : Text // sha ≠ []}

/-- A row of `integration_webhooks`: the event, and the payload where it can be parsed. -/
structure Webhook where
  eventType : Text
  payload : Option JsonValue

/-- A row of `builds`, with the webhook that it refers to. -/
structure BuildRow where
  id : ℕ
  projectId : Text
  pipelineId : Text
  buildNumber : ℕ
  status : BuildStatus
  expiredFrom : Option BuildStatus
  triggerEvent : Option Text
  webhook : Option Webhook
  sourceBuildId : Option ℕ
  commitSha : Option Text
  branch : Option Text

/-- What a build was started by; kept here after the build is deleted. -/
structure Provenance where
  buildId : ℕ
  sourceBuildId : Option ℕ
  pullRequest : Bool
  deriving DecidableEq

/-- The branches that a project's builds compare with by default. -/
structure ProjectBranches where
  projectDefaultBranch : Option Text
  repositoryDefaultBranch : Option Text

inductive BaselineData where
  | sizes
  | analysis
  deriving DecidableEq, Repr

structure Store where
  builds : Table BuildRow.id
  history : Table Provenance.buildId
  projects : Text → ProjectBranches
  /-- The builds with recorded data. -/
  recorded : List (BaselineData × ℕ)
  /-- The builds with a release. -/
  released : List ℕ
  nextId : ℕ

/-! ## The origin of a build -/

/-- The value at the end of the path. -/
def pointer : List Text → JsonValue → Option JsonValue
  | [], value => some value
  | name :: path, .obj fields => ((fields.find? (·.1 = name)).map (·.2)).bind (pointer path)
  | _ :: _, _ => none

/-- The branch a pull request targets, from the webhook that started it. -/
def pullRequestTarget (payload : JsonValue) : Option Text :=
  (((pointer ["pull_request", "base", "ref"] payload).or
    (pointer ["object_attributes", "target_branch"] payload)).bind (·.asStr)).map trim |>.filter
      (· ≠ [])

/-- Reruns chain back to the build a trigger started. -/
def maxRerunDepth : ℕ := 50

/-- Earlier successful builds on the base branch checked for a baseline. -/
def maxBaselineCandidates : ℕ := 25

/-- The build's source, if it has one that is still there. -/
def Store.sourceOf (s : Store) (row : BuildRow) : Option BuildRow :=
  row.sourceBuildId.bind s.builds.find

/-- The first build of the chain, as far as it is followed. -/
def Store.originOf (s : Store) : ℕ → BuildRow → BuildRow
  | 0, row => row
  | depth + 1, row => match s.sourceOf row with
    | some source => s.originOf depth source
    | none => row

def isPullRequestEvent (event : Option Text) : Bool :=
  event.any fun event => normalizeEvent event = "pull_request"

def BuildRow.isPullRequest (row : BuildRow) : Bool :=
  isPullRequestEvent row.triggerEvent || isPullRequestEvent (row.webhook.map (·.eventType))

/-- The target branch when the trigger that started a build was a pull request. `some none` is a
pull request whose target is unknown; `none` is not a pull request. -/
def Store.pullRequestOrigin (s : Store) (id : ℕ) : Option (Option Text) :=
  match s.builds.find id with
  | none => none
  | some row =>
    let origin := s.originOf maxRerunDepth row
    if origin.isPullRequest then
      some ((origin.webhook.bind (·.payload)).bind pullRequestTarget)
    else none

/-! ## The baseline -/

def BuildRow.succeeded (row : BuildRow) : Bool :=
  row.status = .succeeded || row.status = .expired && row.expiredFrom = some .succeeded

def nonEmpty (branch : Option Text) : Option Text := (branch.map trim).filter (· ≠ [])

/-- The branch a build compares with. -/
def Store.baseBranch (s : Store) (build : BuildRow) : Option Text :=
  let project := s.projects build.projectId
  ((s.pullRequestOrigin build.id).join.or (nonEmpty project.projectDefaultBranch)).or
    (nonEmpty project.repositoryDefaultBranch)

/-- The builds that qualify but for a pull request. -/
def Store.qualifies (s : Store) (build : BuildRow) (branch : Text) (data : BaselineData)
    (row : BuildRow) : Bool :=
  row.pipelineId = build.pipelineId && row.branch = some branch &&
    row.buildNumber < build.buildNumber && row.succeeded && s.recorded.contains (data, row.id) &&
    -- a rerun of the same commit is the same code and would compare with itself
    (build.commitSha.filter (· ≠ [])).all fun sha => row.commitSha ≠ some sha

def Store.qualifying (s : Store) (build : BuildRow) (branch : Text) (data : BaselineData) :
    List BuildRow :=
  s.builds.rows.filter (s.qualifies build branch data)

/-- The newest ones of them. -/
def Store.candidates (s : Store) (build : BuildRow) (branch : Text) (data : BaselineData) :
    List BuildRow :=
  ((s.qualifying build branch data).insertionSort fun a b => b.buildNumber ≤ a.buildNumber).take
    maxBaselineCandidates

structure BuildSizeBaseline where
  buildId : ℕ
  buildNumber : ℕ
  branch : Option Text
  deriving DecidableEq, Repr

/-- The branch a build compares with, and the latest earlier successful build on it that recorded
`data`. `none` when the build does not exist. -/
def Store.findBaseline (s : Store) (id : ℕ) (data : BaselineData) :
    Option (Option Text × Option BuildSizeBaseline) :=
  (s.builds.find id).map fun build =>
    let base := s.baseBranch build
    (base, base.bind fun branch =>
      -- a pull request whose head branch has the base branch's name is not the base branch
      ((s.candidates build branch data).find? fun row =>
        (s.pullRequestOrigin row.id).isNone).map fun row =>
          ⟨row.id, row.buildNumber, row.branch⟩)

/-! ## What happens to builds -/

inductive Trigger where
  | manual
  | schedule
  /-- A webhook with this event. -/
  | webhook (event : Text) (delivery : Webhook)

def Trigger.event : Trigger → Option Text
  | manual => none
  | schedule => some "schedule"
  | webhook event _ => some event

def Trigger.delivery : Trigger → Option Webhook
  | webhook _ delivery => some delivery
  | _ => none

inductive Event where
  | branches (projectId : Text) (branches : ProjectBranches)
  | trigger (projectId pipelineId : Text) (trigger : Trigger) (branch : Option Text)
      (commit : Commit)
  /-- A rerun, or a retry of single steps. -/
  | rerun (source : ℕ) (retry : Bool)
  | transition (id : ℕ) (status : BuildStatus)
  | record (id : ℕ) (data : BaselineData)
  | release (id : ℕ)
  /-- Retention cleans a build up. -/
  | cleanup (id : ℕ) (full : Bool)

def Store.nextNumber (s : Store) (projectId : Text) : ℕ :=
  ((s.builds.rows.filter (·.projectId = projectId)).map (·.buildNumber)).foldr max 0 + 1

/-- Insert a build under a new ID. -/
def Store.insertBuild (s : Store) (row : BuildRow) : Option Store :=
  if hnew : row.id ∉ s.builds.rows.map (·.id) then
    if hhistory : row.id ∉ s.history.rows.map (·.buildId) then
      some { s with
        builds := s.builds.insert row hnew
        history := s.history.insert ⟨row.id, row.sourceBuildId, row.isPullRequest⟩ hhistory
        nextId := row.id + 1 }
    else none
  else none

/-- Mark a build expired, remembering the outcome it had. -/
def BuildRow.expire (row : BuildRow) : BuildRow :=
  if row.status.canTransitionTo .expired then
    { row with expiredFrom := some row.status, status := .expired }
  else if row.status = .expired then row
  else { row with expiredFrom := some row.status }

@[simp] theorem BuildRow.expire_id (row : BuildRow) : row.expire.id = row.id := by
  unfold expire
  split_ifs <;> rfl

def Store.expire (s : Store) (id : ℕ) : Store :=
  { s with builds := s.builds.modify id BuildRow.expire fun row => row.expire_id }

/-- The reruns of a deleted build have no source any more. -/
def BuildRow.forget (id : ℕ) (row : BuildRow) : BuildRow :=
  { row with sourceBuildId := row.sourceBuildId.filter (· ≠ id) }

def Store.deleteBuild (s : Store) (id : ℕ) : Store :=
  { s with
    builds := (s.builds.erase id).mapRows (·.forget id) fun _ => rfl
    recorded := s.recorded.filter (·.2 ≠ id) }

/-- Clean a build up. A build with a release keeps its row. -/
def Store.cleanupBuildRecord (s : Store) (id : ℕ) (full : Bool) : Store :=
  if full ∧ id ∉ s.released then s.deleteBuild id else s.expire id

def Store.step (s : Store) : Event → Option Store
  | .branches projectId branches =>
    some { s with projects := Function.update s.projects projectId branches }
  | .trigger projectId pipelineId trigger branch commit =>
    s.insertBuild
      { id := s.nextId, projectId, pipelineId, buildNumber := s.nextNumber projectId
        status := .queued, expiredFrom := none, triggerEvent := trigger.event
        webhook := trigger.delivery, sourceBuildId := none, commitSha := some commit.1, branch }
  | .rerun source retry => do
    let row ← s.builds.find source
    s.insertBuild
      { row with
        id := s.nextId, buildNumber := s.nextNumber row.projectId
        status := .queued, expiredFrom := none
        triggerEvent := some (if retry then "retry" else "rerun"), webhook := none
        sourceBuildId := some source }
  | .transition id status => do
    let row ← s.builds.find id
    if row.status.canTransitionTo status then
      some { s with builds := s.builds.modify id (fun row => { row with status }) fun _ => rfl }
    else none
  | .record id data => do
    let _ ← s.builds.find id
    some { s with recorded := (data, id) :: s.recorded }
  | .release id => do
    let _ ← s.builds.find id
    some { s with released := id :: s.released }
  | .cleanup id full => some (s.cleanupBuildRecord id full)

def Store.new : Store where
  builds := ⟨[], List.nodup_nil⟩
  history := ⟨[], List.nodup_nil⟩
  projects _ := ⟨none, none⟩
  recorded := []
  released := []
  nextId := 0

end Baselines

end OoreBuild
