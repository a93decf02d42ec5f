import OoreBuild.Build

/-!
# Builds started by a webhook

A delivery is matched against every enabled pipeline of the projects linked to its repository. A
pipeline's file decides with its `on`; without a default workflow the pipeline fans out to every
workflow of its file, and without a file its trigger settings decide. A delivery that could not
read the file of a pipeline with a default workflow fails after the other pipelines had their
chance, and is processed again.
-/

namespace OoreBuild

open Text

/-- What a repository file that was read and parsed says to build creation. -/
structure PipelineFile where
  version : ℕ
  workflowNames : List Text
  triggers : Option Text → Option TriggerSpec
  /-- What the plan of a workflow signs with, and whether it uploads to App Store Connect; the
  default where it cannot be planned. -/
  signing : Option Text → SigningSpec × Bool

structure WebhookBuildTrigger where
  webhookId : Text
  integrationId : Text
  repoFullName : Text
  revision : Revision
  commitSha : Option Text
  now : ℤ
  deriving DecidableEq, Repr

def WebhookBuildTrigger.sha (trigger : WebhookBuildTrigger) : Option Text :=
  trigger.commitSha.filter (· ≠ [])

/-- What reading the file at a project's path gave: the parsed file, none, or an error. Each
path is read once. -/
abbrev Reads := Text × Text → Except Text (Option PipelineFile)

structure LinkedProject where
  project : Project
  repository : Repository
  deriving DecidableEq, Repr

def projectRows (db : Database) (trigger : WebhookBuildTrigger) : List LinkedProject :=
  db.projects.rows.filterMap fun project =>
    match project.repositoryId.bind db.repositories.find with
    | some repository =>
      if repository.integrationId = trigger.integrationId &&
          repository.fullName = trigger.repoFullName then some ⟨project, repository⟩
      else none
    | none => none

/-- The clone URL, unless it is blank. -/
def LinkedProject.repoUrl (linked : LinkedProject) : Option Text :=
  (linked.repository.repoUrl.map trim).filter (· ≠ [])

def pipelineRows (db : Database) (projectId : Text) : List Pipeline :=
  db.pipelines.rows.filter fun pipeline => pipeline.projectId = projectId && pipeline.enabled

def Pipeline.fileKey (pipeline : Pipeline) : Text × Text :=
  (pipeline.projectId, trim pipeline.configPath)

/-- The workflows a delivery may start for a pipeline, each with its `on`, or why there are
none. -/
inductive Candidates where
  | skipped
  | deferred (error : Text)
  | candidates (list : List (Option Text × Option TriggerSpec))

def candidatesOf (trigger : WebhookBuildTrigger) (reads : Reads) (pipeline : Pipeline) :
    Candidates :=
  if trigger.sha.isSome && trigger.revision.fileEvent.isNone && pipeline.workflow.isSome then
    .skipped
  else if trigger.sha.isSome && trigger.revision.fileEvent.isSome then
    match reads pipeline.fileKey with
    | .ok (some file) =>
      match pipeline.workflow with
      | some name => .candidates [(some name, file.triggers (some name))]
      | none =>
        if 1 < file.workflowNames.length then
          .candidates (file.workflowNames.map fun name => (some name, file.triggers (some name)))
        else .candidates [(none, file.triggers none)]
    | .ok none => .candidates [(pipeline.workflow, none)]
    | .error error =>
      match pipeline.workflow with
      | some _ => .deferred error
      | none => .candidates [(none, none)]
  else .candidates [(pipeline.workflow, none)]

def Candidates.list : Candidates → List (Option Text × Option TriggerSpec)
  | .candidates list => list
  | _ => []

/-- Whether the delivery starts a candidate: its `on`, or else the pipeline's trigger settings,
let the revision through, and there is a commit to check out. -/
def candidateMatches (trigger : WebhookBuildTrigger) (pipeline : Pipeline)
    (fileOn : Option TriggerSpec) : Bool :=
  trigger.sha.isSome && match fileOn with
    | some on => on.starts trigger.revision
    | none => pipeline.triggerConfig.starts trigger.revision

def fileFor (trigger : WebhookBuildTrigger) (reads : Reads) (pipeline : Pipeline) :
    Option PipelineFile :=
  if trigger.sha.isSome && trigger.revision.fileEvent.isSome then
    match reads pipeline.fileKey with
    | .ok file => file
    | .error _ => none
  else none

def workflowBinding (db : Database) (projectId pipelineId : Text) (file : Option PipelineFile)
    (workflow : Option Text) : Except Text WorkflowBinding :=
  let (signing, appStore) := file.elim (⟨none, none⟩, false) fun file => file.signing workflow
  resolveWorkflowBinding db projectId pipelineId workflow signing appStore

/-- The insert for a matching candidate. A binding that does not resolve still queues the build,
which then fails with the reason when it asks for signing. -/
def webhookBinds (db : Database) (trigger : WebhookBuildTrigger) (reads : Reads)
    (linked : LinkedProject) (repoUrl : Text) (pipeline : Pipeline) (workflow : Option Text) :
    BuildInsertBinds :=
  let resolved := workflowBinding db linked.project.id pipeline.id (fileFor trigger reads pipeline)
    workflow
  let binding := match resolved with
    | .ok binding => binding
    | .error _ => .default
  let signingError := match resolved with
    | .ok _ => none
    | .error message => some message
  { projectId := linked.project.id
    pipelineId := pipeline.id
    commitSha := trigger.commitSha
    branch := trigger.revision.branch
    snapshot := binding.writeTo
      { repositoryId := some linked.repository.id, repoUrl := some repoUrl, workflow
        retrySteps := [], androidIdentity := none, iosIdentity := none, publishDisabled := false
        signingError, runsOn := schedulingLabels pipeline.runsOn
        timeoutSecs := some (pipeline.timeoutMinutes * 60) }
    webhookId := some trigger.webhookId
    now := trigger.now
    sourceBuildId := none
    cancelPrevious := pipeline.cancelPrevious
    approvalRequired := binding.approvalRequired.getD
      (pipeline.approvalPolicy.appliesTo trigger.revision.canonicalEvent) }

def pipelineRequests (db : Database) (trigger : WebhookBuildTrigger) (reads : Reads)
    (linked : LinkedProject) (repoUrl : Text) (pipeline : Pipeline) : List BuildInsertBinds :=
  ((candidatesOf trigger reads pipeline).list.filter fun candidate =>
    candidateMatches trigger pipeline candidate.2).map fun candidate =>
      webhookBinds db trigger reads linked repoUrl pipeline candidate.1

/-- The inserts a delivery asks for, in order: by project, pipeline and candidate. They are read
from tables that an insert does not write. -/
def requests (db : Database) (trigger : WebhookBuildTrigger) (reads : Reads) :
    List BuildInsertBinds :=
  (projectRows db trigger).flatMap fun linked =>
    match linked.repoUrl with
    | none => []
    | some repoUrl => (pipelineRows db linked.project.id).flatMap
        (pipelineRequests db trigger reads linked repoUrl)

/-- The first pipeline that could not be matched for want of its file. -/
def deferredError (db : Database) (trigger : WebhookBuildTrigger) (reads : Reads) : Option Text :=
  ((projectRows db trigger).flatMap fun linked =>
    if linked.repoUrl.isSome then pipelineRows db linked.project.id else []).findSome?
      fun pipeline => match candidatesOf trigger reads pipeline with
        | .deferred error => some
            ("Could not read the pipeline file to match its triggers: " ++ error)
        | _ => none

/-- Insert one build after the other, skipping those that are not inserted. -/
def insertAll (db : Database) : List BuildInsertBinds → Database × List Build
  | [] => (db, [])
  | b :: rest =>
    match executeBuildInsert db b with
    | none => insertAll db rest
    | some db' =>
      let (after, created) := insertAll db' rest
      (after, newBuild db b :: created)

structure Delivered where
  db : Database
  created : List Build
  /-- Why the delivery is to be processed again, if it is. -/
  error : Option Text

def triggerBuildFromWebhook (db : Database) (trigger : WebhookBuildTrigger) (reads : Reads) :
    Delivered :=
  let inserted := insertAll db (requests db trigger reads)
  { db := inserted.1, created := inserted.2, error := deferredError db trigger reads }

/-! ## Processing a delivery again -/

inductive ReadOutcome where
  | succeeds
  | findsNone
  | fails (error : Text)
  deriving DecidableEq, Repr

/-- The reads of one attempt, for the files at the delivery's revision. -/
def readsOf (files : Text × Text → Option PipelineFile) (attempt : Text × Text → ReadOutcome) :
    Reads := fun key =>
  match attempt key with
  | .succeeds => .ok (files key)
  | .findsNone => .ok none
  | .fails error => .error error

/-- Process a delivery once for each attempt, and collect the builds it created. -/
def runAttempts (trigger : WebhookBuildTrigger) (files : Text × Text → Option PipelineFile) :
    List (Text × Text → ReadOutcome) → Database → Database × List Build
  | [], db => (db, [])
  | attempt :: rest, db =>
    let delivered := triggerBuildFromWebhook db trigger (readsOf files attempt)
    let (after, created) := runAttempts trigger files rest delivered.db
    (after, delivered.created ++ created)

end OoreBuild
