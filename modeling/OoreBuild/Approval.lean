import OoreBuild.BuildCreation
import OoreBuild.WebhookBuilds

/-!
# Which builds wait for approval

A pipeline's policy says which events need approval, and the settings of a workflow may replace
it. The paths that create builds read these two settings separately: manual builds read both,
webhook builds drop the settings of a workflow whose signing does not resolve, and schedules and
reruns only read the policy.
-/

namespace OoreBuild

open Text

/-- The build was held for approval when it was created. -/
def Build.held (build : Build) : Bool := build.approvalRequestedAt.isSome

/-- What the settings of the workflow say instead of the pipeline's policy. -/
def approvalOverride (db : Database) (pipeline : Pipeline) (workflow : Option Text) :
    Option Bool :=
  (settingsOf db pipeline.id workflow).bind (·.approvalRequired)

/-- Whether a build of the workflow that the event starts is to wait, as the settings have it. -/
def approvalGate (db : Database) (pipeline : Pipeline) (workflow : Option Text) (event : Text) :
    Bool :=
  (approvalOverride db pipeline workflow).getD (pipeline.approvalPolicy.appliesTo event)

/-- The policy or the settings of the workflow ask for approval. -/
def StillRequires (db : Database) (pipeline : Pipeline) (workflow : Option Text) : Prop :=
  pipeline.approvalPolicy.required = true ∨ approvalOverride db pipeline workflow = some true

@[simp]
theorem held_newBuild (db : Database) (b : BuildInsertBinds) :
    (newBuild db b).held = b.approvalRequired := by
  unfold newBuild Build.held
  cases b.approvalRequired <;> rfl

/-! ## Inversion of the creation paths -/

/-- A manual build is inserted for its pipeline, with the binding of its workflow. -/
theorem createBuild_eq_ok {db after : Database} {out : ManualOutside} {req : CreateBuildRequest}
    {build : Build} (h : createBuild db out req = .ok (after, build)) :
    ∃ pipeline b file binding, db.pipelines.find req.pipelineId = some pipeline ∧
      workflowBinding db req.projectId req.pipelineId file b.snapshot.workflow = .ok binding ∧
      b.pipelineId = req.pipelineId ∧
      b.approvalRequired = binding.approvalRequired.getD
        (pipeline.approvalPolicy.appliesTo "manual") ∧
      executeBuildInsert db b = some after ∧ build = newBuild db b := by
  unfold createBuild at h
  simp only [bind_eq_ok, orError_eq_ok, mapError_eq_ok, Option.filter_eq_some_iff] at h
  obtain ⟨_, -, _, -, _, -, _, -, ⟨_, _⟩, -, pipeline, ⟨hpipeline, -⟩, _, -, _, -, _, -,
    workflow, -, file, -, binding, hbinding, _, -, _, hinsert, h⟩ := h
  cases h
  exact ⟨pipeline, _, file, binding, hpipeline, hbinding, rfl, rfl, hinsert, rfl⟩

/-- A rerun is inserted for the pipeline of its source, with the approval policy of today. -/
theorem queueRerun_eq_ok {db after : Database} {out : RerunOutside} {buildId : ℕ}
    {retrySteps : Option (List Text)} {rerun : Build}
    (h : queueRerun db out buildId retrySteps = .ok (after, rerun)) :
    ∃ source pipeline b, db.builds.find buildId = some source ∧
      db.pipelines.find source.pipelineId = some pipeline ∧
      b.approvalRequired = (pipeline.approvalPolicy.appliesTo "manual" ||
        (pipeline.approvalPolicy.required && source.held)) ∧
      executeBuildInsert db b = some after ∧ rerun = newBuild db b := by
  unfold queueRerun at h
  simp only [bind_eq_ok, orError_eq_ok] at h
  obtain ⟨source, hsource, _, -, _, -, _, -, _, -, _, -, _, -, pipeline, hpipeline, h⟩ := h
  split at h
  · rename_i hinsert
    cases h
    exact ⟨source, pipeline, _, hsource, hpipeline, rfl, hinsert, rfl⟩
  · cases h
  · cases h

/-- A scheduled build is inserted for its pipeline and default workflow. -/
theorem createScheduledBuild_eq_ok {db after : Database} {out : ScheduleOutside}
    {pipelineId : Text} {schedule : ScheduleTrigger} {build : Build}
    (h : createScheduledBuild db out pipelineId schedule = .ok (after, build)) :
    ∃ pipeline b, db.pipelines.find pipelineId = some pipeline ∧ b.pipelineId = pipelineId ∧
      b.approvalRequired = pipeline.approvalPolicy.appliesTo "schedule" ∧
      executeBuildInsert db b = some after ∧ build = newBuild db b := by
  unfold createScheduledBuild at h
  simp only [bind_eq_ok, orError_eq_ok, Option.filter_eq_some_iff] at h
  obtain ⟨pipeline, ⟨hpipeline, -⟩, _, -, _, -, _, -, _, -, _, -, _, hinsert, h⟩ := h
  cases h
  exact ⟨pipeline, _, hpipeline, rfl, rfl, hinsert, rfl⟩

/-! ## Fresh builds -/

/-- A path that creates fresh builds, with its inputs. -/
inductive Creation where
  | manual (out : ManualOutside) (req : CreateBuildRequest)
  | webhook (trigger : WebhookBuildTrigger) (reads : Reads)
  | schedule (out : ScheduleOutside) (pipelineId : Text) (cron : ScheduleTrigger)

/-- The event that the pipeline's policy is asked about. -/
def Creation.event : Creation → Text
  | manual _ _ => "manual"
  | webhook trigger _ => trigger.revision.canonicalEvent
  | schedule _ _ _ => "schedule"

/-- The build that a request created, if it did. -/
def createdBy (result : Except ApiError (Database × Build)) : List Build :=
  match result with
  | .ok (_, build) => [build]
  | .error _ => []

theorem mem_createdBy {result : Except ApiError (Database × Build)} {build : Build}
    (h : build ∈ createdBy result) : ∃ after, result = .ok (after, build) := by
  unfold createdBy at h
  split at h
  · rename_i after created
    rw [List.mem_singleton.mp h]
    exact ⟨after, rfl⟩
  · cases h

/-- The builds the path creates. -/
def Creation.created (db : Database) : Creation → List Build
  | manual out req => createdBy (createBuild db out req)
  | webhook trigger reads => (triggerBuildFromWebhook db trigger reads).created
  | schedule out pipelineId cron => createdBy (createScheduledBuild db out pipelineId cron)

/-- Whether the path gets to the settings of the workflow: by hand always, for a webhook when the
signing identities of the workflow resolve, for a schedule never. -/
def Creation.ReadsSettings (db : Database) (pipeline : Pipeline) (workflow : Option Text) :
    Creation → Prop
  | manual _ _ => True
  | webhook trigger reads => ∃ binding, workflowBinding db pipeline.projectId pipeline.id
      (fileFor trigger reads pipeline) workflow = .ok binding
  | schedule _ _ _ => False

theorem approvalRequired_of_binding {db : Database} {pipeline : Pipeline} {projectId : Text}
    {file : Option PipelineFile} {workflow : Option Text} {binding : WorkflowBinding}
    (h : workflowBinding db projectId pipeline.id file workflow = .ok binding) :
    binding.approvalRequired = approvalOverride db pipeline workflow :=
  approvalRequired_of_resolve h

/-- A gate without the override is the right one where the override does not say otherwise. -/
theorem appliesTo_eq_gate_iff {db : Database} {pipeline : Pipeline} {workflow : Option Text}
    {event : Text} :
    pipeline.approvalPolicy.appliesTo event = approvalGate db pipeline workflow event ↔
      approvalOverride db pipeline workflow = none ∨
        approvalOverride db pipeline workflow =
          some (pipeline.approvalPolicy.appliesTo event) := by
  unfold approvalGate
  cases approvalOverride db pipeline workflow with
  | none => simp
  | some required => simp [eq_comm]

/-- A manual build waits as the settings have it. -/
theorem held_of_createBuild {db after : Database} {out : ManualOutside} {req : CreateBuildRequest}
    {build : Build} {pipeline : Pipeline} (h : createBuild db out req = .ok (after, build))
    (hpipeline : db.pipelines.find build.pipelineId = some pipeline) :
    build.held = approvalGate db pipeline build.snapshot.workflow "manual" := by
  obtain ⟨pipeline', b, file, binding, hfind, hbinding, hid, happroval, -, rfl⟩ :=
    createBuild_eq_ok h
  have hsame : b.pipelineId = req.pipelineId := hid
  change db.pipelines.find b.pipelineId = some pipeline at hpipeline
  rw [hsame, hfind, Option.some.injEq] at hpipeline
  subst hpipeline
  rw [← Table.key_of_find hfind] at hbinding
  rw [held_newBuild, happroval, approvalRequired_of_binding hbinding]
  rfl

/-- A webhook build waits as the settings have it, if the workflow's identities resolve; else as
the policy has it. -/
theorem held_of_webhook {db : Database} {trigger : WebhookBuildTrigger} {reads : Reads}
    {build : Build} {pipeline : Pipeline}
    (h : build ∈ (triggerBuildFromWebhook db trigger reads).created)
    (hpipeline : db.pipelines.find build.pipelineId = some pipeline) :
    build.held = match workflowBinding db pipeline.projectId pipeline.id
        (fileFor trigger reads pipeline) build.snapshot.workflow with
      | .ok _ => approvalGate db pipeline build.snapshot.workflow trigger.revision.canonicalEvent
      | .error _ => pipeline.approvalPolicy.appliesTo trigger.revision.canonicalEvent := by
  obtain ⟨b, hb, before, rfl⟩ := request_of_created h
  obtain ⟨linked, repoUrl, pipeline', workflow, on, -, hrow, -, -, rfl⟩ := mem_requests hb
  obtain ⟨hfind, hproject⟩ := mem_pipelineRows hrow
  change db.pipelines.find pipeline'.id = some pipeline at hpipeline
  rw [hfind, Option.some.injEq] at hpipeline
  subst hpipeline
  rw [held_newBuild, hproject]
  change (webhookBinds db trigger reads linked repoUrl pipeline' workflow).approvalRequired =
    match workflowBinding db linked.project.id pipeline'.id (fileFor trigger reads pipeline')
      workflow with
    | .ok _ => approvalGate db pipeline' workflow trigger.revision.canonicalEvent
    | .error _ => pipeline'.approvalPolicy.appliesTo trigger.revision.canonicalEvent
  unfold webhookBinds
  cases hbinding : workflowBinding db linked.project.id pipeline'.id
      (fileFor trigger reads pipeline') workflow with
  | error message => rfl
  | ok binding =>
    dsimp only
    rw [approvalRequired_of_binding hbinding]
    rfl

/-- A scheduled build waits as the policy has it. -/
theorem held_of_createScheduledBuild {db after : Database} {out : ScheduleOutside}
    {pipelineId : Text} {schedule : ScheduleTrigger} {build : Build} {pipeline : Pipeline}
    (h : createScheduledBuild db out pipelineId schedule = .ok (after, build))
    (hpipeline : db.pipelines.find build.pipelineId = some pipeline) :
    build.held = pipeline.approvalPolicy.appliesTo "schedule" := by
  obtain ⟨pipeline', b, hfind, hid, happroval, -, rfl⟩ := createScheduledBuild_eq_ok h
  change db.pipelines.find b.pipelineId = some pipeline at hpipeline
  rw [hid, hfind, Option.some.injEq] at hpipeline
  subst hpipeline
  rw [held_newBuild, happroval]

/-- A fresh build waits as the settings of its workflow and the policy of its pipeline have it
exactly when its path reads these settings or they say the same as the policy. -/
theorem held_eq_gate_iff (db : Database) (path : Creation) (build : Build) (pipeline : Pipeline)
    (h : build ∈ path.created db)
    (hpipeline : db.pipelines.find build.pipelineId = some pipeline) :
    build.held = approvalGate db pipeline build.snapshot.workflow path.event ↔
      path.ReadsSettings db pipeline build.snapshot.workflow ∨
        approvalOverride db pipeline build.snapshot.workflow = none ∨
        approvalOverride db pipeline build.snapshot.workflow =
          some (pipeline.approvalPolicy.appliesTo path.event) := by
  cases path with
  | manual out req =>
    obtain ⟨after, hcreated⟩ := mem_createdBy h
    exact iff_of_true (held_of_createBuild hcreated hpipeline) (.inl trivial)
  | webhook trigger reads =>
    have hheld := held_of_webhook h hpipeline
    cases hbinding : workflowBinding db pipeline.projectId pipeline.id
        (fileFor trigger reads pipeline) build.snapshot.workflow with
    | ok binding =>
      rw [hbinding] at hheld
      exact iff_of_true hheld (.inl ⟨binding, hbinding⟩)
    | error message =>
      rw [hbinding] at hheld
      dsimp only at hheld
      rw [hheld]
      have hunread : ¬ (Creation.webhook trigger reads).ReadsSettings db pipeline
          build.snapshot.workflow := by
        rintro ⟨binding, hok⟩
        rw [hbinding] at hok
        cases hok
      rw [or_iff_right hunread]
      exact appliesTo_eq_gate_iff
  | schedule out pipelineId cron =>
    obtain ⟨after, hcreated⟩ := mem_createdBy h
    rw [held_of_createScheduledBuild hcreated hpipeline]
    exact appliesTo_eq_gate_iff.trans (or_iff_right id).symm

/-- A project whose pipeline has a policy and a default workflow, with settings for it that
override approval. -/
def overriding (required : Bool) (events : List Text) (approval : Bool) : Database :=
  { projectWith ⟨[{ anyWebhook "l" false (some ("beta" : Text)) with
      approvalPolicy := { required, events } }], List.nodup_singleton _⟩ with
    settings := ⟨[{ pipelineId := "l", workflow := "beta", androidIdentityId := none
                    iosIdentityId := none, publishEnabled := none
                    approvalRequired := some approval }], List.nodup_singleton _⟩ }

/-- The nightly schedule of `main`, whose head is known. -/
def nightly : Creation :=
  .schedule { branchCommit := fun _ => .ok "c0ffee", now := 7 } "l"
    { cron := "0 3 * * *", branch := some ("main" : Text) }

/-- A manual build of the workflow, for a caller who may start it. -/
def byHand : Creation :=
  .manual { permission := .ok (), googlePlaySecret := .ok (), branchCommit := fun _ => .ok "c0ffee"
            file := none, now := 7 }
    { projectId := "p", pipelineId := "l", branch := some ("main" : Text), commitSha := none
      changelog := none, platforms := none, workflow := none }

theorem held_eq_gate_iff_by_hand :
    (byHand.created (overriding false [] true)).map Build.held = [true] ∧
      ∀ build ∈ byHand.created (overriding false [] true), ∀ pipeline,
        (overriding false [] true).pipelines.find build.pipelineId = some pipeline →
          build.held = approvalGate (overriding false [] true) pipeline build.snapshot.workflow
            "manual" :=
  ⟨by decide +kernel, fun build h pipeline hpipeline =>
    (held_eq_gate_iff (overriding false [] true) byHand build pipeline h hpipeline).mpr
      (.inl trivial)⟩

/-- The settings of the workflow ask for approval, the policy does not: a schedule builds it
without. -/
theorem schedule_skips_override :
    (overriding false [] true).pipelines.find "l" =
        some { anyWebhook "l" false (some ("beta" : Text)) with
          approvalPolicy := { required := false, events := [] } } ∧
      (nightly.created (overriding false [] true)).map (fun build =>
        (build.pipelineId, build.snapshot.workflow, build.held)) =
          [(("l" : Text), some ("beta" : Text), false)] ∧
      approvalGate (overriding false [] true)
        { anyWebhook "l" false (some ("beta" : Text)) with
          approvalPolicy := { required := false, events := [] } } (some ("beta" : Text))
        nightly.event = true := by
  decide +kernel

/-! ## Reruns -/

/-- The rerun of a held build whose policy or workflow settings still ask for approval is held
again exactly when it is not the workflow settings alone that ask for it. -/
theorem rerun_held_iff (db after : Database) (out : RerunOutside) (buildId : ℕ)
    (retrySteps : Option (List Text)) (source rerun : Build) (pipeline : Pipeline)
    (hrerun : queueRerun db out buildId retrySteps = .ok (after, rerun))
    (hsource : db.builds.find buildId = some source) (hheld : source.held = true)
    (hpipeline : db.pipelines.find source.pipelineId = some pipeline) :
    after.builds.find rerun.id = some rerun ∧
      ((StillRequires db pipeline source.snapshot.workflow → rerun.held = true) ↔
        (approvalOverride db pipeline source.snapshot.workflow = some true →
          pipeline.approvalPolicy.required = true)) := by
  obtain ⟨source', pipeline', b, hsource', hpipeline', happroval, hinsert, rfl⟩ :=
    queueRerun_eq_ok hrerun
  rw [hsource, Option.some.injEq] at hsource'
  subst hsource'
  rw [hpipeline, Option.some.injEq] at hpipeline'
  subst hpipeline'
  refine ⟨find_newBuild hinsert, ?_⟩
  have hiff : (newBuild db b).held = true ↔ pipeline.approvalPolicy.required = true := by
    rw [held_newBuild, happroval, hheld, ApprovalPolicy.appliesTo]
    cases pipeline.approvalPolicy.required <;> simp
  rw [hiff]
  exact or_imp.trans (and_iff_right id)

/-- A finished build of the workflow that was held. -/
def heldBefore : Build :=
  { id := 1, projectId := "p", pipelineId := "l", buildNumber := 1, status := .succeeded
    branch := some ("main" : Text), commitSha := some ("c0ffee" : Text)
    snapshot := createConfigSnapshot "r" "https://git/o/r.git" (some ("beta" : Text))
    webhookId := none, sourceBuildId := none, approvalRequestedAt := some 3 }

/-- The project with this build. -/
def afterHeld (required approval : Bool) : Database :=
  { overriding required [] approval with builds := ⟨[heldBefore], List.nodup_singleton _⟩ }

/-- What a rerun of the held build comes to. -/
def rerunOf (required approval : Bool) : Except ApiError (Database × Build) :=
  queueRerun (afterHeld required approval) { permission := .ok (), now := 9 } 1 none

theorem rerun_held_iff_policy :
    ∃ after rerun, rerunOf true true = .ok (after, rerun) ∧ rerun.held = true := by
  refine ⟨_, _, rfl, ?_⟩
  refine (rerun_held_iff (afterHeld true true) _ { permission := .ok (), now := 9 } 1 none
    heldBefore _ { anyWebhook "l" false (some ("beta" : Text)) with
      approvalPolicy := { required := true, events := [] } } rfl (by decide +kernel)
      (by decide +kernel) (by decide +kernel)).2.mpr (fun _ => by decide +kernel) ?_
  exact .inl (by decide +kernel)

/-- The settings of the workflow ask for approval and had the build held, the policy does not ask
for it: the rerun is not held. -/
theorem rerun_skips_override :
    heldBefore.held = true ∧
      StillRequires (afterHeld false true)
        { anyWebhook "l" false (some ("beta" : Text)) with
          approvalPolicy := { required := false, events := [] } } heldBefore.snapshot.workflow ∧
      (afterHeld false true).pipelines.find heldBefore.pipelineId =
        some { anyWebhook "l" false (some ("beta" : Text)) with
          approvalPolicy := { required := false, events := [] } } ∧
      (createdBy (rerunOf false true)).map Build.held = [false] :=
  ⟨by decide +kernel, .inr (by decide +kernel), by decide +kernel, by decide +kernel⟩

end OoreBuild
