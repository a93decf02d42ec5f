import OoreBuild.TriggerAgreement
import OoreBuild.Webhook

/-!
# The builds of one delivery

Two facts about the builds a webhook delivery creates. Within one processing, a build stays
queued unless a later insert of the same delivery supersedes it (`created_queued_iff`). Across
the attempts at a delivery, claims keep the builds of a pipeline and workflow unique, and a
pipeline does not mix builds with and without a workflow as long as its attempts agree on whether
it fans out (`builds_of_attempts`).
-/

namespace OoreBuild

open Text

/-! ## One insert -/

/-- An insert that retries no steps fails only over its source or its claim. -/
theorem executeBuildInsert_eq_none {db : Database} {b : BuildInsertBinds}
    (h : executeBuildInsert db b = none) (hsteps : b.snapshot.retrySteps = []) :
    (sourceUnchanged db b && !alreadyClaimed db b) = false := by
  have hretry : retryInProgress db b = false := by
    unfold retryInProgress
    rw [hsteps]
    simp
  unfold executeBuildInsert at h
  split at h
  · rename_i hor
    rw [hretry] at hor
    cases hs : sourceUnchanged db b <;> cases hc : alreadyClaimed db b <;> simp [hs, hc] at hor ⊢
  · cases h

theorem buildNumber_lt {db : Database} {b : BuildInsertBinds} {id : ℕ} {row : Build}
    (h : db.builds.find id = some row) (hproject : row.projectId = b.projectId) :
    row.buildNumber < (newBuild db b).buildNumber := by
  have hmem : row.buildNumber ∈ (db.builds.rows.filter fun r => r.projectId = b.projectId).map
      Build.buildNumber :=
    List.mem_map_of_mem (List.mem_filter.mpr ⟨Table.mem_of_find h, by simpa using hproject⟩)
  exact Nat.lt_succ_of_le (le_foldr_max hmem)

/-! ## Inserts of one delivery -/

/-- A later insert cancels the build of an earlier one. -/
def Cancels (later earlier : BuildInsertBinds) : Prop :=
  later.cancelPrevious = true ∧ (later.branch.any fun branch => !branch.isEmpty) = true ∧
    earlier.pipelineId = later.pipelineId

/-- Inserts of one delivery: on one branch, of known repositories, retrying nothing, and with one
project and repository for each pipeline. -/
structure OneDelivery (reqs : List BuildInsertBinds) : Prop where
  branch : ∀ a ∈ reqs, ∀ b ∈ reqs, a.branch = b.branch
  repository : ∀ a ∈ reqs, a.snapshot.repositoryId.isSome
  retrySteps : ∀ a ∈ reqs, a.snapshot.retrySteps = []
  pipeline : ∀ a ∈ reqs, ∀ b ∈ reqs, a.pipelineId = b.pipelineId →
    a.projectId = b.projectId ∧ a.snapshot.repositoryId = b.snapshot.repositoryId

/-- The inserts that go through: those of a linked source that the delivery has not claimed. -/
def pendingFrom (db : Database) (claims : List WebhookBuildClaim) :
    List BuildInsertBinds → List BuildInsertBinds
  | [] => []
  | b :: rest =>
    if sourceUnchanged db b && !(b.webhookId.any fun id => claims.contains (b.claim id)) then
      b :: pendingFrom db ((b.webhookId.map b.claim).toList ++ claims) rest
    else pendingFrom db claims rest

def pending (db : Database) (reqs : List BuildInsertBinds) : List BuildInsertBinds :=
  pendingFrom db db.claims reqs

/-- Only the projects and repositories of the database count. -/
theorem pendingFrom_congr {db db' : Database} (hp : db'.projects = db.projects)
    (hr : db'.repositories = db.repositories) (claims : List WebhookBuildClaim)
    (reqs : List BuildInsertBinds) : pendingFrom db' claims reqs = pendingFrom db claims reqs := by
  induction reqs generalizing claims with
  | nil => rfl
  | cons b rest ih =>
    have hs : sourceUnchanged db' b = sourceUnchanged db b := by
      unfold sourceUnchanged
      rw [hp, hr]
    unfold pendingFrom
    rw [hs, ih, ih]

theorem pending_insert {db db' : Database} {b : BuildInsertBinds}
    (h : executeBuildInsert db b = some db') (rest : List BuildInsertBinds) :
    pending db (b :: rest) = b :: pending db' rest := by
  obtain ⟨hs, hc, rfl⟩ := executeBuildInsert_eq_some h
  unfold pending
  rw [pendingFrom]
  unfold alreadyClaimed at hc
  rw [hs, hc]
  simp only [Bool.not_false, Bool.and_true, if_true]
  refine congrArg (List.cons b) (Eq.symm ?_)
  apply pendingFrom_congr <;> rfl

theorem pending_skip {db : Database} {b : BuildInsertBinds} (h : executeBuildInsert db b = none)
    (hsteps : b.snapshot.retrySteps = []) (rest : List BuildInsertBinds) :
    pending db (b :: rest) = pending db rest := by
  have hnot := executeBuildInsert_eq_none h hsteps
  unfold alreadyClaimed at hnot
  unfold pending
  rw [pendingFrom, hnot]
  rfl

theorem insertAll_some {db db' : Database} {b : BuildInsertBinds} {rest : List BuildInsertBinds}
    (h : executeBuildInsert db b = some db') :
    insertAll db (b :: rest) = ((insertAll db' rest).1, newBuild db b :: (insertAll db' rest).2) := by
  rw [insertAll, h]

theorem insertAll_none {db : Database} {b : BuildInsertBinds} {rest : List BuildInsertBinds}
    (h : executeBuildInsert db b = none) : insertAll db (b :: rest) = insertAll db rest := by
  rw [insertAll, h]

/-- A finished build stays as it is. -/
theorem find_terminal {db : Database} {id : ℕ} {row : Build} (reqs : List BuildInsertBinds)
    (hrow : db.builds.find id = some row) (hterminal : row.status.isTerminal = true) :
    (insertAll db reqs).1.builds.find id = some row := by
  induction reqs generalizing db with
  | nil => exact hrow
  | cons b rest ih =>
    cases h : executeBuildInsert db b with
    | none =>
      rw [insertAll_none h]
      exact ih hrow
    | some db' =>
      rw [insertAll_some h]
      refine ih ?_
      rw [find_of_insert h hrow]
      unfold cancelSuperseded supersedes
      simp [hterminal]

/-- The row of a queued build that an insert of this delivery made. -/
structure RowOf (row : Build) (a : BuildInsertBinds) : Prop where
  status : row.status = .queued
  project : row.projectId = a.projectId
  pipeline : row.pipelineId = a.pipelineId
  branch : row.branch = a.branch
  repository : row.snapshot.repositoryId = a.snapshot.repositoryId

theorem rowOf_newBuild (db : Database) (b : BuildInsertBinds) : RowOf (newBuild db b) b :=
  ⟨rfl, rfl, rfl, rfl, rfl⟩

/-- Which rows of the delivery an insert supersedes. -/
theorem supersedes_iff {db : Database} {a b : BuildInsertBinds} {reqs : List BuildInsertBinds}
    (hone : OneDelivery reqs) (ha : a ∈ reqs) (hb : b ∈ reqs) {id : ℕ} {row : Build}
    (hrow : db.builds.find id = some row) (hof : RowOf row a) :
    supersedes b (newBuild db b) row = true ↔ Cancels b a := by
  have hid : row.id ≠ (newBuild db b).id := by
    rw [Table.key_of_find hrow]
    exact newBuild_id_ne hrow
  unfold supersedes Cancels
  simp only [Bool.and_eq_true, beq_iff_eq, decide_eq_true_eq, Bool.not_eq_true']
  constructor
  · rintro ⟨⟨⟨⟨⟨⟨⟨⟨hcancel, hbranch⟩, -⟩, hpipeline⟩, -⟩, -⟩, -⟩, -⟩, -⟩
    exact ⟨hcancel, hbranch, hof.pipeline ▸ hpipeline⟩
  · rintro ⟨hcancel, hbranch, hpipeline⟩
    obtain ⟨hproject, hrepository⟩ := hone.pipeline a ha b hb hpipeline
    refine ⟨⟨⟨⟨⟨⟨⟨⟨hcancel, hbranch⟩, ?_⟩, ?_⟩, hid⟩, ?_⟩, ?_⟩, ?_⟩, ?_⟩
    · rw [hof.branch, hone.branch a ha b hb]
    · rw [hof.pipeline, hpipeline]
    · exact buildNumber_lt hrow (hof.project.trans hproject)
    · rw [hof.repository]
      exact hone.repository a ha
    · rw [hof.repository, hrepository]
    · rw [hof.status]
      rfl

/-- A queued build of the delivery stays queued exactly when no pending insert cancels it. -/
theorem stays_queued_iff {a : BuildInsertBinds} {reqs rest : List BuildInsertBinds}
    (hone : OneDelivery reqs) (ha : a ∈ reqs) (hsub : rest ⊆ reqs) {db : Database} {id : ℕ}
    {row : Build} (hrow : db.builds.find id = some row) (hof : RowOf row a) :
    ((insertAll db rest).1.builds.find id).map Build.status = some .queued ↔
      ∀ b ∈ pending db rest, ¬ Cancels b a := by
  induction rest generalizing db row with
  | nil => simp [insertAll, hrow, hof.status, pending, pendingFrom]
  | cons b rest ih =>
    have hb : b ∈ reqs := hsub List.mem_cons_self
    have hrest : rest ⊆ reqs := fun x hx => hsub (List.mem_cons_of_mem _ hx)
    cases h : executeBuildInsert db b with
    | none =>
      rw [insertAll_none h, pending_skip h (hone.retrySteps b hb)]
      exact ih hrest hrow hof
    | some db' =>
      have hfind := find_of_insert h hrow
      have hiff := supersedes_iff hone ha hb hrow hof
      rw [insertAll_some h, pending_insert h]
      rw [List.forall_mem_cons]
      by_cases hc : Cancels b a
      · -- the row is canceled, and stays so
        rw [cancelSuperseded, if_pos (hiff.mpr hc)] at hfind
        rw [find_terminal rest hfind rfl]
        simp [hc, withdrawPending, cancelRow]
      · rw [cancelSuperseded, if_neg (fun hs => hc (hiff.mp hs))] at hfind
        rw [ih hrest hfind hof]
        simp [hc]

theorem insertAll_queued_iff {reqs rest : List BuildInsertBinds} (hone : OneDelivery reqs)
    (hsub : rest ⊆ reqs) (db : Database) :
    (∀ build ∈ (insertAll db rest).2,
      ((insertAll db rest).1.builds.find build.id).map Build.status = some .queued) ↔
      (pending db rest).Pairwise fun a b => ¬ Cancels b a := by
  induction rest generalizing db with
  | nil => simp [insertAll, pending, pendingFrom]
  | cons b rest ih =>
    have hb : b ∈ reqs := hsub List.mem_cons_self
    have hrest : rest ⊆ reqs := fun x hx => hsub (List.mem_cons_of_mem _ hx)
    cases h : executeBuildInsert db b with
    | none =>
      rw [insertAll_none h, pending_skip h (hone.retrySteps b hb)]
      exact ih hrest db
    | some db' =>
      rw [insertAll_some h, pending_insert h, List.pairwise_cons, List.forall_mem_cons]
      exact and_congr
        (stays_queued_iff hone hb hrest (find_newBuild h) (rowOf_newBuild db b))
        (ih hrest db')

/-! ## The requests of a delivery -/

/-- Where a request comes from: a linked project, one of its pipelines and a matching candidate. -/
theorem mem_requests {db : Database} {trigger : WebhookBuildTrigger} {reads : Reads}
    {b : BuildInsertBinds} (h : b ∈ requests db trigger reads) :
    ∃ linked repoUrl pipeline workflow on, linked ∈ projectRows db trigger ∧
      pipeline ∈ pipelineRows db linked.project.id ∧
      (workflow, on) ∈ (candidatesOf trigger reads pipeline).list ∧
      candidateMatches trigger pipeline on = true ∧
      b = webhookBinds db trigger reads linked repoUrl pipeline workflow := by
  unfold requests at h
  obtain ⟨linked, hlinked, hb⟩ := List.mem_flatMap.mp h
  split at hb
  · cases hb
  · rename_i repoUrl _
    obtain ⟨pipeline, hpipeline, hb⟩ := List.mem_flatMap.mp hb
    unfold pipelineRequests at hb
    obtain ⟨⟨workflow, on⟩, hcandidate, hb⟩ := List.mem_map.mp hb
    obtain ⟨hmem, hmatches⟩ := List.mem_filter.mp hcandidate
    exact ⟨linked, repoUrl, pipeline, workflow, on, hlinked, hpipeline, hmem, hmatches, hb.symm⟩

/-- A linked project is its row, with the repository it names. -/
theorem mem_projectRows {db : Database} {trigger : WebhookBuildTrigger} {linked : LinkedProject}
    (h : linked ∈ projectRows db trigger) :
    db.projects.find linked.project.id = some linked.project ∧
      linked.project.repositoryId.bind db.repositories.find = some linked.repository := by
  unfold projectRows at h
  obtain ⟨project, hproject, hlinked⟩ := List.mem_filterMap.mp h
  split at hlinked
  · rename_i repository hrepository
    split at hlinked
    · cases hlinked
      exact ⟨Table.find_of_mem hproject, hrepository⟩
    · cases hlinked
  · cases hlinked

theorem mem_pipelineRows {db : Database} {projectId : Text} {pipeline : Pipeline}
    (h : pipeline ∈ pipelineRows db projectId) :
    db.pipelines.find pipeline.id = some pipeline ∧ pipeline.projectId = projectId := by
  obtain ⟨hmem, hproject⟩ := List.mem_filter.mp h
  simp only [Bool.and_eq_true, decide_eq_true_eq] at hproject
  exact ⟨Table.find_of_mem hmem, hproject.1⟩

/-- The requests of a delivery for one pipeline are for one project and repository. -/
theorem oneDelivery_requests (db : Database) (trigger : WebhookBuildTrigger) (reads : Reads) :
    OneDelivery (requests db trigger reads) where
  branch a ha b hb := by
    obtain ⟨_, _, _, _, _, -, -, -, -, rfl⟩ := mem_requests ha
    obtain ⟨_, _, _, _, _, -, -, -, -, rfl⟩ := mem_requests hb
    rfl
  repository a ha := by
    obtain ⟨_, _, _, _, _, -, -, -, -, rfl⟩ := mem_requests ha
    rfl
  retrySteps a ha := by
    obtain ⟨_, _, _, _, _, -, -, -, -, rfl⟩ := mem_requests ha
    rfl
  pipeline a ha b hb hsame := by
    obtain ⟨linked, _, pipeline, _, _, hlinked, hpipeline, -, -, rfl⟩ := mem_requests ha
    obtain ⟨linked', _, pipeline', _, _, hlinked', hpipeline', -, -, rfl⟩ := mem_requests hb
    obtain ⟨hfind, hproject⟩ := mem_pipelineRows hpipeline
    obtain ⟨hfind', hproject'⟩ := mem_pipelineRows hpipeline'
    obtain ⟨hrow, hrepository⟩ := mem_projectRows hlinked
    obtain ⟨hrow', hrepository'⟩ := mem_projectRows hlinked'
    change pipeline.id = pipeline'.id at hsame
    rw [hsame, hfind', Option.some.injEq] at hfind
    have hid : linked.project.id = linked'.project.id := by rw [← hproject, ← hproject', hfind]
    rw [hid, hrow', Option.some.injEq] at hrow
    rw [← hrow, hrepository', Option.some.injEq] at hrepository
    refine ⟨hid, ?_⟩
    change some linked.repository.id = some linked'.repository.id
    rw [hrepository]

/-- No pipeline that cancels its previous builds gets two builds from the delivery on a branch:
of the requests that go through, none cancels the build of an earlier one. -/
def SparesItsBuilds (db : Database) (trigger : WebhookBuildTrigger) (reads : Reads) : Prop :=
  (pending db (requests db trigger reads)).Pairwise fun a b => ¬ Cancels b a

/-- Every build a delivery creates is still queued when it has been processed, exactly when no
canceling pipeline gets two builds on a branch. -/
theorem created_queued_iff (db : Database) (trigger : WebhookBuildTrigger) (reads : Reads) :
    (∀ build ∈ (triggerBuildFromWebhook db trigger reads).created,
      ((triggerBuildFromWebhook db trigger reads).db.builds.find build.id).map Build.status =
        some .queued) ↔ SparesItsBuilds db trigger reads :=
  insertAll_queued_iff (oneDelivery_requests db trigger reads) (List.Subset.refl _) db

/-- A push to `main` of the repository below. -/
def mainPush : WebhookBuildTrigger :=
  { webhookId := "w", integrationId := "i", repoFullName := "o/r", revision := .ofPush "main" none
    commitSha := some ("c0ffee" : Text), now := 0 }

/-- A pipeline of the project below that builds every webhook from `.oore.yaml`. -/
def anyWebhook (id : Text) (cancelPrevious : Bool) (workflow : Option Text) : Pipeline :=
  { id, projectId := "p", enabled := true, configPath := ".oore.yaml", platforms := []
    triggerConfig :=
      { events := [], branches := [], tags := [], paths := [], pathsIgnore := [], schedules := [] }
    cancelPrevious, approvalPolicy := { required := false, events := [] }, workflow }

theorem nodup_projectRow : (([⟨"p", some ("r" : Text), none⟩] : List Project).map Project.id).Nodup :=
  List.nodup_singleton _

theorem nodup_repositoryRow : (([⟨"r", "i", "o/r", some ("https://git/o/r.git" : Text)⟩] :
    List Repository).map Repository.id).Nodup := List.nodup_singleton _

/-- One project with these pipelines, and no builds. -/
def projectWith (pipelines : Table Pipeline.id) : Database :=
  { projects := ⟨[{ id := "p", repositoryId := some ("r" : Text), defaultBranch := none }],
      nodup_projectRow⟩
    repositories := ⟨[{ id := "r", integrationId := "i", fullName := "o/r"
                        repoUrl := some ("https://git/o/r.git" : Text) }], nodup_repositoryRow⟩
    pipelines, settings := ⟨[], Text.nodup_pairs_nil⟩, identities := ⟨[], List.nodup_nil⟩
    builds := ⟨[], List.nodup_nil⟩, claims := [] }

/-- An `on` for every push. -/
def onEveryPush : TriggerSpec :=
  { push := some BranchTrigger.allBranches, pullRequest := none, tag := [], paths := [] }

/-- A file with two workflows that run on every push. -/
def twoWorkflows : PipelineFile :=
  { version := 2
    workflowNames := [("beta" : Text), ("release" : Text)]
    triggers := fun _ => some onEveryPush
    signing := fun _ => (⟨none, none⟩, false) }

/-- One canceling pipeline whose file has two workflows: the second build of the delivery cancels
the first. -/
theorem fan_out_cancels_itself :
    let delivered := triggerBuildFromWebhook
      (projectWith ⟨[anyWebhook "l" true none], List.nodup_singleton _⟩) mainPush
      fun _ => .ok (some twoWorkflows)
    delivered.created.map (fun build => (build.snapshot.workflow,
        (delivered.db.builds.find build.id).map Build.status)) =
      [(some ("beta" : Text), some .canceled), (some ("release" : Text), some .queued)] := by
  decide +kernel

/-! ## Attempts at one delivery -/

/-- The delivery fans the pipeline out to the workflows of its file. -/
def fansOut (trigger : WebhookBuildTrigger) (reads : Reads) (pipeline : Pipeline) : Bool :=
  trigger.sha.isSome && trigger.revision.fileEvent.isSome && pipeline.workflow.isNone &&
    match reads pipeline.fileKey with
    | .ok (some file) => decide (1 < file.workflowNames.length)
    | _ => false

/-- The workflows of a pipeline's candidates: its default workflow, those of its file, or none. -/
theorem workflow_of_candidates {trigger : WebhookBuildTrigger} {reads : Reads}
    {pipeline : Pipeline} {workflow : Option Text}
    (h : workflow ∈ (candidatesOf trigger reads pipeline).list.map Prod.fst) :
    (∃ name, pipeline.workflow = some name ∧ workflow = some name) ∨
      (pipeline.workflow = none ∧ fansOut trigger reads pipeline = false ∧ workflow = none) ∨
      (pipeline.workflow = none ∧ fansOut trigger reads pipeline = true ∧
        ∃ file, reads pipeline.fileKey = .ok (some file) ∧ ∃ name ∈ file.workflowNames,
          workflow = some name) := by
  unfold candidatesOf at h
  split at h
  · cases h
  · rename_i hnotSkipped
    split at h
    · rename_i hreads
      split at h
      · rename_i file hfile
        split at h
        · rename_i name hname
          exact .inl ⟨name, hname, by simpa [Candidates.list] using h⟩
        · rename_i hnone
          split at h
          · rename_i hmany
            obtain ⟨name, hname, rfl⟩ := by simpa [Candidates.list] using h
            refine .inr (.inr ⟨hnone, ?_, file, hfile, name, hname, rfl⟩)
            simp [fansOut, hreads, hnone, hfile, hmany]
          · rename_i hfew
            refine .inr (.inl ⟨hnone, ?_, by simpa [Candidates.list] using h⟩)
            simp [fansOut, hfile, hfew]
      · rename_i hfile
        cases hworkflow : pipeline.workflow with
        | some name => exact .inl ⟨name, rfl, by simpa [Candidates.list, hworkflow] using h⟩
        | none =>
          refine .inr (.inl ⟨rfl, ?_, by simpa [Candidates.list, hworkflow] using h⟩)
          simp [fansOut, hfile]
      · rename_i error hfile
        split at h
        · cases h
        · rename_i hnone
          refine .inr (.inl ⟨hnone, ?_, by simpa [Candidates.list] using h⟩)
          simp [fansOut, hfile]
    · rename_i hnoFile
      cases hworkflow : pipeline.workflow with
      | some name => exact .inl ⟨name, rfl, by simpa [Candidates.list, hworkflow] using h⟩
      | none =>
        refine .inr (.inl ⟨rfl, ?_, by simpa [Candidates.list, hworkflow] using h⟩)
        rw [fansOut, Bool.eq_false_of_not_eq_true hnoFile]
        rfl

/-- Two candidate lists of a pipeline that fan out alike, from files that are the same where both
were read, hold the same workflows. -/
theorem candidates_agree {trigger : WebhookBuildTrigger} {reads reads' : Reads}
    {pipeline : Pipeline} {workflow workflow' : Option Text}
    (hfiles : ∀ file file', reads pipeline.fileKey = .ok (some file) →
      reads' pipeline.fileKey = .ok (some file') → file = file')
    (hsteady : pipeline.workflow = none →
      fansOut trigger reads pipeline = fansOut trigger reads' pipeline)
    (h : workflow ∈ (candidatesOf trigger reads pipeline).list.map Prod.fst)
    (h' : workflow' ∈ (candidatesOf trigger reads' pipeline).list.map Prod.fst) :
    workflow' ∈ (candidatesOf trigger reads pipeline).list.map Prod.fst ∧
      workflow'.isNone = workflow.isNone := by
  obtain ⟨name, hname, rfl⟩ | ⟨hnone, hfan, rfl⟩ | ⟨hnone, hfan, file, hfile, name, hname, rfl⟩ :=
    workflow_of_candidates h <;>
  obtain ⟨name', hname', rfl⟩ | ⟨hnone', hfan', rfl⟩ |
    ⟨hnone', hfan', file', hfile', name', hname', rfl⟩ := workflow_of_candidates h'
  · rw [hname, Option.some.injEq] at hname'
    exact ⟨hname' ▸ h, rfl⟩
  · simp [hname] at hnone'
  · simp [hname] at hnone'
  · simp [hnone] at hname'
  · exact ⟨h, rfl⟩
  · rw [hsteady hnone, hfan'] at hfan
    cases hfan
  · simp [hnone] at hname'
  · rw [hsteady hnone, hfan'] at hfan
    cases hfan
  · obtain rfl := hfiles file file' hfile hfile'
    refine ⟨?_, rfl⟩
    simp only [fansOut, hnone, hfile, Bool.and_eq_true, decide_eq_true_eq] at hfan
    have hskip : trigger.revision.fileEvent.isNone = false := by
      cases he : trigger.revision.fileEvent with
      | none => simp [he] at hfan
      | some event => rfl
    simp [candidatesOf, hfile, hnone, hfan.1.1.1, hfan.1.1.2, hfan.2, Candidates.list, hname']

/-- The claim of a build on a delivery. -/
def claimOf (webhookId : Text) (build : Build) : WebhookBuildClaim :=
  { webhookId, pipelineId := build.pipelineId, workflow := build.snapshot.workflow.getD "" }

/-- Everything an insert leaves alone. -/
theorem insertAll_frame (db : Database) (reqs : List BuildInsertBinds) :
    (insertAll db reqs).1.projects = db.projects ∧
      (insertAll db reqs).1.repositories = db.repositories ∧
      (insertAll db reqs).1.pipelines = db.pipelines := by
  induction reqs generalizing db with
  | nil => exact ⟨rfl, rfl, rfl⟩
  | cons b rest ih =>
    cases h : executeBuildInsert db b with
    | none =>
      rw [insertAll_none h]
      exact ih db
    | some db' =>
      rw [insertAll_some h]
      obtain ⟨-, -, rfl⟩ := executeBuildInsert_eq_some h
      exact ih _

/-- A created build is that of a request. -/
theorem request_of_created {db : Database} {reqs : List BuildInsertBinds} {build : Build}
    (h : build ∈ (insertAll db reqs).2) :
    ∃ b ∈ reqs, ∃ before, build = newBuild before b := by
  induction reqs generalizing db with
  | nil => cases h
  | cons b rest ih =>
    cases hinsert : executeBuildInsert db b with
    | none =>
      rw [insertAll_none hinsert] at h
      obtain ⟨b', hb', hbuild⟩ := ih h
      exact ⟨b', List.mem_cons_of_mem _ hb', hbuild⟩
    | some db' =>
      rw [insertAll_some hinsert] at h
      rcases List.mem_cons.mp h with rfl | h
      · exact ⟨b, List.mem_cons_self, db, rfl⟩
      · obtain ⟨b', hb', hbuild⟩ := ih h
        exact ⟨b', List.mem_cons_of_mem _ hb', hbuild⟩

/-- What the claims of one delivery say about the builds it created: each has its own claim, none
of which was taken before, and all are taken afterwards. -/
structure Claimed (webhookId : Text) (before after : List WebhookBuildClaim)
    (created : List Build) : Prop where
  kept : before ⊆ after
  taken : ∀ build ∈ created, claimOf webhookId build ∈ after
  fresh : ∀ build ∈ created, claimOf webhookId build ∉ before
  nodup : (created.map (claimOf webhookId)).Nodup

theorem Claimed.append {webhookId : Text} {c₀ c₁ c₂ : List WebhookBuildClaim}
    {first second : List Build} (h₁ : Claimed webhookId c₀ c₁ first)
    (h₂ : Claimed webhookId c₁ c₂ second) : Claimed webhookId c₀ c₂ (first ++ second) where
  kept := List.Subset.trans h₁.kept h₂.kept
  taken build hbuild := by
    rcases List.mem_append.mp hbuild with h | h
    · exact h₂.kept (h₁.taken build h)
    · exact h₂.taken build h
  fresh build hbuild := by
    rcases List.mem_append.mp hbuild with h | h
    · exact h₁.fresh build h
    · exact fun hmem => h₂.fresh build h (h₁.kept hmem)
  nodup := by
    rw [List.map_append]
    refine List.Nodup.append h₁.nodup h₂.nodup ?_
    intro claim hfirst hsecond
    obtain ⟨a, ha, rfl⟩ := List.mem_map.mp hfirst
    obtain ⟨b, hb, heq⟩ := List.mem_map.mp hsecond
    exact h₂.fresh b hb (heq ▸ h₁.taken a ha)

theorem claimed_insert {webhookId : Text} {db db' : Database} {b : BuildInsertBinds}
    (h : executeBuildInsert db b = some db') (hwebhook : b.webhookId = some webhookId) :
    Claimed webhookId db.claims db'.claims [newBuild db b] := by
  obtain ⟨-, hfree, rfl⟩ := executeBuildInsert_eq_some h
  have hclaim : claimOf webhookId (newBuild db b) = b.claim webhookId := rfl
  simp only [alreadyClaimed, hwebhook, Option.any_some, List.contains_eq_mem,
    decide_eq_false_iff_not] at hfree
  rw [hwebhook]
  refine ⟨List.subset_append_right _ _, ?_, ?_, List.nodup_singleton _⟩
  · intro build hbuild
    rw [List.mem_singleton.mp hbuild, hclaim]
    exact List.mem_cons_self
  · intro build hbuild
    rw [List.mem_singleton.mp hbuild, hclaim]
    exact hfree

theorem claimed_insertAll {webhookId : Text} {reqs : List BuildInsertBinds}
    (hwebhook : ∀ b ∈ reqs, b.webhookId = some webhookId) (db : Database) :
    Claimed webhookId db.claims (insertAll db reqs).1.claims (insertAll db reqs).2 := by
  induction reqs generalizing db with
  | nil => exact ⟨List.Subset.refl _, by simp [insertAll], by simp [insertAll], List.nodup_nil⟩
  | cons b rest ih =>
    have hrest : ∀ b ∈ rest, b.webhookId = some webhookId :=
      fun b' hb' => hwebhook b' (List.mem_cons_of_mem _ hb')
    cases h : executeBuildInsert db b with
    | none =>
      rw [insertAll_none h]
      exact ih hrest db
    | some db' =>
      rw [insertAll_some h]
      exact (claimed_insert h (hwebhook b List.mem_cons_self)).append (ih hrest db')

theorem webhookId_of_requests {db : Database} {trigger : WebhookBuildTrigger} {reads : Reads} :
    ∀ b ∈ requests db trigger reads, b.webhookId = some trigger.webhookId := by
  intro b hb
  obtain ⟨_, _, _, _, _, -, -, -, -, rfl⟩ := mem_requests hb
  rfl

/-- Processing a delivery changes no pipelines. -/
theorem pipelines_delivered (db : Database) (trigger : WebhookBuildTrigger) (reads : Reads) :
    (triggerBuildFromWebhook db trigger reads).db.pipelines = db.pipelines :=
  (insertAll_frame db _).2.2

/-- A created build has a workflow of its pipeline's candidates. -/
theorem candidate_of_created {db : Database} {trigger : WebhookBuildTrigger} {reads : Reads}
    {build : Build} (h : build ∈ (triggerBuildFromWebhook db trigger reads).created) :
    ∃ pipeline, db.pipelines.find build.pipelineId = some pipeline ∧
      build.snapshot.workflow ∈ (candidatesOf trigger reads pipeline).list.map Prod.fst := by
  obtain ⟨b, hb, before, rfl⟩ := request_of_created h
  obtain ⟨linked, _, pipeline, workflow, on, -, hrow, hcandidate, -, rfl⟩ := mem_requests hb
  exact ⟨pipeline, (mem_pipelineRows hrow).1, List.mem_map.mpr ⟨(workflow, on), hcandidate, rfl⟩⟩

theorem candidate_of_runAttempts {trigger : WebhookBuildTrigger}
    {files : Text × Text → Option PipelineFile} {attempts : List (Text × Text → ReadOutcome)}
    {db : Database} {build : Build} (h : build ∈ (runAttempts trigger files attempts db).2) :
    ∃ attempt ∈ attempts, ∃ pipeline, db.pipelines.find build.pipelineId = some pipeline ∧
      build.snapshot.workflow ∈
        (candidatesOf trigger (readsOf files attempt) pipeline).list.map Prod.fst := by
  induction attempts generalizing db with
  | nil => cases h
  | cons attempt rest ih =>
    rcases List.mem_append.mp h with h | h
    · exact ⟨attempt, List.mem_cons_self, candidate_of_created h⟩
    · obtain ⟨attempt', hattempt', hbuild⟩ := ih h
      rw [pipelines_delivered] at hbuild
      exact ⟨attempt', List.mem_cons_of_mem _ hattempt', hbuild⟩

theorem claimed_runAttempts (trigger : WebhookBuildTrigger)
    (files : Text × Text → Option PipelineFile) (attempts : List (Text × Text → ReadOutcome))
    (db : Database) :
    Claimed trigger.webhookId db.claims (runAttempts trigger files attempts db).1.claims
      (runAttempts trigger files attempts db).2 := by
  induction attempts generalizing db with
  | nil => exact ⟨List.Subset.refl _, by simp [runAttempts], by simp [runAttempts], List.nodup_nil⟩
  | cons attempt rest ih =>
    exact (claimed_insertAll webhookId_of_requests db).append (ih _)

/-- Whether a pipeline without a default workflow fans out does not change from one attempt to
another. -/
def SteadyFanOut (db : Database) (trigger : WebhookBuildTrigger)
    (files : Text × Text → Option PipelineFile) (attempts : List (Text × Text → ReadOutcome)) :
    Prop :=
  ∀ pipeline ∈ db.pipelines.rows, pipeline.workflow = none →
    ∀ attempt ∈ attempts, ∀ attempt' ∈ attempts,
      fansOut trigger (readsOf files attempt) pipeline =
        fansOut trigger (readsOf files attempt') pipeline

/-- The builds that the attempts at a delivery create for a pipeline are those of a single
candidate list, with or without a workflow, and no pipeline and workflow is built twice. -/
theorem builds_of_attempts (db : Database) (trigger : WebhookBuildTrigger)
    (files : Text × Text → Option PipelineFile) (attempts : List (Text × Text → ReadOutcome))
    (hsteady : SteadyFanOut db trigger files attempts) :
    (∀ build ∈ (runAttempts trigger files attempts db).2,
      ∃ attempt ∈ attempts, ∃ pipeline, db.pipelines.find build.pipelineId = some pipeline ∧
        ∀ other ∈ (runAttempts trigger files attempts db).2,
          other.pipelineId = build.pipelineId →
            other.snapshot.workflow ∈
              (candidatesOf trigger (readsOf files attempt) pipeline).list.map Prod.fst ∧
            other.snapshot.workflow.isNone = build.snapshot.workflow.isNone) ∧
      ((runAttempts trigger files attempts db).2.map fun build =>
        (build.pipelineId, build.snapshot.workflow)).Nodup := by
  constructor
  · intro build hbuild
    obtain ⟨attempt, hattempt, pipeline, hpipeline, hmem⟩ := candidate_of_runAttempts hbuild
    refine ⟨attempt, hattempt, pipeline, hpipeline, fun other hother hsame => ?_⟩
    obtain ⟨attempt', hattempt', pipeline', hpipeline', hmem'⟩ := candidate_of_runAttempts hother
    rw [hsame, hpipeline, Option.some.injEq] at hpipeline'
    rw [← hpipeline'] at hmem'
    refine candidates_agree (fun file file' hfile hfile' => ?_) (fun hnone => ?_) hmem hmem'
    · unfold readsOf at hfile hfile'
      cases ha : attempt pipeline.fileKey <;> cases ha' : attempt' pipeline.fileKey <;>
        simp_all
    · exact hsteady pipeline (Table.mem_of_find hpipeline) hnone attempt hattempt attempt' hattempt'
  · have hclaims := (claimed_runAttempts trigger files attempts db).nodup
    refine List.Nodup.of_map (fun key : Text × Option Text =>
      ({ webhookId := trigger.webhookId, pipelineId := key.1, workflow := key.2.getD "" } :
        WebhookBuildClaim)) ?_
    rw [List.map_map]
    exact hclaims

/-- A pipeline without a default workflow and one with, which read the same file. -/
def twoPipelines : Database :=
  projectWith ⟨[anyWebhook "l" false none, anyWebhook "m" false (some ("beta" : Text))], by decide⟩

theorem builds_of_attempts_read_twice :
    SteadyFanOut twoPipelines mainPush (fun _ => some twoWorkflows)
        [fun _ => .succeeds, fun _ => .succeeds] ∧
      (runAttempts mainPush (fun _ => some twoWorkflows) [fun _ => .succeeds, fun _ => .succeeds]
        twoPipelines).2.map (fun build => (build.pipelineId, build.snapshot.workflow)) =
          [(("l" : Text), some ("beta" : Text)), (("l" : Text), some ("release" : Text)),
            (("m" : Text), some ("beta" : Text))] ∧
      ((runAttempts mainPush (fun _ => some twoWorkflows) [fun _ => .succeeds, fun _ => .succeeds]
        twoPipelines).2.map fun build => (build.pipelineId, build.snapshot.workflow)).Nodup := by
  have hsteady : SteadyFanOut twoPipelines mainPush (fun _ => some twoWorkflows)
      [fun _ => .succeeds, fun _ => .succeeds] := by
    intro pipeline _ _ attempt hattempt attempt' hattempt'
    have h : attempt = fun _ => .succeeds := by simpa using hattempt
    have h' : attempt' = fun _ => .succeeds := by simpa using hattempt'
    rw [h, h']
  exact ⟨hsteady, by decide +kernel, (builds_of_attempts _ _ _ _ hsteady).2⟩

/-- A delivery whose file cannot be read at first builds the pipeline without a default workflow
from its trigger settings, fails for the other one, and on the next attempt fans the first out
as well. -/
theorem fallback_then_fan_out :
    (triggerBuildFromWebhook twoPipelines mainPush
        (readsOf (fun _ => some twoWorkflows) fun _ => .fails "timeout")).error =
      some ("Could not read the pipeline file to match its triggers: timeout" : Text) ∧
    ((runAttempts mainPush (fun _ => some twoWorkflows) [fun _ => .fails "timeout",
        fun _ => .succeeds] twoPipelines).2.filter fun build =>
        build.pipelineId = ("l" : Text)).map
          (fun build => build.snapshot.workflow) =
      [none, some ("beta" : Text), some ("release" : Text)] := by
  decide +kernel

end OoreBuild
