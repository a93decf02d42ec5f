import OoreBuild.CommitChecks

/-!
# The newest build's result

The check of a platform ends with the result of the newest build, no older build overwrites it, and
no result is replaced by `expired`. This holds while retention waits for a result to be reported,
builds that share a check are told apart by the seconds they were created in, and the posts of a
build that fail in a row all belong to one status (`checks_end_with_newest`).
-/

namespace OoreBuild

namespace Checks

open Text Steps

/-! ## What must hold -/

def BuildRow.key (row : BuildRow) (platform : Text) : CheckKey :=
  ⟨row.pipelineId, row.commitSha, platform⟩

/-- The state that the source shows for a check. -/
def Store.lastPost (s : Store) (key : CheckKey) : Option Posted :=
  (s.posted.filter (·.key = key)).getLast?

/-- Retention waits until a result is reported; no older build comes to a check while a newer one
created in the same second owns it; no post is refused for good; and a build's last attempt only
fails for a status that all its attempts were for. -/
def Store.ReportsFirst (s : Store) : Event → Prop
  | .write id .expired => ∀ row, s.builds.find id = some row → row.status.isTerminal = true →
    row.reportedStatus = some row.status
  | .advance answer => ∀ row rows now stage, s.report = some ⟨row :: rows, now, stage⟩ →
    match stage with
    | .check ctx (platform :: _) => ∀ owner other, s.owner (ctx.key platform) = some owner →
      s.builds.find owner = some other → ctx.buildNumber < other.buildNumber →
        other.createdAt ≠ ctx.createdAt
    | .post ctx _ _ => match answer with
      | .ok _ => True
      | .error .refused => False
      | .error .fails => row.attempts + 1 < maxReportAttempts ∨ ctx.status = row.status ∧
        maxReportAttempts ≤ s.failedPosts.count (row.id, row.status) + 1
    | _ => True
  | _ => True

/-! ## The invariant -/

/-- A terminal status was reported. -/
def isReported (reported : Option BuildStatus) : Bool := reported.any (·.isTerminal)

/-- The check shows this status of the build, or a newer one. -/
def Store.Covered (s : Store) (key : CheckKey) (buildNumber buildId : ℕ) (status : BuildStatus) :
    Prop :=
  ∃ post, s.lastPost key = some post ∧
    (buildNumber < post.buildNumber ∨ post.buildId = buildId ∧ post.status = status)

structure RowOk (s : Store) (row : BuildRow) : Prop where
  unfinished : row.status.isTerminal = false →
    s.outcome row.id = none ∧ isReported row.reportedStatus = false
  ended : row.status.isTerminal = true → ∃ outcome, s.outcome row.id = some outcome ∧
    (row.status = outcome ∨ row.status = .expired ∧ isReported row.reportedStatus = true)
  reported : ∀ r, row.reportedStatus = some r → r.isTerminal = true →
    row.status = r ∨ row.status = .expired
  settled : isReported row.reportedStatus = true → ∀ outcome, s.outcome row.id = some outcome →
    (∃ status, (row.id, status) ∈ s.givenUp) ∨
      ∀ platform ∈ row.platforms, s.Covered (row.key platform) row.buildNumber row.id outcome

/-- What holds of the tables whatever the loop is at. -/
structure TablesOk (s : Store) : Prop where
  rows : ∀ row ∈ s.builds.rows, RowOk s row
  numbers : ∀ a ∈ s.builds.rows, ∀ b ∈ s.builds.rows, a.pipelineId = b.pipelineId →
    (a.buildNumber = b.buildNumber → a.id = b.id) ∧
      (a.buildNumber < b.buildNumber → a.createdAt ≤ b.createdAt)
  posted : ∀ p ∈ s.posted, (∃ build, s.builds.find p.buildId = some build ∧
    p.buildNumber = build.buildNumber ∧ p.key.platform ∈ build.platforms ∧
      p.key = build.key p.key.platform) ∧
    (p.status.isTerminal = true → s.outcome p.buildId = some p.status)
  order : s.posted.Pairwise fun p q => p.key = q.key → p.buildNumber ≤ q.buildNumber
  givenUp : ∀ p ∈ s.givenUp, maxReportAttempts ≤ s.failedPosts.count p
  unused : ∀ id, s.builds.find id = none → s.outcome id = none

/-- The check whose owner is still to be written down. -/
def Stage.owning : Stage → Option CheckKey
  | .own ctx platform _ => some (ctx.key platform)
  | _ => none

/-- Apart from one check, the owner is the build that posted last. -/
def OwnersOk (s : Store) (owning : Option CheckKey) : Prop :=
  ∀ key, owning ≠ some key → s.owner key = (s.lastPost key).map (·.buildId)

/-- What the scan read of a build still holds. -/
def ScanOk (s : Store) (row : ScanRow) : Prop :=
  row.reported ≠ some row.status ∧
    (isReported row.reported = true → row.status.isTerminal = true) ∧
    ∃ build, s.builds.find row.id = some build ∧ build.reportedStatus = row.reported ∧
      (row.status.isTerminal = true → build.status = row.status)

/-- The build is reported as it was loaded, with its first result if it has one. -/
structure ContextOk (s : Store) (row : ScanRow) (ctx : BuildContext) : Prop where
  loaded : ∃ build, s.builds.find row.id = some build ∧
    ctx = { build.context with status := ctx.status }
  result : ctx.status.isTerminal = true → s.outcome row.id = some ctx.status
  status : row.status.isTerminal = true → ctx.status = row.status
  notReported : isReported row.reported = false

/-- These platforms are left, and the others are done. -/
def DoneBut (s : Store) (ctx : BuildContext) (platforms : List Text) : Prop :=
  platforms ⊆ ctx.platforms ∧ ∀ platform ∈ ctx.platforms, platform ∉ platforms →
    s.Covered (ctx.key platform) ctx.buildNumber ctx.buildId ctx.status

def StageOk (s : Store) (row : ScanRow) : Stage → Prop
  | .load => True
  | .check ctx platforms => ContextOk s row ctx ∧ DoneBut s ctx platforms
  | .post ctx platform rest => ContextOk s row ctx ∧ DoneBut s ctx (platform :: rest) ∧
    ∀ post, s.lastPost (ctx.key platform) = some post → post.buildNumber ≤ ctx.buildNumber
  | .own ctx platform rest => ContextOk s row ctx ∧ DoneBut s ctx rest ∧
    (s.lastPost (ctx.key platform)).map (·.buildId) = some ctx.buildId
  | .mark (.ok _) => row.status.isTerminal = true → isReported row.reported = true ∨
    s.outcome row.id = some row.status ∧ ∀ build, s.builds.find row.id = some build →
      ∀ platform ∈ build.platforms,
        s.Covered (build.key platform) build.buildNumber build.id row.status
  | .mark (.error .fails) => row.attempts + 1 < maxReportAttempts ∨
    maxReportAttempts ≤ s.failedPosts.count (row.id, row.status)
  | .mark (.error .refused) => False

structure ReportOk (s : Store) (row : ScanRow) (rows : List ScanRow) (stage : Stage) : Prop where
  nodup : ((row :: rows).map (·.id)).Nodup
  rows : ∀ r ∈ row :: rows, ScanOk s r
  stage : StageOk s row stage

/-- Where the loop is. -/
inductive LoopOk (s : Store) : Option Report → Prop where
  | idle (owners : OwnersOk s none) : LoopOk s none
  | busy {row : ScanRow} {rows : List ScanRow} {now : ℤ} {stage : Stage}
      (owners : OwnersOk s stage.owning) (report : ReportOk s row rows stage) :
      LoopOk s (some ⟨row :: rows, now, stage⟩)

structure Store.Sound (s : Store) : Prop where
  tables : TablesOk s
  loop : LoopOk s s.report

/-! ## The posts of a check -/

theorem mem_of_lastPost {s : Store} {key : CheckKey} {post : Posted}
    (h : s.lastPost key = some post) : post ∈ s.posted ∧ post.key = key := by
  have hmem := List.mem_filter.mp (List.mem_of_getLast? h)
  exact ⟨hmem.1, of_decide_eq_true hmem.2⟩

theorem lastPost_addPosted (s : Store) (ctx : BuildContext) (platform : Text) (key : CheckKey) :
    (s.addPosted ctx platform).lastPost key = if ctx.key platform = key then
      some ⟨ctx.key platform, ctx.buildId, ctx.buildNumber, ctx.status⟩ else s.lastPost key := by
  unfold Store.lastPost Store.addPosted
  dsimp only
  rw [List.filter_append]
  split
  · rename_i heq
    rw [List.filter_cons_of_pos (by simpa using heq), List.filter_nil, List.getLast?_concat]
  · rename_i hne
    rw [List.filter_cons_of_neg (by simpa using hne), List.filter_nil, List.append_nil]

namespace TablesOk

variable {s : Store}

/-- The last post of a check has the largest number. -/
theorem le_lastPost (h : TablesOk s) {key : CheckKey} {post last : Posted}
    (hlast : s.lastPost key = some last) (hpost : post ∈ s.posted) (hkey : post.key = key) :
    post.buildNumber ≤ last.buildNumber := by
  have hmem : post ∈ s.posted.filter (·.key = key) :=
    List.mem_filter.mpr ⟨hpost, decide_eq_true hkey⟩
  obtain ⟨before, hsplit⟩ := List.getLast?_eq_some_iff.mp hlast
  have hsorted := h.order.filter (·.key = key)
  rw [hsplit] at hmem hsorted
  rcases List.mem_append.mp hmem with hin | hin
  · refine (List.pairwise_append.mp hsorted).2.2 post hin last (by simp) ?_
    rw [hkey, (mem_of_lastPost hlast).2]
  · rw [List.mem_singleton.mp hin]

/-- Builds of one check with one number are the same. -/
theorem eq_of_number (h : TablesOk s) {a b : BuildRow} (ha : a ∈ s.builds.rows)
    (hb : b ∈ s.builds.rows) (hpipeline : a.pipelineId = b.pipelineId)
    (hnumber : a.buildNumber = b.buildNumber) : a.id = b.id :=
  (h.numbers a ha b hb hpipeline).1 hnumber

/-! ## The tables tell the result -/

end TablesOk

/-! ## Changes beside a report -/

theorem RowOk.of_same {s s' : Store} {row : BuildRow} (h : RowOk s row)
    (houtcome : s'.outcome row.id = s.outcome row.id) (hgivenUp : s'.givenUp = s.givenUp)
    (hposted : s'.posted = s.posted) : RowOk s' row where
  unfinished hopen := houtcome ▸ h.unfinished hopen
  ended hterminal := houtcome ▸ h.ended hterminal
  reported := h.reported
  settled hreported outcome hout := by
    unfold Store.Covered Store.lastPost
    rw [hgivenUp, hposted]
    exact h.settled hreported outcome (houtcome ▸ hout)

theorem OwnersOk.of_same {s s' : Store} {owning : Option CheckKey} (h : OwnersOk s owning)
    (howner : s'.owner = s.owner) (hposted : s'.posted = s.posted) : OwnersOk s' owning := by
  intro key hkey
  unfold Store.lastPost
  rw [howner, hposted]
  exact h key hkey

/-- What a report relies on is the same in the other tables: the builds it is at, but for a status
that is not finished, the results and the posts. -/
structure SameFor (s s' : Store) : Prop where
  builds : ∀ id build, s.builds.find id = some build → ∃ build', s'.builds.find id = some build' ∧
    build'.context = { build.context with status := build'.status } ∧
    build'.reportedStatus = build.reportedStatus ∧
    (build.status.isTerminal = true → build.reportedStatus ≠ some build.status →
      build'.status = build.status)
  outcome : ∀ id outcome, s.outcome id = some outcome → s'.outcome id = some outcome
  posted : s'.posted = s.posted
  failedPosts : s'.failedPosts = s.failedPosts

theorem SameFor.covered {s s' : Store} (h : SameFor s s') {key : CheckKey}
    {buildNumber buildId : ℕ} {status : BuildStatus}
    (hcovered : s.Covered key buildNumber buildId status) :
    s'.Covered key buildNumber buildId status := by
  unfold Store.Covered Store.lastPost
  rw [h.posted]
  exact hcovered

theorem ScanOk.of_same {s s' : Store} {row : ScanRow} (h : ScanOk s row) (hsame : SameFor s s') :
    ScanOk s' row := by
  obtain ⟨hdue, hreported, build, hbuild, hscanned, hstatus⟩ := h
  obtain ⟨build', hbuild', -, hsameReported, hkept⟩ := hsame.builds row.id build hbuild
  refine ⟨hdue, hreported, build', hbuild', hsameReported.trans hscanned, fun hterminal => ?_⟩
  have heq := hstatus hterminal
  rw [← heq] at hdue hterminal
  rw [hkept hterminal (hscanned ▸ hdue), heq]

theorem ContextOk.of_same {s s' : Store} {row : ScanRow} {ctx : BuildContext}
    (h : ContextOk s row ctx) (hsame : SameFor s s') : ContextOk s' row ctx where
  loaded := by
    obtain ⟨build, hbuild, hctx⟩ := h.loaded
    obtain ⟨build', hbuild', hcontext, -⟩ := hsame.builds row.id build hbuild
    refine ⟨build', hbuild', ?_⟩
    rw [hcontext]
    exact hctx
  result hterminal := hsame.outcome row.id _ (h.result hterminal)
  status := h.status
  notReported := h.notReported

theorem DoneBut.of_same {s s' : Store} {ctx : BuildContext} {platforms : List Text}
    (h : DoneBut s ctx platforms) (hsame : SameFor s s') : DoneBut s' ctx platforms :=
  ⟨h.1, fun platform hin hnot => hsame.covered (h.2 platform hin hnot)⟩

theorem StageOk.of_same {s s' : Store} {row : ScanRow} {stage : Stage} (h : StageOk s row stage)
    (hsame : SameFor s s') (hscan : ScanOk s row) : StageOk s' row stage := by
  cases stage with
  | load => trivial
  | check ctx platforms => exact ⟨h.1.of_same hsame, h.2.of_same hsame⟩
  | post ctx platform rest =>
    refine ⟨h.1.of_same hsame, h.2.1.of_same hsame, ?_⟩
    unfold Store.lastPost
    rw [hsame.posted]
    exact h.2.2
  | own ctx platform rest =>
    refine ⟨h.1.of_same hsame, h.2.1.of_same hsame, ?_⟩
    unfold Store.lastPost
    rw [hsame.posted]
    exact h.2.2
  | mark result =>
    cases result with
    | ok u =>
      intro hterminal
      refine (h hterminal).imp id fun hresult => ?_
      refine ⟨hsame.outcome row.id _ hresult.1, fun build' hbuild' platform hplatform => ?_⟩
      obtain ⟨-, -, build, hbuild, -⟩ := hscan
      obtain ⟨build'', hbuild'', hcontext, -⟩ := hsame.builds row.id build hbuild
      rw [hbuild'] at hbuild''
      cases hbuild''
      have hkey : build'.key platform = build.key platform ∧
          build'.buildNumber = build.buildNumber ∧ build'.id = build.id ∧
          build'.platforms = build.platforms := by
        simp only [BuildRow.context, BuildContext.mk.injEq] at hcontext
        unfold BuildRow.key
        rw [hcontext.2.2.2.1, hcontext.2.2.2.2.1]
        exact ⟨rfl, hcontext.2.1, hcontext.1, hcontext.2.2.2.2.2.2⟩
      rw [hkey.1, hkey.2.1, hkey.2.2.1]
      rw [hkey.2.2.2] at hplatform
      exact hsame.covered (hresult.2 build hbuild platform hplatform)
    | error failure =>
      cases failure with
      | fails =>
        show _ ∨ _ ≤ s'.failedPosts.count _
        rw [hsame.failedPosts]
        exact h
      | refused => exact h

theorem LoopOk.of_same {s s' : Store} (h : LoopOk s s.report) (hsame : SameFor s s')
    (howner : s'.owner = s.owner) (hreport : s'.report = s.report) : LoopOk s' s'.report := by
  rw [hreport]
  cases hwas : s.report with
  | none =>
    rw [hwas] at h
    cases h with
    | idle howners => exact .idle (howners.of_same howner hsame.posted)
  | some report =>
    rw [hwas] at h
    cases h with
    | busy howners hreportOk =>
      refine .busy (howners.of_same howner hsame.posted) ⟨hreportOk.nodup, fun r hr => ?_, ?_⟩
      · exact (hreportOk.rows r hr).of_same hsame
      · exact hreportOk.stage.of_same hsame (hreportOk.rows _ List.mem_cons_self)

/-- The first result of a build stays. -/
theorem outcome_write {s : Store} {id : ℕ} {status : BuildStatus} {row : BuildRow}
    (hok : RowOk s row) (hid : row.id = id) (k : ℕ) (outcome : BuildStatus)
    (h : s.outcome k = some outcome) :
    (if status.isTerminal && !row.status.isTerminal then
      Function.update s.outcome id (some status) else s.outcome) k = some outcome := by
  split
  · rename_i hfirst
    rw [Bool.and_eq_true, Bool.not_eq_true'] at hfirst
    by_cases heq : k = id
    · rw [heq, ← hid, (hok.unfinished hfirst.2).1] at h
      cases h
    · rw [Function.update_of_ne heq]
      exact h
  · exact h

theorem RowOk.write {s s' : Store} {row : BuildRow} {status : BuildStatus} (h : RowOk s row)
    (hwritable : Notifications.writable row.status status = true)
    (hfirst : status = .expired → row.status.isTerminal = true →
      row.reportedStatus = some row.status)
    (houtcome : s'.outcome = if status.isTerminal && !row.status.isTerminal then
      Function.update s.outcome row.id (some status) else s.outcome)
    (hgivenUp : s'.givenUp = s.givenUp) (hposted : s'.posted = s.posted) :
    RowOk s' (row.written status) := by
  have hcovered : ∀ key n k o, s.Covered key n k o → s'.Covered key n k o := by
    unfold Store.Covered Store.lastPost
    rw [hposted]
    exact fun _ _ _ _ h => h
  cases hterminal : row.status.isTerminal with
  | true =>
    -- only retention writes to a finished build
    have hexpired := Notifications.expired_of_writable hterminal hwritable
    have hreported := hfirst hexpired hterminal
    rw [hterminal, Bool.not_true, Bool.and_false, if_neg (by decide)] at houtcome
    refine ⟨fun hopen => ?_, fun _ => ?_, fun _ _ _ => .inr hexpired, fun _ outcome hout => ?_⟩
    · rw [BuildRow.written, hexpired] at hopen
      cases hopen
    · obtain ⟨outcome, hout, -⟩ := h.ended hterminal
      refine ⟨outcome, (congrFun houtcome _).trans hout, .inr ⟨hexpired, ?_⟩⟩
      show isReported row.reportedStatus = true
      rw [hreported]
      exact hterminal
    · have hisReported : isReported row.reportedStatus = true := by
        rw [hreported]
        exact hterminal
      have hsettled := h.settled hisReported outcome ((congrFun houtcome _).symm.trans hout)
      rw [hgivenUp]
      exact hsettled.imp id fun hall platform hin => hcovered _ _ _ _ (hall platform hin)
  | false =>
    obtain ⟨hnone, hnot⟩ := h.unfinished hterminal
    have hno : ∀ {α : Prop}, isReported row.reportedStatus = true → α := by
      intro α hreported
      rw [hnot] at hreported
      cases hreported
    rw [hterminal, Bool.not_false, Bool.and_true] at houtcome
    refine ⟨fun hopen => ⟨?_, hnot⟩, fun hended => ⟨status, ?_, .inl rfl⟩, fun r hr hend => ?_,
      fun hreported => hno hreported⟩
    · rw [houtcome, if_neg (by rw [BuildRow.written] at hopen; rw [hopen]; decide)]
      exact hnone
    · rw [houtcome, if_pos (by exact hended)]
      exact Function.update_self _ _ _
    · refine hno ?_
      rw [show row.reportedStatus = some r from hr]
      exact hend

namespace Store.Sound

variable {s : Store}

theorem build (h : s.Sound) {row : BuildRow} (hnew : row.id ∉ s.builds.rows.map (·.id))
    (hlater : s.comesLater row.pipelineId row.buildNumber row.createdAt = true)
    (hqueued : row.status = .queued) (hreported : row.reportedStatus = none) :
    Store.Sound { s with builds := s.builds.insert row hnew } := by
  have hfind : ∀ {k old}, s.builds.find k = some old →
      (s.builds.insert row hnew).find k = some old := by
    intro k old hold
    rw [Table.find_insert, if_neg, hold]
    rintro rfl
    exact hnew (List.mem_map.mpr ⟨old, Table.mem_of_find hold, Table.key_of_find hold⟩)
  have hmem : ∀ {a}, a ∈ (s.builds.insert row hnew).rows → a = row ∨ a ∈ s.builds.rows := by
    intro a ha
    have hin := Table.find_of_mem ha
    rw [Table.find_insert] at hin
    split at hin
    · exact .inl (Option.some.inj hin).symm
    · exact .inr (Table.mem_of_find hin)
  have hunused : s.outcome row.id = none := by
    apply h.tables.unused
    cases hold : s.builds.find row.id with
    | none => rfl
    | some old =>
      exact absurd (List.mem_map.mpr ⟨old, Table.mem_of_find hold, Table.key_of_find hold⟩) hnew
  have hlast : ∀ a ∈ s.builds.rows, a.pipelineId = row.pipelineId →
      a.buildNumber < row.buildNumber ∧ a.createdAt ≤ row.createdAt := by
    intro a ha heq
    have := List.all_eq_true.mp hlater a ha
    simpa [heq] using this
  refine ⟨⟨fun a ha => ?_, fun a ha b hb hpipeline => ?_, fun p hp => ?_, h.tables.order,
    h.tables.givenUp, fun id hnone => ?_⟩, ?_⟩
  · rcases hmem ha with rfl | ha
    · refine ⟨fun _ => ⟨hunused, by rw [hreported]; rfl⟩, fun hend => ?_, fun r hr => ?_,
        fun hr => ?_⟩
      · rw [hqueued] at hend
        cases hend
      · rw [hreported] at hr
        cases hr
      · rw [hreported] at hr
        cases hr
    · exact (h.tables.rows a ha).of_same rfl rfl rfl
  · rcases hmem ha with rfl | hina
    · rcases hmem hb with rfl | hinb
      · exact ⟨fun _ => rfl, fun _ => le_rfl⟩
      · have := hlast b hinb hpipeline.symm
        exact ⟨fun heq => by omega, fun hlt => by omega⟩
    · rcases hmem hb with rfl | hinb
      · have := hlast a hina hpipeline
        exact ⟨fun heq => by omega, fun _ => this.2⟩
      · exact h.tables.numbers a hina b hinb hpipeline
  · obtain ⟨⟨build, hbuild, hrest⟩, hresult⟩ := h.tables.posted p hp
    exact ⟨⟨build, hfind hbuild, hrest⟩, hresult⟩
  · rw [Table.find_insert] at hnone
    split at hnone
    · cases hnone
    · exact h.tables.unused id hnone
  · refine h.loop.of_same ⟨fun id build hbuild => ?_, fun _ _ hout => hout, rfl, rfl⟩ rfl rfl
    exact ⟨build, hfind hbuild, rfl, rfl, fun _ _ => rfl⟩

theorem write (h : s.Sound) {id : ℕ} {status : BuildStatus} {row : BuildRow}
    (hrow : s.builds.find id = some row)
    (hwritable : Notifications.writable row.status status = true)
    (hfirst : s.ReportsFirst (.write id status)) :
    Store.Sound { s with
      builds := s.builds.modify id (·.written status) fun row => row.written_id status
      outcome := if status.isTerminal && !row.status.isTerminal then
        Function.update s.outcome id (some status) else s.outcome } := by
  have hid := Table.key_of_find hrow
  have hok := h.tables.rows row (Table.mem_of_find hrow)
  have hwaits : status = .expired → row.status.isTerminal = true →
      row.reportedStatus = some row.status := by
    rintro rfl
    exact hfirst row hrow
  have hfind : ∀ k, (s.builds.modify id (·.written status)
      fun row => row.written_id status).find k =
        if k = id then some (row.written status) else s.builds.find k := by
    intro k
    rw [Table.find_modify, hrow, Option.map_some]
  have hmem : ∀ {a}, a ∈ (s.builds.modify id (·.written status)
      fun row => row.written_id status).rows → ∃ old ∈ s.builds.rows,
        (a = old ∧ old.id ≠ id) ∨ (a = row.written status ∧ old = row) := by
    intro a ha
    have hin := Table.find_of_mem ha
    rw [hfind] at hin
    split at hin
    · exact ⟨row, Table.mem_of_find hrow, .inr ⟨(Option.some.inj hin).symm, rfl⟩⟩
    · rename_i hne
      exact ⟨a, Table.mem_of_find hin, .inl ⟨rfl, hne⟩⟩
  refine ⟨⟨fun a ha => ?_, fun a ha b hb => ?_, fun p hp => ?_, h.tables.order,
    h.tables.givenUp, fun k hnone => ?_⟩, ?_⟩
  · obtain ⟨old, hold, ⟨rfl, hne⟩ | ⟨rfl, rfl⟩⟩ := hmem ha
    · refine (h.tables.rows a hold).of_same ?_ rfl rfl
      dsimp only
      split
      · exact Function.update_of_ne hne _ _
      · rfl
    · refine hok.write hwritable hwaits ?_ rfl rfl
      rw [hid]
  · obtain ⟨olda, holda, hwhich⟩ := hmem ha
    obtain ⟨oldb, holdb, hwhich'⟩ := hmem hb
    have hnumbers := h.tables.numbers olda holda oldb holdb
    rcases hwhich with ⟨rfl, -⟩ | ⟨rfl, rfl⟩ <;> rcases hwhich' with ⟨rfl, -⟩ | ⟨rfl, rfl⟩ <;>
      exact hnumbers
  · obtain ⟨⟨build, hbuild, hnumber, hin, hkey⟩, hresult⟩ := h.tables.posted p hp
    refine ⟨?_, fun hend => outcome_write hok hid p.buildId _ (hresult hend)⟩
    rw [hfind]
    split
    · rename_i heq
      rw [heq, hrow] at hbuild
      cases hbuild
      exact ⟨_, rfl, hnumber, hin, hkey⟩
    · exact ⟨build, hbuild, hnumber, hin, hkey⟩
  · rw [hfind] at hnone
    split at hnone
    · cases hnone
    · rename_i hne
      dsimp only
      split
      · rw [Function.update_of_ne hne]
        exact h.tables.unused k hnone
      · exact h.tables.unused k hnone
  · refine h.loop.of_same ⟨fun k build hbuild => ?_, outcome_write hok hid, rfl, rfl⟩ rfl rfl
    rw [hfind]
    split
    · rename_i heq
      rw [heq, hrow] at hbuild
      cases hbuild
      refine ⟨_, rfl, rfl, rfl, fun hterminal hne => ?_⟩
      -- a finished build is only expired once its result is reported
      exact absurd (hwaits (Notifications.expired_of_writable hterminal hwritable) hterminal) hne
    · exact ⟨build, hbuild, rfl, rfl, fun _ _ => rfl⟩

end Store.Sound

/-! ## The steps of a report -/

theorem TablesOk.of_same {s s' : Store} (h : TablesOk s) (hbuilds : s'.builds = s.builds)
    (hposted : s'.posted = s.posted) (hfailed : s'.failedPosts = s.failedPosts)
    (hgivenUp : s'.givenUp = s.givenUp) (houtcome : s'.outcome = s.outcome) : TablesOk s' where
  rows row hrow :=
    (h.rows row (hbuilds ▸ hrow)).of_same (congrFun houtcome _) hgivenUp hposted
  numbers := by
    rw [hbuilds]
    exact h.numbers
  posted := by
    rw [hposted, hbuilds, houtcome]
    exact h.posted
  order := hposted ▸ h.order
  givenUp := by
    rw [hgivenUp, hfailed]
    exact h.givenUp
  unused := by
    rw [hbuilds, houtcome]
    exact h.unused

/-- The loop goes on with this stage of the same build. -/
theorem Store.Sound.withStage {s : Store} {row : ScanRow} {rows : List ScanRow} {stage : Stage}
    (now : ℤ) (h : TablesOk s) (howners : OwnersOk s stage.owning)
    (hreport : ReportOk s row rows stage) :
    Store.Sound { s with report := some ⟨row :: rows, now, stage⟩ } where
  tables := h.of_same rfl rfl rfl rfl rfl
  loop := by
    have hsame : SameFor s { s with report := some ⟨row :: rows, now, stage⟩ } :=
      ⟨fun _ build hbuild => ⟨build, hbuild, rfl, rfl, fun _ _ => rfl⟩, fun _ _ hout => hout,
        rfl, rfl⟩
    refine .busy (howners.of_same rfl rfl) ⟨hreport.nodup, fun r hr => ?_, ?_⟩
    · exact (hreport.rows r hr).of_same hsame
    · exact hreport.stage.of_same hsame (hreport.rows _ List.mem_cons_self)

/-- The context is that of the build it was loaded from. -/
theorem ContextOk.context {s : Store} {row : ScanRow} {ctx : BuildContext}
    (h : ContextOk s row ctx) : ∃ build, s.builds.find row.id = some build ∧
      ctx.buildId = build.id ∧ ctx.buildNumber = build.buildNumber ∧
      ctx.createdAt = build.createdAt ∧ ctx.pipelineId = build.pipelineId ∧
      ctx.platforms = build.platforms ∧ ∀ platform, ctx.key platform = build.key platform := by
  obtain ⟨build, hbuild, heq⟩ := h.loaded
  rw [heq]
  exact ⟨build, hbuild, rfl, rfl, rfl, rfl, rfl, fun _ => rfl⟩

@[simp] theorem owning_nextPlatform (ctx : BuildContext) (platforms : List Text) :
    (nextPlatform ctx platforms).owning = none := by
  cases platforms <;> rfl

/-- The report comes to the next platform, or all of them are done. -/
theorem stageOk_nextPlatform {s : Store} {row : ScanRow} {ctx : BuildContext}
    {platforms : List Text} (hctx : ContextOk s row ctx) (hdone : DoneBut s ctx platforms) :
    StageOk s row (nextPlatform ctx platforms) := by
  cases platforms with
  | cons platform rest => exact ⟨hctx, hdone⟩
  | nil =>
    intro hterminal
    have hstatus := hctx.status hterminal
    obtain ⟨build, hbuild, hid, hnumber, -, -, hplatforms, hkey⟩ := hctx.context
    refine .inr ⟨hstatus ▸ hctx.result (hstatus ▸ hterminal), fun build' hbuild' platform hin => ?_⟩
    rw [hbuild] at hbuild'
    cases hbuild'
    have hcovered := hdone.2 platform (hplatforms ▸ hin) (by simp)
    rwa [hkey, hnumber, hid, hstatus] at hcovered

theorem phase_of_isTerminal {status : BuildStatus} (h : status.isTerminal = true) :
    phase status = .done status := by
  cases status <;> first | rfl | exact absurd h (by decide)

theorem eq_of_phase {r status : BuildStatus} (h : status.isTerminal = true)
    (heq : phase r = phase status) : r = status := by
  rw [phase_of_isTerminal h] at heq
  cases r <;> first | exact Phase.done.inj heq | cases heq

theorem isDone_phase (status : BuildStatus) : (phase status).isDone = status.isTerminal := by
  cases status <;> rfl

/-- What the build is loaded with. -/
theorem stageOk_loadContext {s : Store} {row : ScanRow} (h : TablesOk s) (hscan : ScanOk s row) :
    StageOk s row (s.loadContext row) ∧ (s.loadContext row).owning = none := by
  obtain ⟨hdue, hreportedEnd, build, hbuild, hreported, hstatus⟩ := hscan
  have hok := h.rows build (Table.mem_of_find hbuild)
  have hid := Table.key_of_find hbuild
  unfold Store.loadContext
  rw [hbuild]
  dsimp only
  split
  · -- the phase was reported before, so the scan did not find a result
    rename_i hphase
    refine ⟨fun hterminal => ?_, rfl⟩
    obtain ⟨r, hr, heq⟩ := Option.map_eq_some_iff.mp hphase
    have hsame := hstatus hterminal
    rw [← hsame] at hterminal
    rw [hr, eq_of_phase hterminal heq, hsame] at hdue
    exact absurd rfl hdue
  · split
    · rename_i hexpired
      refine ⟨fun _ => .inl ?_, rfl⟩
      obtain ⟨p, hp, hdone⟩ := (Option.any_eq_true _ _).mp hexpired.2
      obtain ⟨r, hr, rfl⟩ := Option.map_eq_some_iff.mp hp
      rw [hr, isReported, Option.any_some, ← isDone_phase]
      exact hdone
    · rename_i hphase hexpired
      have hnot : isReported row.reported = false := by
        by_contra hwas
        rw [Bool.not_eq_false] at hwas
        obtain ⟨r, hr, hend⟩ := (Option.any_eq_true _ _).mp hwas
        have hsame := hstatus (hreportedEnd hwas)
        rcases hok.reported r (hreported.trans hr) hend with heq | heq
        · rw [hr, ← hsame, heq] at hdue
          exact hdue rfl
        · refine hexpired ⟨heq, ?_⟩
          rw [hr, Option.map_some, Option.any_some, isDone_phase]
          exact hend
      refine ⟨stageOk_nextPlatform ⟨⟨build, hbuild, rfl⟩, fun hterminal => ?_, fun hterminal => ?_,
        hnot⟩ ⟨List.Subset.refl _, fun platform hin hout => absurd hin hout⟩,
        owning_nextPlatform _ _⟩
      · obtain ⟨outcome, hout, hsame | ⟨-, hwas⟩⟩ := hok.ended hterminal
        · rw [← hid, hout]
          exact congrArg some hsame.symm
        · rw [hreported, hnot] at hwas
          cases hwas
      · exact hstatus hterminal

/-- The owner of a check is a build with the same key, and its last post's. -/
theorem TablesOk.owner {s : Store} (h : TablesOk s) (howners : OwnersOk s none) {key : CheckKey}
    {post : Posted} (hpost : s.lastPost key = some post) : ∃ build,
      s.owner key = some build.id ∧ s.builds.find build.id = some build ∧
      build.id = post.buildId ∧ build.buildNumber = post.buildNumber ∧
      build.pipelineId = key.pipelineId := by
  obtain ⟨hmem, hkey⟩ := mem_of_lastPost hpost
  obtain ⟨⟨build, hbuild, hnumber, -, hown⟩, -⟩ := h.posted post hmem
  obtain hid := Table.key_of_find hbuild
  refine ⟨build, ?_, hid.symm ▸ hbuild, hid, hnumber.symm, ?_⟩
  · rw [howners key (by simp), hpost, Option.map_some, hid]
  · rw [← hkey, hown]
    rfl

/-- Whoever owns the check, the report goes on. -/
theorem stageOk_check {s : Store} {row : ScanRow} {ctx : BuildContext} {platform : Text}
    {rest : List Text} (h : TablesOk s) (howners : OwnersOk s none) (hctx : ContextOk s row ctx)
    (hdone : DoneBut s ctx (platform :: rest))
    (htie : ∀ owner other, s.owner (ctx.key platform) = some owner →
      s.builds.find owner = some other → ctx.buildNumber < other.buildNumber →
        other.createdAt ≠ ctx.createdAt) :
    StageOk s row (if s.ownedByNewer ctx platform then nextPlatform ctx rest
      else .post ctx platform rest) := by
  obtain ⟨build, hbuild, hid, hnumber, hcreated, hpipeline, -, hkey⟩ := hctx.context
  have hrow := Table.mem_of_find hbuild
  have hlast : ∀ post, s.lastPost (ctx.key platform) = some post → ∃ other,
      s.owner (ctx.key platform) = some other.id ∧ s.builds.find other.id = some other ∧
        other.id = post.buildId ∧ other.buildNumber = post.buildNumber ∧
        build.pipelineId = other.pipelineId := by
    intro post hpost
    obtain ⟨other, howner, hother, hpid, hpnumber, hsame⟩ := h.owner howners hpost
    refine ⟨other, howner, hother, hpid, hpnumber, ?_⟩
    rw [hsame, hkey]
    rfl
  split
  · -- the owner is newer: its post covers this build
    rename_i hnewer
    refine stageOk_nextPlatform hctx ⟨fun p hp => hdone.1 (List.mem_cons_of_mem _ hp),
      fun p hin hout => ?_⟩
    by_cases hp : p = platform
    swap
    · exact hdone.2 p hin (by simp [hp, hout])
    subst hp
    obtain ⟨owner, howner, hwhich⟩ := (Option.any_eq_true _ _).mp hnewer
    rw [howners _ (by simp)] at howner
    obtain ⟨post, hpost, -⟩ := Option.map_eq_some_iff.mp howner
    obtain ⟨other, howner', hother, hpid, hpnumber, hsame⟩ := hlast post hpost
    rw [← howners _ (by simp), howner'] at howner
    cases howner
    rw [Bool.and_eq_true, decide_eq_true_eq, hother, Option.any_some, decide_eq_true_eq] at hwhich
    refine ⟨post, hpost, .inl ?_⟩
    obtain ⟨hne, hlt⟩ := hwhich
    have hnumbers := h.numbers other (Table.mem_of_find hother) build hrow hsame.symm
    rcases Nat.lt_trichotomy other.buildNumber build.buildNumber with hless | heq | hmore
    · have := hnumbers.2 hless
      omega
    · exact absurd (hnumbers.1 heq) (hid ▸ hne)
    · omega
  · rename_i hnot
    refine ⟨hctx, hdone, fun post hpost => ?_⟩
    obtain ⟨other, howner, hother, hpid, hpnumber, hsame⟩ := hlast post hpost
    by_contra hlt
    have hmore : ctx.buildNumber < other.buildNumber := by omega
    have hnumbers := h.numbers build hrow other (Table.mem_of_find hother) hsame
    have hle := hnumbers.2 (by omega)
    have hne := htie other.id other howner hother hmore
    apply hnot
    unfold Store.ownedByNewer
    rw [howner, Option.any_some, hother, Option.any_some, Bool.and_eq_true, decide_eq_true_eq,
      decide_eq_true_eq]
    refine ⟨fun heq => ?_, by omega⟩
    rw [hid] at heq
    have hfound : s.builds.find other.id = some build := by
      rw [heq, Table.key_of_find hbuild]
      exact hbuild
    rw [hother] at hfound
    cases hfound
    omega

/-! ### Posts -/

/-- A post of a build covers what was covered, unless it is another state of the same build. -/
theorem covered_addPosted {s : Store} {ctx : BuildContext} {platform : Text} {key : CheckKey}
    {buildNumber buildId : ℕ} {status : BuildStatus}
    (h : s.Covered key buildNumber buildId status)
    (hnewer : ctx.key platform = key → buildNumber < ctx.buildNumber ∨
      ctx.buildId = buildId ∧ ctx.status = status) :
    (s.addPosted ctx platform).Covered key buildNumber buildId status := by
  unfold Store.Covered
  rw [lastPost_addPosted]
  split
  · rename_i heq
    exact ⟨_, rfl, hnewer heq⟩
  · exact h

theorem TablesOk.addPosted {s : Store} {row : ScanRow} {ctx : BuildContext} {platform : Text}
    (h : TablesOk s) (hscan : ScanOk s row) (hctx : ContextOk s row ctx)
    (hin : platform ∈ ctx.platforms)
    (hlast : ∀ post, s.lastPost (ctx.key platform) = some post →
      post.buildNumber ≤ ctx.buildNumber) : TablesOk (s.addPosted ctx platform) := by
  obtain ⟨build, hbuild, hid, hnumber, -, -, hplatforms, hkey⟩ := hctx.context
  have hrowId := Table.key_of_find hbuild
  refine ⟨fun other hother => ?_, h.numbers, fun p hp => ?_, ?_, h.givenUp, h.unused⟩
  · replace hother : other ∈ s.builds.rows := hother
    have hok := h.rows other hother
    refine ⟨hok.unfinished, hok.ended, hok.reported, fun hreported outcome hout => ?_⟩
    refine (hok.settled hreported outcome hout).imp id fun hall p hp => ?_
    have hcovered := hall p hp
    refine covered_addPosted hcovered fun heq => .inl ?_
    -- the build that posts has reported no result, so it is another one
    have hne : other.id ≠ build.id := by
      intro hsame
      have hfound := Table.find_of_mem hother
      rw [hsame, hrowId, hbuild] at hfound
      cases hfound
      obtain ⟨-, -, build', hbuild', hscanned, -⟩ := hscan
      rw [hbuild] at hbuild'
      cases hbuild'
      rw [hscanned, hctx.notReported] at hreported
      cases hreported
    have hpipeline : other.pipelineId = build.pipelineId := by
      rw [hkey] at heq
      exact (congrArg CheckKey.pipelineId heq).symm
    have hdiffer : other.buildNumber ≠ build.buildNumber := fun hsame =>
      hne (h.eq_of_number hother (Table.mem_of_find hbuild) hpipeline hsame)
    obtain ⟨post, hpost, hwhich⟩ := hcovered
    have hle := hlast post (heq ▸ hpost)
    rcases hwhich with hlt | ⟨hpid, -⟩
    · exact hlt.trans_le hle
    · obtain ⟨⟨own, hown, hpnumber, -⟩, -⟩ := h.posted post (mem_of_lastPost hpost).1
      rw [hpid, Table.find_of_mem hother] at hown
      cases hown
      omega
  · rcases List.mem_append.mp hp with hp | hp
    · exact h.posted p hp
    · rw [List.mem_singleton.mp hp]
      refine ⟨⟨build, ?_, hnumber, ?_, hkey platform⟩, fun hend => ?_⟩
      · show s.builds.find ctx.buildId = some build
        rw [hid, hrowId]
        exact hbuild
      · exact hplatforms ▸ hin
      · show s.outcome ctx.buildId = some ctx.status
        rw [hid, hrowId]
        exact hctx.result hend
  · refine List.pairwise_append.mpr
      ⟨h.order, List.pairwise_singleton _ _, fun p hp q hq hkeys => ?_⟩
    rw [List.mem_singleton.mp hq] at hkeys ⊢
    cases hlastPost : s.lastPost (ctx.key platform) with
    | none =>
      have hmem : p ∈ s.posted.filter (·.key = ctx.key platform) :=
        List.mem_filter.mpr ⟨hp, decide_eq_true hkeys⟩
      rw [List.getLast?_eq_none_iff.mp hlastPost] at hmem
      cases hmem
    | some last => exact (h.le_lastPost hlastPost hp hkeys).trans (hlast last hlastPost)

theorem Store.Sound.postOk {s : Store} {row : ScanRow} {rows : List ScanRow} {ctx : BuildContext}
    {platform : Text} {rest : List Text} (now : ℤ) (h : TablesOk s) (howners : OwnersOk s none)
    (hreport : ReportOk s row rows (.post ctx platform rest)) :
    Store.Sound { s.addPosted ctx platform with
      report := some ⟨row :: rows, now, .own ctx platform rest⟩ } := by
  obtain ⟨hctx, hdone, hlast⟩ := hreport.stage
  have hscan := hreport.rows row List.mem_cons_self
  have htables := h.addPosted hscan hctx (hdone.1 List.mem_cons_self) hlast
  refine Store.Sound.withStage now htables (fun key hkey => ?_) ⟨hreport.nodup, hreport.rows,
    ⟨hctx.loaded, hctx.result, hctx.status, hctx.notReported⟩,
    ⟨fun p hp => hdone.1 (List.mem_cons_of_mem _ hp), fun p hin hout => ?_⟩, ?_⟩
  · rw [lastPost_addPosted, if_neg fun heq => hkey (congrArg some heq)]
    exact howners key (by simp)
  · by_cases hp : p = platform
    · subst hp
      unfold Store.Covered
      rw [lastPost_addPosted, if_pos rfl]
      exact ⟨_, rfl, .inr ⟨rfl, rfl⟩⟩
    · exact covered_addPosted (hdone.2 p hin (by simp [hp, hout])) fun _ => .inr ⟨rfl, rfl⟩
  · rw [lastPost_addPosted, if_pos rfl]
    rfl

theorem Store.Sound.postFails {s : Store} {row : ScanRow} {rows : List ScanRow}
    {ctx : BuildContext} {platform : Text} {rest : List Text} (now : ℤ) (h : TablesOk s)
    (howners : OwnersOk s none) (hreport : ReportOk s row rows (.post ctx platform rest))
    (hsame : row.attempts + 1 < maxReportAttempts ∨ ctx.status = row.status ∧
      maxReportAttempts ≤ s.failedPosts.count (row.id, row.status) + 1) :
    Store.Sound { s.addFailed ctx with
      report := some ⟨row :: rows, now, .mark (.error .fails)⟩ } := by
  have hgrown : ∀ p, s.failedPosts.count p ≤ (s.addFailed ctx).failedPosts.count p :=
    fun p => List.count_le_count_cons
  have htables : TablesOk (s.addFailed ctx) :=
    ⟨fun other hother => (h.rows other hother).of_same rfl rfl rfl, h.numbers, h.posted, h.order,
      fun p hp => (h.givenUp p hp).trans (hgrown p), h.unused⟩
  refine Store.Sound.withStage now htables howners ⟨hreport.nodup, hreport.rows, ?_⟩
  refine hsame.imp id fun ⟨hstatus, hcount⟩ => ?_
  obtain ⟨build, hbuild, hid, -⟩ := hreport.stage.1.context
  have hcons : (s.addFailed ctx).failedPosts = (row.id, row.status) :: s.failedPosts := by
    unfold Store.addFailed
    rw [hid, Table.key_of_find hbuild, hstatus]
  rw [hcons, List.count_cons_self]
  exact hcount

theorem Store.Sound.own {s : Store} {row : ScanRow} {rows : List ScanRow} {ctx : BuildContext}
    {platform : Text} {rest : List Text} (now : ℤ) (h : TablesOk s)
    (howners : OwnersOk s (some (ctx.key platform)))
    (hreport : ReportOk s row rows (.own ctx platform rest)) :
    Store.Sound { s.setOwner ctx platform with
      report := some ⟨row :: rows, now, nextPlatform ctx rest⟩ } := by
  obtain ⟨hctx, hdone, hlast⟩ := hreport.stage
  have htables : TablesOk (s.setOwner ctx platform) := h.of_same rfl rfl rfl rfl rfl
  refine Store.Sound.withStage now htables (fun key _ => ?_) ⟨hreport.nodup, hreport.rows,
    stageOk_nextPlatform ⟨hctx.loaded, hctx.result, hctx.status, hctx.notReported⟩ hdone⟩
  show Function.update s.owner (ctx.key platform) (some ctx.buildId) key = _
  by_cases hkey : key = ctx.key platform
  · rw [hkey, Function.update_self]
    exact hlast.symm
  · rw [Function.update_of_ne hkey]
    exact howners key fun heq => hkey (Option.some.inj heq).symm

/-! ### The mark -/

/-- The table after one row is changed, but for the columns of the report only. -/
theorem TablesOk.modify {s s' : Store} (h : TablesOk s) {build : BuildRow} (build' : BuildRow)
    (hbuild : s.builds.find build.id = some build)
    (hfind : ∀ k, s'.builds.find k = if k = build.id then some build' else s.builds.find k)
    (hcontext : build'.context = build.context) (hposted : s'.posted = s.posted)
    (hfailed : s'.failedPosts = s.failedPosts) (houtcome : s'.outcome = s.outcome)
    (hgivenUp : ∀ p ∈ s'.givenUp, maxReportAttempts ≤ s.failedPosts.count p)
    (hgrown : s.givenUp ⊆ s'.givenUp) (hok : RowOk s' build') : TablesOk s' := by
  have hmem : ∀ {a}, a ∈ s'.builds.rows →
      a = build' ∨ a ∈ s.builds.rows ∧ s.builds.find a.id = some a := by
    intro a ha
    have hin := Table.find_of_mem ha
    rw [hfind] at hin
    split at hin
    · exact .inl (Option.some.inj hin).symm
    · exact .inr ⟨Table.mem_of_find hin, hin⟩
  have hnumbers : ∀ {a}, a ∈ s'.builds.rows → ∃ old ∈ s.builds.rows,
      a.context = { old.context with status := a.status } := by
    intro a ha
    rcases hmem ha with rfl | ⟨ha, -⟩
    · refine ⟨build, Table.mem_of_find hbuild, ?_⟩
      have hstatus : a.status = build.status := congrArg BuildContext.status hcontext
      rw [hcontext, hstatus]
      rfl
    · exact ⟨a, ha, rfl⟩
  refine ⟨fun a ha => ?_, fun a ha b hb => ?_, fun p hp => ?_, hposted ▸ h.order,
    hfailed ▸ hgivenUp, fun id hnone => ?_⟩
  · rcases hmem ha with rfl | ⟨ha, -⟩
    · exact hok
    · have hold := h.rows a ha
      refine ⟨houtcome ▸ hold.unfinished, houtcome ▸ hold.ended, hold.reported,
        fun hreported outcome hout => ?_⟩
      have hsettled := hold.settled hreported outcome (houtcome ▸ hout)
      unfold Store.Covered Store.lastPost
      rw [hposted]
      exact hsettled.imp (fun ⟨status, hin⟩ => ⟨status, hgrown hin⟩) id
  · obtain ⟨olda, holda, heqa⟩ := hnumbers ha
    obtain ⟨oldb, holdb, heqb⟩ := hnumbers hb
    simp only [BuildRow.context, BuildContext.mk.injEq] at heqa heqb
    obtain ⟨haid, hanumber, -, hapipeline, -, hacreated, -⟩ := heqa
    obtain ⟨hbid, hbnumber, -, hbpipeline, -, hbcreated, -⟩ := heqb
    rw [haid, hanumber, hapipeline, hacreated, hbid, hbnumber, hbpipeline, hbcreated]
    exact h.numbers olda holda oldb holdb
  · rw [hposted] at hp
    obtain ⟨⟨own, hown, hnumber, hin, hkey⟩, hresult⟩ := h.posted p hp
    rw [houtcome]
    refine ⟨?_, hresult⟩
    rw [hfind]
    split
    · rename_i heq
      rw [heq, hbuild] at hown
      cases hown
      refine ⟨build', rfl, ?_⟩
      simp only [BuildRow.context, BuildContext.mk.injEq] at hcontext
      obtain ⟨-, hnumber', -, hpipeline, hcommit, -, hplatforms⟩ := hcontext
      unfold BuildRow.key
      rw [hnumber', hpipeline, hcommit, hplatforms]
      exact ⟨hnumber, hin, hkey⟩
    · exact ⟨own, hown, hnumber, hin, hkey⟩
  · rw [hfind] at hnone
    rw [houtcome]
    split at hnone
    · cases hnone
    · exact h.unused id hnone

theorem RowOk.marked {s s' : Store} {row : ScanRow} {build : BuildRow} (h : RowOk s build)
    (hscan : ScanOk s row) (hbuild : s.builds.find row.id = some build)
    (houtcome : s'.outcome = s.outcome)
    (hsettled : row.status.isTerminal = true → ∀ outcome, s.outcome build.id = some outcome →
      (∃ status, (build.id, status) ∈ s'.givenUp) ∨
        ∀ platform ∈ build.platforms,
          s'.Covered (build.key platform) build.buildNumber build.id outcome) :
    RowOk s' (build.marked row.status) := by
  obtain ⟨-, hend, build', hfound, hreported, hstatus⟩ := hscan
  rw [hbuild] at hfound
  cases hfound
  refine ⟨fun hopen => ⟨?_, ?_⟩, fun hended => ?_, fun r hr hterminal => ?_, fun hterminal => ?_⟩
  · rw [houtcome]
    exact (h.unfinished hopen).1
  · -- a result that was scanned is still the build's
    show row.status.isTerminal = false
    by_contra hterminal
    rw [Bool.not_eq_false] at hterminal
    rw [BuildRow.marked, hstatus hterminal, hterminal] at hopen
    cases hopen
  · obtain ⟨outcome, hout, hwhich⟩ := h.ended hended
    refine ⟨outcome, houtcome ▸ hout, hwhich.imp id fun hexpired => ⟨hexpired.1, ?_⟩⟩
    exact hend (hreported ▸ hexpired.2)
  · cases hr
    exact .inl (hstatus hterminal)
  · rw [houtcome]
    exact hsettled hterminal

theorem Store.Sound.mark {s : Store} {row : ScanRow} {rows : List ScanRow} {now : ℤ}
    {result : Except Failure Unit} (h : TablesOk s) (howners : OwnersOk s none)
    (hreport : ReportOk s row rows (.mark result)) :
    Store.Sound { s.mark row now result with
      report := if rows = [] then none else some ⟨rows, now, .load⟩ } := by
  have hscan := hreport.rows row List.mem_cons_self
  obtain ⟨-, -, build, hbuild, hreported, -⟩ := id hscan
  have hid := Table.key_of_find hbuild
  have hok := h.rows build (Table.mem_of_find hbuild)
  have hself : s.builds.find build.id = some build := hid.symm ▸ hbuild
  -- the tables, and that the other rows are as they were
  have hmark : TablesOk (s.mark row now result) ∧ (∀ k, k ≠ row.id →
      (s.mark row now result).builds.find k = s.builds.find k) ∧
      (s.mark row now result).owner = s.owner ∧
      (s.mark row now result).posted = s.posted := by
    unfold Store.mark
    split
    · rename_i hgives
      refine ⟨h.modify (build.marked row.status) hself (fun k => ?_) rfl rfl rfl rfl ?_
        ?_ (hok.marked hscan hbuild rfl fun hterminal outcome hout => ?_),
        fun k hne => Table.find_modify_of_ne s.builds hne (·.marked row.status)
          fun build => build.marked_id row.status, rfl, rfl⟩
      · have := Table.find_modify s.builds row.id (·.marked row.status)
          (fun build => build.marked_id row.status) k
        rw [hid]
        rwa [hbuild, Option.map_some] at this
      · intro p hp
        cases result with
        | ok u => exact h.givenUp p hp
        | error failure =>
          rcases List.mem_cons.mp hp with rfl | hp
          · cases failure with
            | refused => exact hreport.stage.elim
            | fails =>
              have hgives := of_decide_eq_true hgives
              rcases hreport.stage with hlt | hcount
              · omega
              · exact hcount
          · exact h.givenUp p hp
      · intro p hp
        cases result with
        | ok u => exact hp
        | error failure => exact List.mem_cons_of_mem _ hp
      · cases result with
        | error failure => exact .inl ⟨row.status, hid ▸ List.mem_cons_self⟩
        | ok u =>
          rcases hreport.stage hterminal with hwas | ⟨hresult, hcovered⟩
          · exact hok.settled (hreported.symm ▸ hwas) outcome hout
          · rw [hid, hresult] at hout
            cases hout
            exact .inr (hcovered build hbuild)
    · refine ⟨h.modify (build.retried row.attempts now) hself (fun k => ?_) rfl rfl rfl
        rfl h.givenUp (List.Subset.refl _) ⟨hok.unfinished, hok.ended, hok.reported, hok.settled⟩,
        fun k hne => Table.find_modify_of_ne s.builds hne (·.retried row.attempts now)
          fun build => build.retried_id row.attempts now, rfl, rfl⟩
      have := Table.find_modify s.builds row.id (·.retried row.attempts now)
        (fun build => build.retried_id row.attempts now) k
      rw [hid]
      rwa [hbuild, Option.map_some] at this
  obtain ⟨htables, hothers, howner, hposted⟩ := hmark
  have hownersMarked : OwnersOk (s.mark row now result) none := howners.of_same howner hposted
  have hscans : ∀ r ∈ rows, ScanOk (s.mark row now result) r := by
    intro r hr
    have hne : r.id ≠ row.id := fun heq => (List.nodup_cons.mp hreport.nodup).1
      (List.mem_map.mpr ⟨r, hr, heq⟩)
    unfold ScanOk
    rw [hothers r.id hne]
    exact hreport.rows r (List.mem_cons_of_mem _ hr)
  cases rows with
  | nil => exact ⟨htables.of_same rfl rfl rfl rfl rfl, .idle (hownersMarked.of_same rfl rfl)⟩
  | cons next rest =>
    have hnext : ReportOk (s.mark row now result) next rest .load :=
      ⟨(List.nodup_cons.mp hreport.nodup).2, hscans, trivial⟩
    exact Store.Sound.withStage now htables hownersMarked hnext

/-! ## Every run -/

theorem Store.Sound.advance {s s' : Store} {answer : Except Failure Unit} (h : s.Sound)
    (hfirst : s.ReportsFirst (.advance answer)) (hstep : s.advanceReport answer = some s') :
    s'.Sound := by
  have hloop := h.loop
  unfold Store.advanceReport at hstep
  cases hreport : s.report with
  | none =>
    rw [hreport] at hstep
    cases hstep
  | some report =>
    rw [hreport] at hloop hstep
    cases hloop with
    | @busy row rows now stage howners hok =>
      have hcond := hfirst row rows now stage hreport
      have hscan := hok.rows row List.mem_cons_self
      cases stage with
      | load =>
        cases hstep
        obtain ⟨hstage, howning⟩ := stageOk_loadContext h.tables hscan
        exact Store.Sound.withStage now h.tables (howning ▸ howners)
          ⟨hok.nodup, hok.rows, hstage⟩
      | check ctx platforms =>
        obtain ⟨hctx, hdone⟩ := hok.stage
        cases platforms with
        | nil =>
          cases hstep
          exact Store.Sound.withStage now h.tables howners
            ⟨hok.nodup, hok.rows, stageOk_nextPlatform hctx hdone⟩
        | cons platform rest =>
          cases hstep
          refine Store.Sound.withStage now h.tables ?_
            ⟨hok.nodup, hok.rows, stageOk_check h.tables howners hctx hdone hcond⟩
          split
          · rw [owning_nextPlatform]
            exact howners
          · exact howners
      | post ctx platform rest =>
        cases answer with
        | ok u =>
          cases hstep
          exact Store.Sound.postOk now h.tables howners hok
        | error failure =>
          cases failure with
          | refused => exact hcond.elim
          | fails =>
            cases hstep
            exact Store.Sound.postFails now h.tables howners hok hcond
      | own ctx platform rest =>
        cases hstep
        exact Store.Sound.own now h.tables howners hok
      | mark result =>
        cases hstep
        exact Store.Sound.mark h.tables howners hok

theorem perm_dueBuilds (s : Store) (now : ℤ) : (s.dueBuilds now).Perm
    (s.builds.rows.filter fun row => row.isDue && row.reportAfter.all (· ≤ now)) :=
  List.perm_insertionSort _ _

/-- A scan reads each build once. -/
theorem nodup_scanned (s : Store) (now : ℤ) :
    ((((s.dueBuilds now).take reportBatchSize).map (·.scanned)).map (·.id)).Nodup := by
  have hdue : ((s.dueBuilds now).map (·.id)).Nodup :=
    ((perm_dueBuilds s now).map _).nodup_iff.mpr
      (s.builds.nodup.sublist (List.filter_sublist.map _))
  rw [List.map_map]
  exact hdue.sublist ((List.take_sublist _ _).map _)

theorem exists_of_mem_scanned {s : Store} {now : ℤ} {r : ScanRow}
    (h : r ∈ ((s.dueBuilds now).take reportBatchSize).map (·.scanned)) :
    ∃ row ∈ s.builds.rows, row.isDue = true ∧ row.scanned = r := by
  obtain ⟨row, hin, rfl⟩ := List.mem_map.mp h
  obtain ⟨hrow, hdue⟩ :=
    List.mem_filter.mp ((perm_dueBuilds s now).mem_iff.mp (List.mem_of_mem_take hin))
  rw [Bool.and_eq_true] at hdue
  exact ⟨row, hrow, hdue.1, rfl⟩

/-- What a scan reads. -/
theorem Store.Sound.startReport {s : Store} (h : s.Sound) (hidle : s.report = none) (now : ℤ) :
    (s.startReport now).Sound := by
  have howners : OwnersOk s none := by
    have hloop := h.loop
    rw [hidle] at hloop
    cases hloop with
    | idle howners => exact howners
  have hscans : ∀ r ∈ ((s.dueBuilds now).take reportBatchSize).map (·.scanned), ScanOk s r := by
    intro r hr
    obtain ⟨row, hrow, hdue, rfl⟩ := exists_of_mem_scanned hr
    refine ⟨of_decide_eq_true hdue, fun hreported => ?_, row, Table.find_of_mem hrow, rfl,
      fun _ => rfl⟩
    by_contra hopen
    have hnot := ((h.tables.rows row hrow).unfinished (Bool.eq_false_of_not_eq_true hopen)).2
    have hwas : isReported row.reportedStatus = true := hreported
    rw [hnot] at hwas
    cases hwas
  have hnodup := nodup_scanned s now
  unfold Store.startReport
  dsimp only
  cases hrows : ((s.dueBuilds now).take reportBatchSize).map (·.scanned) with
  | nil => exact ⟨h.tables.of_same rfl rfl rfl rfl rfl, .idle (howners.of_same rfl rfl)⟩
  | cons row rest =>
    rw [hrows] at hscans hnodup
    have hreport : ReportOk s row rest .load := ⟨hnodup, hscans, trivial⟩
    exact Store.Sound.withStage now h.tables howners hreport

theorem Store.Sound.step {s s' : Store} {event : Event} (h : s.Sound)
    (hfirst : s.ReportsFirst event) (hstep : s.step event = some s') : s'.Sound := by
  cases event with
  | build id pipelineId commitSha buildNumber platforms now =>
    unfold Store.step at hstep
    dsimp only at hstep
    split at hstep
    · rename_i hnew
      split at hstep
      · rename_i hlater
        cases hstep
        exact h.build hnew hlater rfl rfl
      · cases hstep
    · cases hstep
  | write id status =>
    obtain ⟨row, hrow, hstep⟩ := Option.bind_eq_some_iff.mp hstep
    split at hstep
    · rename_i hwritable
      cases hstep
      exact h.write hrow hwritable hfirst
    · cases hstep
  | scan now =>
    unfold Store.step at hstep
    dsimp only at hstep
    split at hstep
    · rename_i hidle
      cases hstep
      exact h.startReport (Option.isNone_iff_eq_none.mp hidle) now
    · cases hstep
  | advance answer => exact h.advance hfirst hstep

theorem Store.sound_new : Store.new.Sound where
  tables :=
    { rows := fun _ hrow => by cases hrow
      numbers := fun _ ha => by cases ha
      posted := fun _ hp => by cases hp
      order := List.Pairwise.nil
      givenUp := fun _ hp => by cases hp
      unused := fun _ _ => rfl }
  loop := .idle fun _ _ => rfl

/-- The build whose report is under way, from its load on. -/
def Store.reporting (s : Store) : Option ℕ :=
  match s.report with
  | some ⟨_ :: _, _, .load⟩ => none
  | some ⟨row :: _, _, _⟩ => some row.id
  | _ => none

/-- As `ReportsFirst`, with a condition on the writes for the one on the last attempt: no status of
a build is written while failed posts of the build are counted or its report is under way. -/
def Store.WritesApart (s : Store) : Event → Prop
  | .write id status => ∀ row, s.builds.find id = some row →
    (row.reportAttempts = 0 ∧ s.reporting ≠ some id) ∧
      (status = .expired → row.status.isTerminal = true → row.reportedStatus = some row.status)
  | .advance answer => ∀ row rows now stage, s.report = some ⟨row :: rows, now, stage⟩ →
    match stage with
    | .check ctx (platform :: _) => ∀ owner other, s.owner (ctx.key platform) = some owner →
      s.builds.find owner = some other → ctx.buildNumber < other.buildNumber →
        other.createdAt ≠ ctx.createdAt
    | .post _ _ _ => answer ≠ .error .refused
    | _ => True
  | _ => True

/-- What the scan read of the build, which has not changed if it has failed posts. -/
structure ScanCounted (s : Store) (row : ScanRow) (build : BuildRow) : Prop where
  found : s.builds.find row.id = some build
  attempts : row.attempts = build.reportAttempts
  status : 0 < row.attempts → row.status = build.status

/-- The report is for the build's status, and a post that failed is among those of that status. -/
def StageCounted (s : Store) (row : ScanRow) (build : BuildRow) : Stage → Prop
  | .load | .mark (.ok _) | .mark (.error .refused) => True
  | .check ctx _ | .post ctx _ _ | .own ctx _ _ =>
    ctx.buildId = row.id ∧ ctx.status = build.status
  | .mark (.error .fails) => row.attempts + 1 ≤ s.failedPosts.count (row.id, build.status)

structure ReportCounted (s : Store) (row : ScanRow) (rows : List ScanRow) (stage : Stage) :
    Prop where
  nodup : ((row :: rows).map (·.id)).Nodup
  rows : ∀ r ∈ row :: rows, ∃ build, ScanCounted s r build
  stage : ∀ build, ScanCounted s row build → StageCounted s row build stage

/-- The failed posts that are counted for a build were all for the status that it has. -/
structure Counted (s : Store) : Prop where
  builds : ∀ build ∈ s.builds.rows,
    build.reportAttempts ≤ s.failedPosts.count (build.id, build.status)
  report : ∀ row rows now stage, s.report = some ⟨row :: rows, now, stage⟩ →
    ReportCounted s row rows stage

namespace Counted

variable {s s' : Store}

/-- A build that has failed posts or is being reported keeps its status. -/
theorem beside (h : Counted s) (hreport : s'.report = s.report)
    (hfailed : s'.failedPosts = s.failedPosts)
    (hbuilds : ∀ build ∈ s'.builds.rows,
      build.reportAttempts ≤ s.failedPosts.count (build.id, build.status))
    (hfind : ∀ id build, s.builds.find id = some build → ∃ build',
      s'.builds.find id = some build' ∧ build'.reportAttempts = build.reportAttempts ∧
        (build'.status = build.status ∨ build.reportAttempts = 0 ∧ s.reporting ≠ some id)) :
    Counted s' where
  builds := by
    rw [hfailed]
    exact hbuilds
  report row rows now stage hstage := by
    rw [hreport] at hstage
    have hok := h.report row rows now stage hstage
    have hscan : ∀ r ∈ row :: rows, ∃ build build', ScanCounted s r build ∧
        ScanCounted s' r build' ∧ (build'.status = build.status ∨ s.reporting ≠ some r.id) := by
      intro r hr
      obtain ⟨build, hbuild⟩ := hok.rows r hr
      obtain ⟨build', hfound, hattempts, hstatus⟩ := hfind r.id build hbuild.found
      refine ⟨build, build', hbuild, ⟨hfound, hbuild.attempts.trans hattempts.symm, ?_⟩,
        hstatus.imp_right And.right⟩
      intro hpos
      rcases hstatus with heq | ⟨hzero, -⟩
      · exact (hbuild.status hpos).trans heq.symm
      · have := hbuild.attempts
        omega
    refine ⟨hok.nodup, fun r hr => ?_, fun build' hbuild' => ?_⟩
    · obtain ⟨_, build', -, hbuild', -⟩ := hscan r hr
      exact ⟨build', hbuild'⟩
    · obtain ⟨build, found, hbuild, hfound, hstatus⟩ := hscan row List.mem_cons_self
      obtain rfl := Option.some.inj (hfound.found.symm.trans hbuild'.found)
      have hold := hok.stage build hbuild
      cases stage with
      | load => trivial
      | check | post | own =>
        have hsame := hstatus.resolve_right fun hne => hne (by rw [Store.reporting, hstage])
        exact ⟨hold.1, hold.2.trans hsame.symm⟩
      | mark result =>
        have hsame := hstatus.resolve_right fun hne => hne (by rw [Store.reporting, hstage])
        rcases result with (_ | _) | _
        · show row.attempts + 1 ≤ s'.failedPosts.count (row.id, found.status)
          rw [hfailed, hsame]
          exact hold
        · trivial
        · trivial

theorem build (h : Counted s) {row : BuildRow} (hnew : row.id ∉ s.builds.rows.map (·.id))
    (hzero : row.reportAttempts = 0) : Counted { s with builds := s.builds.insert row hnew } := by
  refine h.beside rfl rfl (fun build hbuild => ?_) fun id build hbuild => ?_
  · rcases List.mem_append.mp hbuild with hold | hlast
    · exact h.builds build hold
    · rw [List.mem_singleton.mp hlast, hzero]
      exact Nat.zero_le _
  · have hne : id ≠ row.id := by
      rintro rfl
      have hmem := List.mem_map_of_mem (f := (·.id)) (Table.mem_of_find hbuild)
      exact hnew (Table.key_of_find hbuild ▸ hmem)
    refine ⟨build, ?_, rfl, .inl rfl⟩
    rw [Table.find_insert, if_neg hne]
    exact hbuild

theorem write (h : Counted s) {id : ℕ} {status : BuildStatus} {row : BuildRow}
    (hrow : s.builds.find id = some row) (hzero : row.reportAttempts = 0)
    (hapart : s.reporting ≠ some id) {outcome : ℕ → Option BuildStatus} :
    Counted { s with
      builds := s.builds.modify id (·.written status) fun row => row.written_id status
      outcome } := by
  have hfind : ∀ k build, s.builds.find k = some build → ∃ build',
      (s.builds.modify id (·.written status) fun row => row.written_id status).find k =
        some build' ∧ build'.reportAttempts = build.reportAttempts ∧
          (build'.status = build.status ∨ build.reportAttempts = 0 ∧ s.reporting ≠ some k) := by
    intro k build hbuild
    by_cases hk : k = id
    · subst hk
      obtain rfl := Option.some.inj (hrow.symm.trans hbuild)
      exact ⟨row.written status, by rw [Table.find_modify_self, hrow, Option.map_some], rfl,
        .inr ⟨hzero, hapart⟩⟩
    · exact ⟨build, by rw [Table.find_modify_of_ne _ hk, hbuild], rfl, .inl rfl⟩
  refine h.beside rfl rfl (fun build hbuild => ?_) hfind
  obtain ⟨old, hold, heq⟩ := List.mem_map.mp hbuild
  split_ifs at heq with hid
  · have hsame := Table.find_of_mem hold
    rw [hid, hrow] at hsame
    obtain rfl := Option.some.inj hsame
    rw [← heq]
    exact hzero.trans_le (Nat.zero_le _)
  · exact heq ▸ h.builds old hold

theorem startReport (h : Counted s) (now : ℤ) : Counted (s.startReport now) where
  builds := h.builds
  report row rows now' stage hreport := by
    have hnodup := nodup_scanned s now
    have hscans : ∀ r ∈ ((s.dueBuilds now).take reportBatchSize).map (·.scanned),
        ∃ build, ScanCounted (s.startReport now) r build := by
      intro r hr
      obtain ⟨build, hbuild, -, rfl⟩ := exists_of_mem_scanned hr
      exact ⟨build, Table.find_of_mem hbuild, rfl, fun _ => rfl⟩
    dsimp only [Store.startReport] at hreport
    obtain ⟨-, hreport⟩ := Option.ite_none_left_eq_some.mp hreport
    simp only [Option.some.injEq, Report.mk.injEq] at hreport
    obtain ⟨hrows, rfl, rfl⟩ := hreport
    rw [hrows] at hnodup hscans
    exact ⟨hnodup, hscans, fun _ _ => trivial⟩

/-- A step of the report that leaves the builds. -/
theorem withStage (h : Counted s) {row : ScanRow} {rows : List ScanRow} {now : ℤ}
    {stage stage' : Stage} (hreport : s.report = some ⟨row :: rows, now, stage⟩)
    (hreport' : s'.report = some ⟨row :: rows, now, stage'⟩) (hbuilds : s'.builds = s.builds)
    (hfailed : ∀ post, s.failedPosts.count post ≤ s'.failedPosts.count post)
    (hstage : ∀ build, ScanCounted s row build → StageCounted s row build stage →
      StageCounted s' row build stage') : Counted s' where
  builds build hbuild := (h.builds build (hbuilds ▸ hbuild)).trans (hfailed _)
  report row' rows' now' stage'' hnext := by
    obtain ⟨hnodup, hscans, hold⟩ := h.report row rows now stage hreport
    have hsame : ∀ {r build}, ScanCounted s r build ↔ ScanCounted s' r build := by
      intro r build
      constructor
      · rintro ⟨hfound, hattempts, hstatus⟩
        exact ⟨hbuilds ▸ hfound, hattempts, hstatus⟩
      · rintro ⟨hfound, hattempts, hstatus⟩
        exact ⟨hbuilds ▸ hfound, hattempts, hstatus⟩
    rw [hreport'] at hnext
    simp only [Option.some.injEq, Report.mk.injEq, List.cons.injEq] at hnext
    obtain ⟨⟨rfl, rfl⟩, rfl, rfl⟩ := hnext
    refine ⟨hnodup, fun r hr => ?_, fun build hbuild => ?_⟩
    · obtain ⟨build, hbuild⟩ := hscans r hr
      exact ⟨build, hsame.mp hbuild⟩
    · have hbuild := hsame.mpr hbuild
      exact hstage build hbuild (hold build hbuild)

/-- The mark of a build: what it counts after a post that failed is among those of its status. -/
theorem mark (h : Counted s) {row : ScanRow} {rows : List ScanRow} {now : ℤ}
    {result : Except Failure Unit} (hreport : s.report = some ⟨row :: rows, now, .mark result⟩) :
    Counted { s.mark row now result with
      report := if rows = [] then none else some ⟨rows, now, .load⟩ } := by
  obtain ⟨hnodup, hscans, hstage⟩ := h.report row rows now _ hreport
  obtain ⟨build, hbuild⟩ := hscans row List.mem_cons_self
  obtain ⟨f, hf, hmark, hattempts⟩ : ∃ (f : BuildRow → BuildRow) (hf : ∀ row, (f row).id = row.id),
      (s.mark row now result).builds = s.builds.modify row.id f hf ∧
        (f build).status = build.status ∧
          (f build).reportAttempts ≤ s.failedPosts.count (row.id, build.status) := by
    unfold Store.mark
    split_ifs with hgives
    · exact ⟨(·.marked row.status), fun build => build.marked_id row.status, rfl, rfl,
        Nat.zero_le _⟩
    · refine ⟨(·.retried row.attempts now), fun build => build.retried_id row.attempts now, rfl,
        rfl, ?_⟩
      rcases result with (_ | _) | _
      · exact hstage build hbuild
      · exact absurd rfl hgives
      · exact absurd rfl hgives
  have hfailed : (s.mark row now result).failedPosts = s.failedPosts := by
    unfold Store.mark
    split_ifs <;> rfl
  refine ⟨fun other hother => ?_, fun row' rows' now' stage' hnext => ?_⟩
  · show _ ≤ (s.mark row now result).failedPosts.count _
    rw [hfailed]
    change other ∈ (s.mark row now result).builds.rows at hother
    rw [hmark] at hother
    obtain ⟨old, hold, heq⟩ := List.mem_map.mp hother
    split_ifs at heq with hid
    · have hsame := Table.find_of_mem hold
      rw [hid, hbuild.found] at hsame
      obtain rfl := Option.some.inj hsame
      rw [← heq, hf, hid, hattempts.1]
      exact hattempts.2
    · exact heq ▸ h.builds old hold
  · obtain ⟨-, hnext⟩ := Option.ite_none_left_eq_some.mp hnext
    simp only [Option.some.injEq, Report.mk.injEq] at hnext
    obtain ⟨rfl, rfl, rfl⟩ := hnext
    rw [List.map_cons, List.nodup_cons] at hnodup
    refine ⟨hnodup.2, fun r hr => ?_, fun _ _ => trivial⟩
    obtain ⟨other, hother⟩ := hscans r (List.mem_cons_of_mem _ hr)
    refine ⟨other, ?_, hother.attempts, hother.status⟩
    have hne : r.id ≠ row.id := fun heq => hnodup.1 (List.mem_map.mpr ⟨r, hr, heq⟩)
    show (s.mark row now result).builds.find r.id = _
    rw [hmark, Table.find_modify_of_ne _ hne]
    exact hother.found

theorem stageCounted_loadContext {row : ScanRow} {build : BuildRow}
    (hbuild : ScanCounted s row build) : StageCounted s' row build (s.loadContext row) := by
  unfold Store.loadContext
  rw [hbuild.found]
  dsimp only
  split_ifs
  · trivial
  · trivial
  · unfold nextPlatform
    split
    · trivial
    · exact ⟨show build.id = row.id from Table.key_of_find hbuild.found, rfl⟩

theorem stageCounted_nextPlatform {row : ScanRow} {build : BuildRow} {ctx : BuildContext}
    (hctx : ctx.buildId = row.id ∧ ctx.status = build.status) (platforms : List Text) :
    StageCounted s' row build (nextPlatform ctx platforms) := by
  unfold nextPlatform
  split
  · trivial
  · exact hctx

theorem advance (h : Counted s) {answer : Except Failure Unit}
    (hstep : s.advanceReport answer = some s') : Counted s' := by
  unfold Store.advanceReport at hstep
  split at hstep
  · rename_i row rows now stage hreport
    cases stage with
    | load =>
      cases hstep
      exact h.withStage hreport rfl rfl (fun _ => le_rfl) fun build hbuild _ =>
        stageCounted_loadContext hbuild
    | check ctx platforms =>
      cases platforms with
      | nil =>
        cases hstep
        exact h.withStage hreport rfl rfl (fun _ => le_rfl) fun _ _ _ => trivial
      | cons platform rest =>
        cases hstep
        refine h.withStage hreport rfl rfl (fun _ => le_rfl) fun build _ hctx => ?_
        split_ifs
        · exact stageCounted_nextPlatform hctx rest
        · exact hctx
    | post ctx platform rest =>
      cases answer with
      | ok u =>
        cases hstep
        exact h.withStage hreport rfl rfl (fun _ => le_rfl) fun _ _ hctx => hctx
      | error failure =>
        cases hstep
        refine h.withStage hreport rfl rfl (fun _ => (List.sublist_cons_self _ _).count_le _)
          fun build hbuild hctx => ?_
        cases failure with
        | refused => trivial
        | fails =>
          -- the post that failed was for the status of the build
          have hid := Table.key_of_find hbuild.found
          have hcount := h.builds build (Table.mem_of_find hbuild.found)
          show row.attempts + 1 ≤ List.count _ ((ctx.buildId, ctx.status) :: s.failedPosts)
          rw [hctx.1, hctx.2, List.count_cons_self, hbuild.attempts, ← hid]
          exact Nat.succ_le_succ hcount
    | own ctx platform rest =>
      cases hstep
      exact h.withStage hreport rfl rfl (fun _ => le_rfl) fun _ _ hctx =>
        stageCounted_nextPlatform hctx rest
    | mark result =>
      cases hstep
      exact h.mark hreport
  · cases hstep

theorem step {event : Event} (h : Counted s) (hapart : s.WritesApart event)
    (hstep : s.step event = some s') : Counted s' := by
  cases event with
  | build id pipelineId commitSha buildNumber platforms now =>
    unfold Store.step at hstep
    dsimp only at hstep
    split_ifs at hstep with hnew hlater
    cases hstep
    exact h.build hnew rfl
  | write id status =>
    obtain ⟨row, hrow, hstep⟩ := Option.bind_eq_some_iff.mp hstep
    obtain ⟨-, hstep⟩ := Option.ite_none_right_eq_some.mp hstep
    cases hstep
    obtain ⟨⟨hzero, hreporting⟩, -⟩ := hapart row hrow
    exact h.write hrow hzero hreporting
  | scan now =>
    unfold Store.step at hstep
    dsimp only at hstep
    split_ifs at hstep with hidle
    cases hstep
    exact h.startReport now
  | advance answer => exact h.advance hstep

/-- The last attempt fails for a status that all the attempts were for. -/
theorem reportsFirst (h : Counted s) {event : Event} (hapart : s.WritesApart event) :
    s.ReportsFirst event := by
  cases event with
  | write id status =>
    cases status with
    | expired => exact fun row hrow => (hapart row hrow).2 rfl
    | _ => trivial
  | advance answer =>
    intro row rows now stage hreport
    have hcond := hapart row rows now stage hreport
    cases stage with
    | check ctx platforms =>
      cases platforms with
      | nil => trivial
      | cons platform rest => exact hcond
    | post ctx platform rest =>
      rcases answer with (_ | _) | _
      · obtain ⟨-, hscans, hstage⟩ := h.report row rows now _ hreport
        obtain ⟨build, hbuild⟩ := hscans row List.mem_cons_self
        have hcount := h.builds build (Table.mem_of_find hbuild.found)
        rw [Table.key_of_find hbuild.found, ← hbuild.attempts] at hcount
        rcases Nat.lt_or_ge (row.attempts + 1) maxReportAttempts with hlt | hlast
        · exact .inl hlt
        · have hpos : 0 < row.attempts := by
            unfold maxReportAttempts at hlast
            omega
          have hstatus := hbuild.status hpos
          refine .inr ⟨(hstage build hbuild).2.trans hstatus.symm, ?_⟩
          rw [hstatus]
          exact hlast.trans (Nat.succ_le_succ hcount)
      · exact hcond rfl
      · trivial
    | _ => trivial
  | _ => trivial

end Counted

theorem counted_new : Counted .new where
  builds _ hbuild := by cases hbuild
  report _ _ _ _ hreport := by cases hreport

/-- Where no status of a build is written while failed posts of the build are counted or its report
is under way, the posts of a build that fail in a row all belong to one status. -/
theorem reportsFirst_of_writesApart {events : List Event}
    (h : Meets Store.step Store.WritesApart .new events) :
    Meets Store.step Store.ReportsFirst .new events :=
  h.of_keeps (fun _ _ _ hcounted hapart hstep => hcounted.step hapart hstep)
    (fun _ _ hcounted hapart => hcounted.reportsFirst hapart) counted_new

end Checks

end OoreBuild
