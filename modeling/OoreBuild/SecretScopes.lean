import OoreBuild.Lib.Sql

/-!
# Secrets by scope

A secret belongs to the instance, a project or a pipeline, and a narrower one wins over a wider one
of the same name. The precedence is written four times: in the map of the visible rows, in the
version of the visible row, in the test whether a name is visible, and in the query for the
pipelines that depend on a secret.
-/

namespace OoreBuild.Secrets

open Sql Text

/-! ## Tables -/

inductive SecretScope where
  | instanceWide
  | project
  | pipeline
  deriving DecidableEq, Repr

def SecretScope.asStr : SecretScope → Text
  | instanceWide => "instance".toList
  | project => "project".toList
  | pipeline => "pipeline".toList

structure SecretRow where
  id : Text
  scope : SecretScope
  projectId : Option Text
  pipelineId : Option Text
  name : Text
  valueEncrypted : Text
  updatedAt : ℤ
  deriving DecidableEq, Repr

/-- The columns of the unique index. -/
def SecretRow.indexKey (row : SecretRow) : SecretScope × Text × Text × Text :=
  (row.scope, row.projectId.getD [], row.pipelineId.getD [], row.name)

/-- The `CHECK` of the table. -/
def SecretRow.Checked (row : SecretRow) : Prop :=
  match row.scope with
  | .instanceWide => row.projectId = none ∧ row.pipelineId = none
  | .project => row.projectId ≠ none ∧ row.pipelineId = none
  | .pipeline => row.projectId ≠ none ∧ row.pipelineId ≠ none

structure PipelineRow where
  id : Text
  projectId : Text
  name : Text
  deriving DecidableEq, Repr

inductive PublishStore where
  | googlePlay
  | appStore
  deriving DecidableEq, Repr

structure PublishTarget where
  pipelineId : Text
  store : PublishStore
  /-- The `service_account_secret` of the settings. -/
  serviceAccountSecret : Option Text
  deriving DecidableEq, Repr

def PublishTarget.indexKey (target : PublishTarget) : Text × PublishStore :=
  (target.pipelineId, target.store)

/-- The tables. A pipeline's secret is written with the project of the pipeline, which never
changes. -/
structure Database where
  secrets : Table SecretRow.indexKey
  pipelines : Table PipelineRow.id
  publishTargets : Table PublishTarget.indexKey
  checked : ∀ row ∈ secrets.rows, row.Checked
  attached : ∀ row ∈ secrets.rows, ∀ pipelineId, row.pipelineId = some pipelineId →
    ∃ p, pipelines.find pipelineId = some p ∧ row.projectId = some p.projectId

/-! ## Writers -/

/-- The scope a request addresses. -/
structure SecretTarget where
  scope : SecretScope
  projectId : Option Text
  pipelineId : Option Text
  deriving DecidableEq, Repr

def instanceTarget : SecretTarget := ⟨.instanceWide, none, none⟩

def projectTarget (projectId : Text) : SecretTarget := ⟨.project, some projectId, none⟩

def pipelineTarget (db : Database) (pipelineId : Text) : Option SecretTarget :=
  (db.pipelines.find pipelineId).map fun p => ⟨.pipeline, some p.projectId, some pipelineId⟩

/-- A target as the routes resolve it. -/
def SecretTarget.Resolved (db : Database) (target : SecretTarget) : Prop :=
  target = instanceTarget ∨ (∃ projectId, target = projectTarget projectId) ∨
    ∃ pipelineId, pipelineTarget db pipelineId = some target

/-- The row that an insertion adds. -/
def SecretTarget.row (target : SecretTarget) (id name encrypted : Text) (now : ℤ) : SecretRow :=
  ⟨id, target.scope, target.projectId, target.pipelineId, name, encrypted, now⟩

theorem SecretTarget.Resolved.checked {db : Database} {target : SecretTarget}
    (h : target.Resolved db) (id name encrypted : Text) (now : ℤ) :
    (target.row id name encrypted now).Checked := by
  rcases h with rfl | ⟨projectId, rfl⟩ | ⟨pipelineId, h⟩
  · exact ⟨rfl, rfl⟩
  · exact ⟨Option.some_ne_none _, rfl⟩
  · obtain ⟨p, -, rfl⟩ := Option.map_eq_some_iff.mp h
    exact ⟨Option.some_ne_none _, Option.some_ne_none _⟩

theorem SecretTarget.Resolved.attached {db : Database} {target : SecretTarget}
    (h : target.Resolved db) {pipelineId : Text} (hid : target.pipelineId = some pipelineId) :
    ∃ p, db.pipelines.find pipelineId = some p ∧ target.projectId = some p.projectId := by
  rcases h with rfl | ⟨projectId, rfl⟩ | ⟨pipelineId', h⟩
  · cases hid
  · cases hid
  · obtain ⟨p, hp, rfl⟩ := Option.map_eq_some_iff.mp h
    cases hid
    exact ⟨p, hp, rfl⟩

/-- `none` where the secret already exists in the scope. -/
def insertSecret (db : Database) (target : SecretTarget) (h : target.Resolved db)
    (id name encrypted : Text) (now : ℤ) : Option Database :=
  let row := target.row id name encrypted now
  if hnew : row.indexKey ∉ db.secrets.rows.map SecretRow.indexKey then
    some { db with
      secrets := db.secrets.insert row hnew
      checked := by
        intro other hother
        rcases List.mem_append.mp hother with hold | hadded
        · exact db.checked other hold
        · rw [List.mem_singleton.mp hadded]
          exact h.checked id name encrypted now
      attached := by
        intro other hother pipelineId hid
        rcases List.mem_append.mp hother with hold | hadded
        · exact db.attached other hold pipelineId hid
        · rw [List.mem_singleton.mp hadded] at hid ⊢
          exact h.attached hid }
  else none

/-- The condition of the statements on one secret. -/
def SecretTarget.selects (target : SecretTarget) (name : Text) (row : SecretRow) : Truth :=
  Truth.all [eq (some row.scope) (some target.scope), isSame row.projectId target.projectId,
    isSame row.pipelineId target.pipelineId, eq (some row.name) (some name)]

def deleteSecret (db : Database) (target : SecretTarget) (name : Text) : Database :=
  { db with
    secrets := db.secrets.filter fun row => !(target.selects name row).holds
    checked := fun row hrow => db.checked row (List.mem_of_mem_filter hrow)
    attached := fun row hrow => db.attached row (List.mem_of_mem_filter hrow) }

/-! ## What a pipeline sees -/

def scopeRank : SecretScope → ℕ
  | .instanceWide => 0
  | .project => 1
  | .pipeline => 2

/-- The row is visible to the project and the pipeline. -/
def visibleCondition (projectId : Text) (pipelineId : Option Text) (row : SecretRow) : Truth :=
  (eq (some row.scope) (some .instanceWide)).or
    (((eq (some row.scope) (some .project)).and (eq row.projectId (some projectId))).or
      (Truth.all [eq (some row.scope) (some .pipeline), isSame row.pipelineId pipelineId,
        (isNull pipelineId).not]))

/-- The rows of the map by name. -/
abbrev VisibleRows := Text → Option (SecretScope × Text)

/-- One row of the query: a row of the same or a wider scope loses. -/
def addVisible (visible : VisibleRows) (row : SecretRow) : VisibleRows :=
  if (visible row.name).any fun existing => scopeRank row.scope ≤ scopeRank existing.1 then visible
  else Function.update visible row.name (some (row.scope, row.valueEncrypted))

/-- The row that wins for each name visible to a pipeline, still encrypted. -/
def visibleSecretRows (db : Database) (projectId : Text) (pipelineId name : Option Text) :
    VisibleRows :=
  (select (fun row => (visibleCondition projectId pipelineId row).and
    ((isNull name).or (eq (some row.name) name))) db.secrets.rows).foldl addVisible fun _ => none

/-- The message names the secret that failed. -/
def decryptVisible (decrypt : Text → Except Text Text) (name : Text) (scope : SecretScope)
    (encrypted : Text) : Except Text Text :=
  match decrypt encrypted with
  | .ok value => .ok value
  | .error _ =>
    .error ("failed to decrypt the ".toList ++ scope.asStr ++ " secret ".toList ++ name)

def resolveSecretValue (decrypt : Text → Except Text Text) (db : Database) (projectId : Text)
    (pipelineId : Option Text) (name : Text) : Except Text (Option Text) :=
  match visibleSecretRows db projectId pipelineId (some name) name with
  | none => .ok none
  | some (scope, encrypted) => (decryptVisible decrypt name scope encrypted).map some

/-- `CASE scope WHEN 'pipeline' THEN 0 WHEN 'project' THEN 1 ELSE 2 END`. -/
def scopeOrder : SecretScope → ℕ
  | .pipeline => 0
  | .project => 1
  | .instanceWide => 2

def SecretRow.version (row : SecretRow) : Text := row.id ++ ":".toList ++ ofInt row.updatedAt

/-- The row a pipeline resolves the name to and when it last changed. -/
def visibleSecretVersion (db : Database) (projectId : Text) (pipelineId : Option Text)
    (name : Text) : Option Text :=
  (first (fun row => scopeOrder row.scope) (select (fun row => (eq (some row.name) (some name)).and
    (visibleCondition projectId pipelineId row)) db.secrets.rows)).map SecretRow.version

def secretNameVisible (db : Database) (projectId : Text) (pipelineId : Option Text)
    (name : Text) : Bool :=
  (existsRow (fun row => (eq (some row.name) (some name)).and
    (visibleCondition projectId pipelineId row)) db.secrets.rows).holds

/-! ## The pipelines that depend on a secret -/

/-- `EXISTS (SELECT 1 FROM secrets s WHERE s.name = ?4 AND s.scope = … AND …)`. -/
def scopeHas (db : Database) (name : Text) (scope : SecretScope) (owner : SecretRow → Truth) :
    Truth :=
  existsRow (fun s => Truth.all [eq (some s.name) (some name), eq (some s.scope) (some scope),
    owner s]) db.secrets.rows

def dependsOn (db : Database) (target : SecretTarget) (name : Text) (t : PublishTarget)
    (p : PipelineRow) : Truth :=
  let scope := some target.scope
  let pipelineHas := scopeHas db name .pipeline fun s => eq s.pipelineId (some p.id)
  let projectHas := scopeHas db name .project fun s => eq s.projectId (some p.projectId)
  let instanceHas := scopeHas db name .instanceWide fun _ => some true
  Truth.all [eq (some t.store) (some .googlePlay), eq t.serviceAccountSecret (some name),
    match target.scope with
    | .instanceWide => some true
    | .project => eq (some p.projectId) target.projectId
    | .pipeline => eq (some p.id) target.pipelineId,
    (eq scope (some .pipeline)).or pipelineHas.not,
    (ne scope (some .instanceWide)).or projectHas.not,
    (ne scope (some .pipeline)).or projectHas.not,
    (eq scope (some .instanceWide)).or instanceHas.not]

/-- The settings and the pipelines that the query keeps, in the order of the names. -/
def dependentRows (db : Database) (target : SecretTarget) (name : Text) :
    List (PublishTarget × PipelineRow) :=
  (select (fun row => dependsOn db target name row.1 row.2)
    (join db.publishTargets.rows db.pipelines.rows fun t p =>
      eq (some p.id) (some t.pipelineId))).mergeSort fun a b => decide (a.2.name ≤ b.2.name)

/-- Names of the pipelines whose Google Play settings resolve their service account to the
secret. -/
def googlePlayDependents (db : Database) (target : SecretTarget) (name : Text) : List Text :=
  (dependentRows db target name).map fun row => row.2.name

/-! ## Visible rows -/

def SecretRow.VisibleTo (row : SecretRow) (projectId : Text) (pipelineId : Option Text) : Prop :=
  match row.scope with
  | .instanceWide => True
  | .project => row.projectId = some projectId
  | .pipeline => pipelineId ≠ none ∧ row.pipelineId = pipelineId

theorem holds_visibleCondition {projectId : Text} {pipelineId : Option Text} {row : SecretRow} :
    (visibleCondition projectId pipelineId row).holds = true ↔
      row.VisibleTo projectId pipelineId := by
  unfold visibleCondition SecretRow.VisibleTo
  cases row.scope with
  | instanceWide => simp
  | project => simp [-holds_eq, holds_eq_some, Truth.holds_all]
  | pipeline =>
    cases pipelineId with
    | none => simp [Truth.holds_all, isNull, Truth.not]
    | some id => simp [Truth.holds_all, isNull, Truth.not]

/-- In one scope a pipeline sees at most one secret of a name. -/
theorem eq_of_visible (db : Database) {projectId : Text} {pipelineId : Option Text}
    {row other : SecretRow} (hrow : row ∈ db.secrets.rows) (hother : other ∈ db.secrets.rows)
    (hvisible : row.VisibleTo projectId pipelineId)
    (hvisible' : other.VisibleTo projectId pipelineId) (hname : row.name = other.name)
    (hscope : row.scope = other.scope) : row = other := by
  have hkey : row.projectId = other.projectId ∧ row.pipelineId = other.pipelineId := by
    have hchecked := db.checked row hrow
    have hchecked' := db.checked other hother
    unfold SecretRow.Checked at hchecked hchecked'
    unfold SecretRow.VisibleTo at hvisible hvisible'
    rw [← hscope] at hchecked' hvisible'
    cases hcase : row.scope with
    | instanceWide =>
      rw [hcase] at hchecked hchecked'
      exact ⟨hchecked.1.trans hchecked'.1.symm, hchecked.2.trans hchecked'.2.symm⟩
    | project =>
      rw [hcase] at hchecked hchecked' hvisible hvisible'
      exact ⟨Eq.trans hvisible hvisible'.symm, hchecked.2.trans hchecked'.2.symm⟩
    | pipeline =>
      rw [hcase] at hvisible hvisible'
      -- both rows have the project of the pipeline
      obtain ⟨id, hid⟩ := Option.ne_none_iff_exists'.mp hvisible.1
      obtain ⟨p, hfind, hproject⟩ := db.attached row hrow id (hvisible.2.trans hid)
      obtain ⟨p', hfind', hproject'⟩ := db.attached other hother id (hvisible'.2.trans hid)
      cases hfind.symm.trans hfind'
      exact ⟨hproject.trans hproject'.symm, hvisible.2.trans hvisible'.2.symm⟩
  refine List.inj_on_of_nodup_map db.secrets.nodup hrow hother ?_
  unfold SecretRow.indexKey
  rw [hscope, hkey.1, hkey.2, hname]

/-- The row that wins: no visible row of the name has a narrower scope. -/
structure Wins (db : Database) (projectId : Text) (pipelineId : Option Text) (name : Text)
    (row : SecretRow) : Prop where
  mem : row ∈ db.secrets.rows
  named : row.name = name
  visible : row.VisibleTo projectId pipelineId
  narrowest : ∀ other ∈ db.secrets.rows, other.name = name →
    other.VisibleTo projectId pipelineId → scopeRank other.scope ≤ scopeRank row.scope

/-- No row of the name is visible. -/
def Unseen (db : Database) (projectId : Text) (pipelineId : Option Text) (name : Text) : Prop :=
  ∀ row ∈ db.secrets.rows, row.name = name → ¬row.VisibleTo projectId pipelineId

theorem scopeRank_injective : Function.Injective scopeRank := by
  intro a b
  cases a <;> cases b <;> simp [scopeRank]

theorem scopeOrder_le_iff (a b : SecretScope) :
    scopeOrder a ≤ scopeOrder b ↔ scopeRank b ≤ scopeRank a := by
  cases a <;> cases b <;> simp [scopeOrder, scopeRank]

theorem Wins.unique {db : Database} {projectId name : Text} {pipelineId : Option Text}
    {row other : SecretRow} (h : Wins db projectId pipelineId name row)
    (h' : Wins db projectId pipelineId name other) : row = other :=
  eq_of_visible db h.mem h'.mem h.visible h'.visible (h.named.trans h'.named.symm)
    (scopeRank_injective (le_antisymm (h'.narrowest row h.mem h.named h.visible)
      (h.narrowest other h'.mem h'.named h'.visible)))

/-! ## The map of the visible rows -/

/-- The entry of a name after some rows: one of those rows, with the narrowest scope. -/
def Narrowest (rows : List SecretRow) (name : Text) : Option (SecretScope × Text) → Prop
  | none => ∀ row ∈ rows, row.name ≠ name
  | some entry => ∃ row ∈ rows, row.name = name ∧ entry = (row.scope, row.valueEncrypted) ∧
      ∀ other ∈ rows, other.name = name → scopeRank other.scope ≤ scopeRank row.scope

theorem Narrowest.addVisible {rows : List SecretRow} {visible : VisibleRows}
    (h : ∀ name, Narrowest rows name (visible name)) (row : SecretRow) (name : Text) :
    Narrowest (rows ++ [row]) name (addVisible visible row name) := by
  have hold := h name
  by_cases hname : row.name = name
  · subst hname
    unfold Secrets.addVisible
    cases hentry : visible row.name with
    | none =>
      rw [hentry] at hold
      rw [Option.any_none, if_neg Bool.false_ne_true, Function.update_self]
      refine ⟨row, by simp, rfl, rfl, fun other hother hsame => ?_⟩
      rcases List.mem_append.mp hother with hmem | hmem
      · exact absurd hsame (hold other hmem)
      · rw [List.mem_singleton.mp hmem]
    | some entry =>
      rw [hentry] at hold
      obtain ⟨best, hbest, hsame, rfl, hle⟩ := hold
      rw [Option.any_some]
      split
      · rename_i hloses
        rw [hentry]
        refine ⟨best, List.mem_append_left _ hbest, hsame, rfl, fun other hother hname => ?_⟩
        rcases List.mem_append.mp hother with hmem | hmem
        · exact hle other hmem hname
        · rw [List.mem_singleton.mp hmem]
          exact of_decide_eq_true hloses
      · rename_i hwins
        rw [Function.update_self]
        have hlt : scopeRank best.scope < scopeRank row.scope := by simpa using hwins
        refine ⟨row, by simp, rfl, rfl, fun other hother hname => ?_⟩
        rcases List.mem_append.mp hother with hmem | hmem
        · exact (hle other hmem hname).trans hlt.le
        · rw [List.mem_singleton.mp hmem]
  · -- the entry of another name stays
    have hsame : Secrets.addVisible visible row name = visible name := by
      unfold Secrets.addVisible
      split
      · rfl
      · exact Function.update_of_ne (Ne.symm hname) _ _
    have hmem : ∀ other ∈ rows ++ [row], other.name = name → other ∈ rows := by
      intro other hother hother'
      rcases List.mem_append.mp hother with hmem | hmem
      · exact hmem
      · exact absurd (List.mem_singleton.mp hmem ▸ hother') hname
    rw [hsame]
    cases hentry : visible name with
    | none =>
      rw [hentry] at hold
      exact fun other hother hother' => hold other (hmem other hother hother') hother'
    | some entry =>
      rw [hentry] at hold
      obtain ⟨best, hbest, hbest', hentry', hle⟩ := hold
      exact ⟨best, List.mem_append_left _ hbest, hbest', hentry', fun other hother hother' =>
        hle other (hmem other hother hother') hother'⟩

theorem narrowest_foldl (rows : List SecretRow) (name : Text) :
    Narrowest rows name (rows.foldl addVisible (fun _ => none) name) := by
  induction rows using List.reverseRecOn generalizing name with
  | nil => exact fun _ hrow => absurd hrow List.not_mem_nil
  | append_singleton rows row ih =>
    rw [List.foldl_concat]
    exact Narrowest.addVisible ih row name

/-! ## The functions on a name -/

section Agreement

variable {db : Database} {projectId name : Text} {pipelineId : Option Text}

/-- The condition of the rows of one name. -/
theorem mem_visibleRows {row : SecretRow} :
    row ∈ select (fun row => (visibleCondition projectId pipelineId row).and
        ((isNull (some name)).or (eq (some row.name) (some name)))) db.secrets.rows ↔
      row ∈ db.secrets.rows ∧ row.VisibleTo projectId pipelineId ∧ row.name = name := by
  rw [mem_select, Truth.holds_and, Bool.and_eq_true, holds_visibleCondition]
  simp

theorem mem_allVisibleRows {row : SecretRow} :
    row ∈ select (fun row => (visibleCondition projectId pipelineId row).and
        ((isNull (none : Option Text)).or (eq (some row.name) none))) db.secrets.rows ↔
      row ∈ db.secrets.rows ∧ row.VisibleTo projectId pipelineId := by
  rw [mem_select, Truth.holds_and, Bool.and_eq_true, holds_visibleCondition]
  simp

theorem mem_namedRows {row : SecretRow} :
    row ∈ select (fun row => (eq (some row.name) (some name)).and
        (visibleCondition projectId pipelineId row)) db.secrets.rows ↔
      row ∈ db.secrets.rows ∧ row.name = name ∧ row.VisibleTo projectId pipelineId := by
  rw [mem_select, Truth.holds_and, Bool.and_eq_true, holds_visibleCondition]
  simp

/-- The row that the query of the version reads. -/
def winningRow (db : Database) (projectId : Text) (pipelineId : Option Text) (name : Text) :
    Option SecretRow :=
  first (fun row => scopeOrder row.scope) (select (fun row => (eq (some row.name) (some name)).and
    (visibleCondition projectId pipelineId row)) db.secrets.rows)

theorem visibleSecretVersion_eq : visibleSecretVersion db projectId pipelineId name =
    (winningRow db projectId pipelineId name).map SecretRow.version := rfl

theorem winningRow_eq_some_iff {row : SecretRow} :
    winningRow db projectId pipelineId name = some row ↔ Wins db projectId pipelineId name row := by
  unfold winningRow
  rw [first_eq_some_iff]
  · constructor
    · rintro ⟨hmem, hleast⟩
      obtain ⟨hrow, hname, hvisible⟩ := mem_namedRows.mp hmem
      exact ⟨hrow, hname, hvisible, fun other hother hname' hvisible' => (scopeOrder_le_iff _ _).mp
        (hleast other (mem_namedRows.mpr ⟨hother, hname', hvisible'⟩))⟩
    · intro hwins
      refine ⟨mem_namedRows.mpr ⟨hwins.mem, hwins.named, hwins.visible⟩, fun other hother => ?_⟩
      obtain ⟨hmem, hname, hvisible⟩ := mem_namedRows.mp hother
      exact (scopeOrder_le_iff _ _).mpr (hwins.narrowest other hmem hname hvisible)
  · intro a ha b hb horder
    obtain ⟨hmem, hname, hvisible⟩ := mem_namedRows.mp ha
    obtain ⟨hmem', hname', hvisible'⟩ := mem_namedRows.mp hb
    have hscope : a.scope = b.scope := scopeRank_injective
      (le_antisymm ((scopeOrder_le_iff _ _).mp horder.ge) ((scopeOrder_le_iff _ _).mp horder.le))
    exact eq_of_visible db hmem hmem' hvisible hvisible' (hname.trans hname'.symm) hscope

theorem winningRow_eq_none_iff :
    winningRow db projectId pipelineId name = none ↔ Unseen db projectId pipelineId name := by
  unfold winningRow
  rw [first_eq_none_iff, List.eq_nil_iff_forall_not_mem]
  constructor
  · intro h row hrow hname hvisible
    exact h row (mem_namedRows.mpr ⟨hrow, hname, hvisible⟩)
  · intro h row hrow
    obtain ⟨hmem, hname, hvisible⟩ := mem_namedRows.mp hrow
    exact h row hmem hname hvisible

/-- The entry of a name is that of the row that wins, when the rows are those that a pipeline
sees. -/
theorem Narrowest.eq_winningRow {rows : List SecretRow} {entry : Option (SecretScope × Text)}
    (h : Narrowest rows name entry) (hrows : ∀ row, row.name = name →
      (row ∈ rows ↔ row ∈ db.secrets.rows ∧ row.VisibleTo projectId pipelineId)) :
    entry = (winningRow db projectId pipelineId name).map fun row =>
      (row.scope, row.valueEncrypted) := by
  cases entry with
  | none =>
    have hunseen : Unseen db projectId pipelineId name := fun row hrow hname hvisible =>
      h row ((hrows row hname).mpr ⟨hrow, hvisible⟩) hname
    rw [winningRow_eq_none_iff.mpr hunseen, Option.map_none]
  | some entry =>
    obtain ⟨row, hrow, hname, rfl, hle⟩ := h
    obtain ⟨hmem, hvisible⟩ := (hrows row hname).mp hrow
    have hwins : Wins db projectId pipelineId name row :=
      ⟨hmem, hname, hvisible, fun other hother hname' hvisible' =>
        hle other ((hrows other hname').mpr ⟨hother, hvisible'⟩) hname'⟩
    rw [winningRow_eq_some_iff.mpr hwins, Option.map_some]

theorem visibleSecretRows_named : visibleSecretRows db projectId pipelineId (some name) name =
    (winningRow db projectId pipelineId name).map fun row => (row.scope, row.valueEncrypted) := by
  refine (narrowest_foldl _ name).eq_winningRow fun row hname => ?_
  rw [mem_visibleRows]
  exact ⟨fun h => ⟨h.1, h.2.1⟩, fun h => ⟨h.1, h.2, hname⟩⟩

theorem visibleSecretRows_all : visibleSecretRows db projectId pipelineId none name =
    (winningRow db projectId pipelineId name).map fun row => (row.scope, row.valueEncrypted) :=
  (narrowest_foldl _ name).eq_winningRow fun _ _ => mem_allVisibleRows

theorem secretNameVisible_eq : secretNameVisible db projectId pipelineId name =
    (winningRow db projectId pipelineId name).isSome := by
  rw [Bool.eq_iff_iff, Option.isSome_iff_ne_none, Ne, winningRow_eq_none_iff]
  unfold secretNameVisible Unseen
  rw [holds_existsRow]
  simp only [Truth.holds_and, Bool.and_eq_true, holds_visibleCondition, holds_eq_some,
    Option.some.injEq]
  push Not
  rfl

end Agreement

/-! ## Dependents -/

/-- The name resolves to a secret, one that cannot be decrypted included. -/
def Finds (decrypt : Text → Except Text Text) (db : Database) (p : PipelineRow) (name : Text) :
    Prop :=
  resolveSecretValue decrypt db p.projectId (some p.id) name ≠ .ok none

/-- The pipeline's Google Play settings name the secret. -/
def UsesSecret (db : Database) (p : PipelineRow) (name : Text) : Prop :=
  ∃ t ∈ db.publishTargets.rows, t.pipelineId = p.id ∧ t.store = .googlePlay ∧
    t.serviceAccountSecret = some name

theorem finds_iff (decrypt : Text → Except Text Text) (db : Database) (p : PipelineRow)
    (name : Text) : Finds decrypt db p name ↔ ¬Unseen db p.projectId (some p.id) name := by
  unfold Finds resolveSecretValue
  rw [visibleSecretRows_named, ← winningRow_eq_none_iff]
  cases winningRow db p.projectId (some p.id) name with
  | none => simp
  | some row =>
    have hsome : (decryptVisible decrypt name row.scope row.valueEncrypted).map some ≠
        .ok none := by
      cases decryptVisible decrypt name row.scope row.valueEncrypted with
      | error message => exact fun h => by cases h
      | ok value => exact fun h => by cases h
    simpa using hsome

theorem holds_selects {target : SecretTarget} {name : Text} {row : SecretRow} :
    (target.selects name row).holds = true ↔ row.scope = target.scope ∧
      row.projectId = target.projectId ∧ row.pipelineId = target.pipelineId ∧ row.name = name := by
  simp [SecretTarget.selects, Truth.holds_all]

section Deletion

variable {db : Database} {target : SecretTarget} {name : Text} {row : SecretRow}

/-- A target selects one row. -/
theorem eq_of_selects (hrow : row ∈ db.secrets.rows) (hselects : (target.selects name row).holds)
    {other : SecretRow} (hother : other ∈ db.secrets.rows)
    (hselects' : (target.selects name other).holds) : other = row := by
  obtain ⟨hscope, hproject, hpipeline, hname⟩ := holds_selects.mp hselects
  obtain ⟨hscope', hproject', hpipeline', hname'⟩ := holds_selects.mp hselects'
  refine List.inj_on_of_nodup_map db.secrets.nodup hother hrow ?_
  unfold SecretRow.indexKey
  rw [hscope, hproject, hpipeline, hname, hscope', hproject', hpipeline', hname']

/-- The pipelines that lose the name with the row: they see it, and no other row of the name. -/
theorem loses_iff (hrow : row ∈ db.secrets.rows) (hselects : (target.selects name row).holds)
    {projectId : Text} {pipelineId : Option Text} :
    (¬Unseen db projectId pipelineId name ∧
        Unseen (deleteSecret db target name) projectId pipelineId name) ↔
      row.VisibleTo projectId pipelineId ∧ ∀ other ∈ db.secrets.rows, other.name = name →
        other.VisibleTo projectId pipelineId → other.scope = row.scope := by
  have hname : row.name = name := (holds_selects.mp hselects).2.2.2
  have hleft : ∀ other, other ∈ (deleteSecret db target name).secrets.rows ↔
      other ∈ db.secrets.rows ∧ other ≠ row := by
    intro other
    show other ∈ db.secrets.rows.filter _ ↔ _
    rw [List.mem_filter]
    refine and_congr_right fun hother => ?_
    rw [Bool.not_eq_true', ← Bool.not_eq_true]
    exact not_congr ⟨eq_of_selects hrow hselects hother, fun heq => heq ▸ hselects⟩
  constructor
  · rintro ⟨hseen, hunseen⟩
    have honly : ∀ other ∈ db.secrets.rows, other.name = name →
        other.VisibleTo projectId pipelineId → other = row := by
      intro other hother hname' hvisible
      by_contra hne
      exact hunseen other ((hleft other).mpr ⟨hother, hne⟩) hname' hvisible
    refine ⟨?_, fun other hother hname' hvisible => by rw [honly other hother hname' hvisible]⟩
    unfold Unseen at hseen
    push Not at hseen
    obtain ⟨other, hother, hname', hvisible⟩ := hseen
    exact honly other hother hname' hvisible ▸ hvisible
  · rintro ⟨hvisible, honly⟩
    refine ⟨fun hunseen => hunseen row hrow hname hvisible, fun other hother hname' hvisible' => ?_⟩
    obtain ⟨hmem, hne⟩ := (hleft other).mp hother
    exact hne (eq_of_visible db hmem hrow hvisible' hvisible (hname'.trans hname.symm)
      (honly other hmem hname' hvisible'))

end Deletion

section Query

variable {db : Database} {target : SecretTarget} {name : Text} {row : SecretRow} {p : PipelineRow}

/-- The pipeline sees a secret of the name in the scope. -/
def HasScope (db : Database) (p : PipelineRow) (name : Text) (scope : SecretScope) : Prop :=
  ∃ s ∈ db.secrets.rows, s.name = name ∧ s.scope = scope ∧ s.VisibleTo p.projectId (some p.id)

/-- A subquery of the query for the dependents. -/
theorem holds_not_scopeHas {scope : SecretScope} {owner : SecretRow → Truth}
    (howner : ∀ s, s.scope = scope →
      ((owner s).holds = true ↔ s.VisibleTo p.projectId (some p.id))) :
    (scopeHas db name scope owner).not.holds = true ↔ ¬HasScope db p name scope := by
  have hnot : (scopeHas db name scope owner).not.holds =
      !(scopeHas db name scope owner).holds := rfl
  rw [hnot, Bool.not_eq_true', ← Bool.not_eq_true]
  refine not_congr ?_
  unfold scopeHas HasScope
  rw [holds_existsRow]
  refine exists_congr fun s => and_congr_right fun _ => ?_
  simp only [Truth.holds_all, List.all_cons, List.all_nil, Bool.and_true, Bool.and_eq_true,
    holds_eq_some, Option.some.injEq]
  exact and_congr_right fun _ => and_congr_right fun hscope => howner s hscope

theorem holds_not_pipelineHas :
    (scopeHas db name .pipeline fun s => eq s.pipelineId (some p.id)).not.holds = true ↔
      ¬HasScope db p name .pipeline :=
  holds_not_scopeHas fun s hscope => by simp [SecretRow.VisibleTo, hscope, -holds_eq, holds_eq_some]

theorem holds_not_projectHas :
    (scopeHas db name .project fun s => eq s.projectId (some p.projectId)).not.holds = true ↔
      ¬HasScope db p name .project :=
  holds_not_scopeHas fun s hscope => by simp [SecretRow.VisibleTo, hscope, -holds_eq, holds_eq_some]

theorem holds_not_instanceHas :
    (scopeHas db name .instanceWide fun _ => some true).not.holds = true ↔
      ¬HasScope db p name .instanceWide :=
  holds_not_scopeHas fun s hscope => by simp [SecretRow.VisibleTo, hscope]

/-- The secrets of one scope are the only ones that the pipeline sees. -/
theorem forall_scope_iff : (∀ other ∈ db.secrets.rows, other.name = name →
      other.VisibleTo p.projectId (some p.id) → other.scope = row.scope) ↔
    ∀ scope, scope ≠ row.scope → ¬HasScope db p name scope := by
  constructor
  · rintro h scope hne ⟨s, hs, hname, rfl, hvisible⟩
    exact hne (h s hs hname hvisible)
  · intro h other hother hname hvisible
    by_contra hne
    exact h other.scope hne ⟨other, hother, hname, rfl, hvisible⟩

theorem forall_secretScope {P : SecretScope → Prop} :
    (∀ scope, P scope) ↔ P .instanceWide ∧ P .project ∧ P .pipeline := by
  constructor
  · exact fun h => ⟨h _, h _, h _⟩
  · rintro ⟨hinstance, hproject, hpipeline⟩ scope
    cases scope with
    | instanceWide => exact hinstance
    | project => exact hproject
    | pipeline => exact hpipeline

/-- The condition of the query, whichever the scope of the secret. -/
theorem holds_dependsOn (hselects : (target.selects name row).holds) (t : PublishTarget) :
    (dependsOn db target name t p).holds = true ↔ t.store = .googlePlay ∧
      t.serviceAccountSecret = some name ∧ row.VisibleTo p.projectId (some p.id) ∧
      ∀ scope, scope ≠ row.scope → ¬HasScope db p name scope := by
  obtain ⟨hscope, hproject, hpipeline, -⟩ := holds_selects.mp hselects
  unfold dependsOn SecretRow.VisibleTo
  rw [hproject, hpipeline, hscope]
  simp only [Truth.holds_all, List.all_cons, List.all_nil, Bool.and_true, Bool.and_eq_true,
    Truth.holds_or, Bool.or_eq_true, holds_eq_some, Option.some.injEq, holds_not_pipelineHas,
    holds_not_projectHas, holds_not_instanceHas (p := p), holds_ne_some]
  cases target.scope with
  | instanceWide => simp [forall_secretScope, and_comm]
  | project => simp [-holds_eq, holds_some_eq, forall_secretScope, and_comm]
  | pipeline =>
    simp [-holds_eq, holds_some_eq, forall_secretScope,
      and_comm (a := ¬HasScope db p name .project)]

/-- The query keeps the pipelines that use the secret and lose it. -/
theorem mem_dependentRows (hselects : (target.selects name row).holds) {t : PublishTarget} :
    (t, p) ∈ dependentRows db target name ↔ (t ∈ db.publishTargets.rows ∧ p ∈ db.pipelines.rows ∧
      p.id = t.pipelineId) ∧ t.store = .googlePlay ∧ t.serviceAccountSecret = some name ∧
      row.VisibleTo p.projectId (some p.id) ∧
      ∀ scope, scope ≠ row.scope → ¬HasScope db p name scope := by
  unfold dependentRows
  rw [List.mem_mergeSort, mem_select, holds_dependsOn hselects, mem_join, holds_eq_some,
    Option.some.injEq]

/-- A pipeline has one row of Google Play settings. -/
theorem nodup_dependentRows (db : Database) (target : SecretTarget) (name : Text)
    (hselects : (target.selects name row).holds) :
    ((dependentRows db target name).map Prod.snd).Nodup := by
  have hrows : (dependentRows db target name).Nodup :=
    (List.mergeSort_perm _ _).nodup_iff.mpr (List.Nodup.filter _
      (nodup_join (List.Nodup.of_map _ db.publishTargets.nodup)
        (List.Nodup.of_map _ db.pipelines.nodup)))
  refine hrows.map_on fun first hfirst second hsecond hsame => ?_
  obtain ⟨⟨ht, -, hid⟩, hstore, -⟩ := (mem_dependentRows hselects).mp hfirst
  obtain ⟨⟨ht', -, hid'⟩, hstore', -⟩ := (mem_dependentRows hselects).mp hsecond
  refine Prod.ext (List.inj_on_of_nodup_map db.publishTargets.nodup ht ht' ?_) hsame
  unfold PublishTarget.indexKey
  rw [← hid, ← hid', hstore, hstore', hsame]

theorem pairwise_dependentRows (db : Database) (target : SecretTarget) (name : Text) :
    (dependentRows db target name).Pairwise fun a b => a.2.name ≤ b.2.name := by
  unfold dependentRows
  refine (List.pairwise_mergeSort (fun a b c hab hbc => ?_) (fun a b => ?_) _).imp fun {a b} h =>
    of_decide_eq_true h
  · exact decide_eq_true ((of_decide_eq_true hab).trans (of_decide_eq_true hbc))
  · simpa using le_total a.2.name b.2.name

end Query

/-! ## Agreement -/

/-- The names listed are those of the pipelines that use the secret, find it before the deletion and
find none after it. -/
def DependentsExact (decrypt : Text → Except Text Text) (db : Database) (target : SecretTarget)
    (name : Text) : Prop :=
  ∃ pipelines : List PipelineRow, pipelines.Nodup ∧
    (pipelines.Pairwise fun a b => a.name ≤ b.name) ∧
    (∀ p, p ∈ pipelines ↔ p ∈ db.pipelines.rows ∧ UsesSecret db p name ∧ Finds decrypt db p name ∧
      ¬Finds decrypt (deleteSecret db target name) p name) ∧
    googlePlayDependents db target name = pipelines.map PipelineRow.name

theorem dependents_exact (decrypt : Text → Except Text Text) (db : Database)
    {target : SecretTarget} {name : Text} {row : SecretRow} (hrow : row ∈ db.secrets.rows)
    (hselects : (target.selects name row).holds) : DependentsExact decrypt db target name := by
  refine ⟨(dependentRows db target name).map Prod.snd, nodup_dependentRows db target name hselects,
    List.pairwise_map.mpr (pairwise_dependentRows db target name), fun p => ?_,
    (List.map_map ..).symm⟩
  have hloses : row.VisibleTo p.projectId (some p.id) ∧
      (∀ scope, scope ≠ row.scope → ¬HasScope db p name scope) ↔
      Finds decrypt db p name ∧ ¬Finds decrypt (deleteSecret db target name) p name := by
    rw [finds_iff, finds_iff, not_not, loses_iff hrow hselects, forall_scope_iff]
  rw [← hloses]
  constructor
  · intro hmem
    obtain ⟨⟨t, p'⟩, hrow', rfl⟩ := List.mem_map.mp hmem
    obtain ⟨⟨ht, hp, hid⟩, hstore, hsecret, hvisible, hscopes⟩ :=
      (mem_dependentRows hselects).mp hrow'
    exact ⟨hp, ⟨t, ht, hid.symm, hstore, hsecret⟩, hvisible, hscopes⟩
  · rintro ⟨hp, ⟨t, ht, hid, hstore, hsecret⟩, hvisible, hscopes⟩
    exact List.mem_map.mpr ⟨(t, p), (mem_dependentRows hselects).mpr
      ⟨⟨ht, hp, hid.symm⟩, hstore, hsecret, hvisible, hscopes⟩, rfl⟩

/-- One row wins a name, and the map, the version and the test agree on it. -/
def VisibleAgree (db : Database) (projectId : Text) (pipelineId : Option Text) (name : Text) :
    Prop :=
  ∃ winner : Option SecretRow,
    (∀ row, winner = some row ↔ Wins db projectId pipelineId name row) ∧
    (winner = none ↔ Unseen db projectId pipelineId name) ∧
    visibleSecretRows db projectId pipelineId none name =
      winner.map (fun row => (row.scope, row.valueEncrypted)) ∧
    visibleSecretRows db projectId pipelineId (some name) name =
      winner.map (fun row => (row.scope, row.valueEncrypted)) ∧
    visibleSecretVersion db projectId pipelineId name = winner.map SecretRow.version ∧
    secretNameVisible db projectId pipelineId name = winner.isSome

theorem visible_agree (db : Database) (projectId : Text) (pipelineId : Option Text) (name : Text) :
    VisibleAgree db projectId pipelineId name :=
  ⟨winningRow db projectId pipelineId name, fun _ => winningRow_eq_some_iff,
    winningRow_eq_none_iff, visibleSecretRows_all, visibleSecretRows_named,
    visibleSecretVersion_eq, secretNameVisible_eq⟩

/-- The four places agree: of every secret the query lists exactly the pipelines that lose it, and
every pipeline and name has one row that wins. -/
theorem scopes_agree (decrypt : Text → Except Text Text) (db : Database) :
    (∀ target name, (∃ row ∈ db.secrets.rows, (target.selects name row).holds) →
      DependentsExact decrypt db target name) ∧
    ∀ projectId pipelineId name, VisibleAgree db projectId pipelineId name :=
  ⟨fun _ _ ⟨_, hrow, hselects⟩ => dependents_exact decrypt db hrow hselects,
    visible_agree db⟩

/-- Three pipelines that publish with the secret `PLAY`, and no secret. -/
def threePipelines : Database where
  secrets := ⟨[], by decide⟩
  pipelines := ⟨[⟨['1'], ['p'], ['A']⟩, ⟨['2'], ['p'], ['B']⟩, ⟨['3'], ['q'], ['O']⟩], by decide⟩
  publishTargets := ⟨[⟨['1'], .googlePlay, some "PLAY".toList⟩,
    ⟨['2'], .googlePlay, some "PLAY".toList⟩, ⟨['3'], .googlePlay, some "PLAY".toList⟩], by decide⟩
  checked _ h := absurd h List.not_mem_nil
  attached _ h := absurd h List.not_mem_nil

/-- The instance and the second pipeline have a secret `PLAY`. -/
def twoScopes : Database :=
  let db := (insertSecret threePipelines instanceTarget (.inl rfl) ['a'] "PLAY".toList ['x'] 1).get
    (by decide)
  (insertSecret db ⟨.pipeline, some ['p'], some ['2']⟩ (.inr (.inr ⟨['2'], by decide⟩)) ['b']
    "PLAY".toList ['y'] 2).get (by decide)

theorem scopes_agree_twoScopes :
    googlePlayDependents twoScopes instanceTarget "PLAY".toList = [['A'], ['O']] ∧
      DependentsExact .ok twoScopes instanceTarget "PLAY".toList := by
  refine ⟨?_, (scopes_agree .ok twoScopes).1 instanceTarget "PLAY".toList (by decide +kernel)⟩
  have hrows : select (fun row => dependsOn twoScopes instanceTarget "PLAY".toList row.1 row.2)
      (join twoScopes.publishTargets.rows twoScopes.pipelines.rows fun t p =>
        eq (some p.id) (some t.pipelineId)) =
      [(⟨['1'], .googlePlay, some "PLAY".toList⟩, ⟨['1'], ['p'], ['A']⟩),
        (⟨['3'], .googlePlay, some "PLAY".toList⟩, ⟨['3'], ['q'], ['O']⟩)] := by
    decide +kernel
  unfold googlePlayDependents dependentRows
  rw [hrows, List.mergeSort_of_pairwise (by decide)]
  rfl

end OoreBuild.Secrets
