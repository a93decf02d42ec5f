import OoreBuild.Validate
import OoreBuild.Lib.Matching

/-!
# Artifact sizes

A build's artifacts are compared with those of a baseline build: first by name, then by kind where
each build has one artifact of that kind. A size budget limits the size of each artifact of a kind
and its change from the baseline artifact. Recorded sizes are not negative, so their difference
fits 64 bits.
-/

namespace OoreBuild

namespace Sizes

open Text

structure SizeRow where
  artifactId : Text
  name : Text
  artifactType : Text
  sizeBytes : ℤ
  inRange : 0 ≤ sizeBytes ∧ sizeBytes < 2 ^ 63
  deriving DecidableEq

/-- One artifact's size, and its change from the matching baseline artifact. -/
structure ArtifactSizeComparison where
  artifactId : Text
  name : Text
  artifactType : Text
  sizeBytes : ℤ
  baselineName : Option Text
  baselineSizeBytes : Option ℤ
  deltaBytes : Option ℤ
  deriving DecidableEq

/-- An artifact's kind: its lowercase file extension, or its type when the name has none. -/
def artifactKind (name artifactType : Text) : Text :=
  let extension := name.rtakeWhile (· ≠ '.')
  if '.' ∈ name ∧ extension ≠ [] then toAsciiLowercase extension
  else toAsciiLowercase artifactType

def fileKind (row : SizeRow) : Text := artifactKind row.name row.artifactType

/-! ## Comparing two builds -/

def names (rows : List SizeRow) : List Text := rows.map (·.name)

/-- The positions of the rows of a kind. -/
def ofKind (rows : List SizeRow) (kind : Text) : List ℕ :=
  (rows.zipIdx.filter fun row => fileKind row.1 = kind).map (·.2)

/-- The unused baseline artifact of a kind, where each build has one artifact of it. -/
def onlyPartner (current baseline : List SizeRow) (used : List ℕ) (kind : Text) : Option ℕ :=
  match ofKind baseline kind with
  | [only] =>
    if (current.filter fun other => fileKind other = kind).length = 1 ∧ only ∉ used then some only
    else none
  | _ => none

/-- The second pass, over the artifacts with what the first one found for them. -/
def matchByKind (current baseline : List SizeRow) (used : List ℕ) :
    List (SizeRow × Option ℕ) → List (Option ℕ)
  | [] => []
  | (_, some index) :: rest => some index :: matchByKind current baseline used rest
  | (artifact, none) :: rest =>
    let found := onlyPartner current baseline used (fileKind artifact)
    found :: matchByKind current baseline (found.toList ++ used) rest

/-- The position of the baseline artifact of each artifact. -/
def matched (current baseline : List SizeRow) : List (Option ℕ) :=
  let byName := Matching.greedy (names baseline) [] (names current)
  matchByKind current baseline byName.2 (current.zip byName.1)

def comparison (artifact : SizeRow) (base : Option SizeRow) : ArtifactSizeComparison where
  artifactId := artifact.artifactId
  name := artifact.name
  artifactType := artifact.artifactType
  sizeBytes := artifact.sizeBytes
  baselineName := base.map (·.name)
  baselineSizeBytes := base.map (·.sizeBytes)
  deltaBytes := base.map fun base => artifact.sizeBytes - base.sizeBytes

/-- Pair each artifact with a baseline artifact: the same name first, then by kind when each build
has exactly one artifact of that kind. -/
def compareSizes (current baseline : List SizeRow) : List ArtifactSizeComparison :=
  List.zipWith (fun artifact (index : Option ℕ) =>
    comparison artifact (index.bind fun index => baseline[index]?)) current
    (matched current baseline)

/-! ## Size budgets -/

/-- A size budget limit an artifact went over. -/
inductive BudgetLimit where
  | bytes (max : ℤ)
  | increaseBytes (max : ℤ)
  | increasePercent (max : F64)
  deriving DecidableEq

structure BudgetViolation where
  name : Text
  artifactType : Text
  sizeBytes : ℤ
  /-- Change from the baseline artifact and that artifact's size. -/
  change : Option (ℤ × ℤ)
  limit : BudgetLimit
  deriving DecidableEq

def ArtifactSizeComparison.kind (artifact : ArtifactSizeComparison) : Text :=
  artifactKind artifact.name artifact.artifactType

def ArtifactSizeComparison.change (artifact : ArtifactSizeComparison) : Option (ℤ × ℤ) :=
  artifact.deltaBytes.bind fun delta => artifact.baselineSizeBytes.map fun base => (delta, base)

def ArtifactSizeComparison.over (artifact : ArtifactSizeComparison) (limit : BudgetLimit) :
    BudgetViolation where
  name := artifact.name
  artifactType := artifact.artifactType
  sizeBytes := artifact.sizeBytes
  change := artifact.change
  limit

/-- `delta as f64 / baseline as f64 * 100.0`, for a positive baseline. -/
def percentChange (delta baseline : ℤ) : F64 :=
  match F64.ofRat baseline with
  | .finite base => ((F64.ofRat delta).divPos base).mulPos 100
  | _ => .nan

/-- The test of a limit. Any growth from an empty baseline is beyond every percent limit. -/
def isOver (artifact : ArtifactSizeComparison) : BudgetLimit → Bool
  | .bytes max => max < artifact.sizeBytes
  | .increaseBytes max => artifact.change.any fun change => max < change.1
  | .increasePercent max => artifact.change.any fun change =>
    0 < change.1 && (change.2 ≤ 0 || F64.lt max (percentChange change.1 change.2))

/-- The limits a rule sets, in the order they are checked. -/
def limits (rule : SizeBudgetRule) : List BudgetLimit :=
  (rule.maxBytes.map .bytes).toList ++ (rule.maxIncreaseBytes.map .increaseBytes).toList ++
    (rule.maxIncreasePercent.map .increasePercent).toList

/-- The limits one artifact goes over. -/
def checkArtifact (budget : SizeBudget) (artifact : ArtifactSizeComparison) :
    List BudgetViolation :=
  match budget.rules.find? fun rule => rule.kind = artifact.kind with
  | none => []
  | some rule => ((limits rule).filter (isOver artifact)).map artifact.over

/-- The limits each artifact goes over. -/
def checkBudget (artifacts : List ArtifactSizeComparison) (budget : SizeBudget) :
    List BudgetViolation :=
  artifacts.flatMap (checkArtifact budget)

/-! ## Kinds -/

/-- The row at a position is the only one of a kind. -/
def OnlyOfKind (rows : List SizeRow) (position : ℕ) (kind : Text) : Prop :=
  ∃ row, rows[position]? = some row ∧ fileKind row = kind ∧
    ∀ k other, rows[k]? = some other → fileKind other = kind → k = position

theorem mem_ofKind {rows : List SizeRow} {kind : Text} {position : ℕ} :
    position ∈ ofKind rows kind ↔ ∃ row, rows[position]? = some row ∧ fileKind row = kind := by
  unfold ofKind
  constructor
  · intro h
    obtain ⟨⟨row, index⟩, hmem, rfl⟩ := List.mem_map.mp h
    obtain ⟨hmem, hkind⟩ := List.mem_filter.mp hmem
    exact ⟨row, List.mem_zipIdx_iff_getElem?.mp hmem, of_decide_eq_true hkind⟩
  · rintro ⟨row, hrow, hkind⟩
    refine List.mem_map.mpr ⟨(row, position), List.mem_filter.mpr ⟨?_, decide_eq_true hkind⟩, rfl⟩
    exact List.mem_zipIdx_iff_getElem?.mpr hrow

theorem nodup_ofKind (rows : List SizeRow) (kind : Text) : (ofKind rows kind).Nodup := by
  have hall : (rows.zipIdx.map (·.2)).Nodup := by
    rw [List.zipIdx_map_snd]
    exact List.nodup_range'
  exact hall.sublist (List.filter_sublist.map _)

theorem length_ofKind (rows : List SizeRow) (kind : Text) :
    (ofKind rows kind).length = (rows.filter fun row => fileKind row = kind).length := by
  have hmap : (rows.zipIdx.filter fun row => fileKind row.1 = kind).map (·.1) =
      rows.filter fun row => fileKind row = kind := by
    conv_rhs => rw [← List.zipIdx_map_fst 0 rows, List.filter_map]
    rfl
  rw [← hmap, ofKind, List.length_map, List.length_map]

theorem ofKind_eq_singleton {rows : List SizeRow} {kind : Text} {position : ℕ} :
    ofKind rows kind = [position] ↔ OnlyOfKind rows position kind := by
  constructor
  · intro h
    have hmem : position ∈ ofKind rows kind := by rw [h]; exact List.mem_singleton_self _
    obtain ⟨row, hrow, hkind⟩ := mem_ofKind.mp hmem
    refine ⟨row, hrow, hkind, fun k other hother hk => ?_⟩
    have hk : k ∈ ofKind rows kind := mem_ofKind.mpr ⟨other, hother, hk⟩
    rw [h] at hk
    exact List.mem_singleton.mp hk
  · rintro ⟨row, hrow, hkind, honly⟩
    have hall : ∀ k ∈ ofKind rows kind, k = position := by
      intro k hk
      obtain ⟨other, hother, hk⟩ := mem_ofKind.mp hk
      exact honly k other hother hk
    have hmem : position ∈ ofKind rows kind := mem_ofKind.mpr ⟨row, hrow, hkind⟩
    exact List.Perm.eq_singleton ((List.perm_ext_iff_of_nodup (nodup_ofKind rows kind)
      (List.nodup_singleton position)).mpr fun k =>
        ⟨fun hk => List.mem_singleton.mpr (hall k hk), fun hk => List.mem_singleton.mp hk ▸ hmem⟩)

end Sizes

end OoreBuild
