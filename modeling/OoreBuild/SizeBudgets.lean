import OoreBuild.SizePairs
import OoreBuild.Lib.F64Order

/-!
# Size budgets

`check_budget` computes a growth in percent in doubles, so a limit between the exact percentage and
the rounded one is decided the wrong way: 107 bytes over 100 are `7.000000000000001` percent. Every
other limit is decided by the sizes themselves.
-/

namespace OoreBuild

namespace Sizes

open Text

/-- An artifact is over a limit. Any growth from an empty baseline is beyond every percent limit. -/
def exceeds (artifact : ArtifactSizeComparison) : BudgetLimit → Bool
  | .bytes max => max < artifact.sizeBytes
  | .increaseBytes max => artifact.change.any fun change => max < change.1
  | .increasePercent (.finite max) => artifact.change.any fun change =>
    0 < change.1 && (change.2 ≤ 0 || max < 100 * (change.1 : ℚ) / change.2)
  | .increasePercent _ => false

/-- A violation for each limit of the artifact's kind that fails a test. -/
def violationsBy (test : ArtifactSizeComparison → BudgetLimit → Bool) (budget : SizeBudget)
    (artifact : ArtifactSizeComparison) : List BudgetViolation :=
  (((budget.rules.filter fun rule => rule.kind = artifact.kind).flatMap limits).filter
    (test artifact)).map artifact.over

/-- The check reports a violation for exactly the limits that the artifacts are over. -/
def ChecksExactly (artifacts : List ArtifactSizeComparison) (budget : SizeBudget) : Prop :=
  checkBudget artifacts budget = artifacts.flatMap (violationsBy exceeds budget)

/-! ## Percentages in doubles -/

/-- The limit lies between the exact percentage and the one computed in doubles. -/
def Crosses (delta baseline : ℤ) (max : ℚ) : Prop :=
  100 * (delta : ℚ) / baseline ≤ max ∧
      F64.lt (.finite max) (percentChange delta baseline) = true ∨
    max < 100 * (delta : ℚ) / baseline ∧
      F64.lt (.finite max) (percentChange delta baseline) = false

theorem not_crosses_iff {delta baseline : ℤ} {max : ℚ} :
    ¬ Crosses delta baseline max ↔
      F64.lt (.finite max) (percentChange delta baseline) =
        decide (max < 100 * (delta : ℚ) / baseline) := by
  unfold Crosses
  rw [← not_lt]
  cases F64.lt (.finite max) (percentChange delta baseline) <;>
    by_cases h : max < 100 * (delta : ℚ) / baseline <;> simp [h]

/-- A size that fits 64 bits lies within the range of the doubles. -/
theorem ofRat_size {size : ℤ} (hpos : 0 < size) (hbound : size < 2 ^ 63) :
    ∃ r, F64.ofRat size = .finite r ∧ F64.Within 1 r size := by
  have hlow : (1 : ℚ) ≤ size := by exact_mod_cast hpos
  have hhigh : (size : ℚ) ≤ 2 ^ 63 := by exact_mod_cast hbound.le
  refine F64.ofRat_within ?_ ?_
  · exact le_trans (by norm_num) hlow
  · exact le_trans hhigh (by norm_num)

/-- The percentage in doubles is within one part in `2 ^ 50` of the exact one. -/
theorem percentChange_near {delta baseline : ℤ} (hdelta : 0 < delta) (hdelta' : delta < 2 ^ 63)
    (hbaseline : 0 < baseline) (hbaseline' : baseline < 2 ^ 63) :
    ∃ r, percentChange delta baseline = .finite r ∧
      |r - 100 * (delta : ℚ) / baseline| ≤ 100 * (delta : ℚ) / baseline / 2 ^ 50 := by
  obtain ⟨d, hd, hdnear⟩ := ofRat_size hdelta hdelta'
  obtain ⟨b, hb, hbnear⟩ := ofRat_size hbaseline hbaseline'
  have hdpos : (0 : ℚ) < delta := by exact_mod_cast hdelta
  have hbpos : (0 : ℚ) < baseline := by exact_mod_cast hbaseline
  have hquotient : F64.Within 2 (d / b) ((delta : ℚ) / baseline) := hdnear.div hbnear hdpos hbpos
  have hexactPos : 0 < (delta : ℚ) / baseline := div_pos hdpos hbpos
  have hexact : (1 : ℚ) / 2 ^ 63 ≤ (delta : ℚ) / baseline ∧ (delta : ℚ) / baseline ≤ 2 ^ 63 := by
    have hd1 : (1 : ℚ) ≤ delta := by exact_mod_cast hdelta
    have hb1 : (1 : ℚ) ≤ baseline := by exact_mod_cast hbaseline
    have hd63 : (delta : ℚ) ≤ 2 ^ 63 := by exact_mod_cast hdelta'.le
    have hb63 : (baseline : ℚ) ≤ 2 ^ 63 := by exact_mod_cast hbaseline'.le
    exact ⟨div_le_div₀ hdpos.le hd1 hbpos hb63, le_trans (div_le_self hdpos.le hb1) hd63⟩
  obtain ⟨hlow, hhigh⟩ := hquotient.bounds (by omega) hexactPos
  obtain ⟨q, hq, hqnear⟩ : ∃ q, F64.ofRat (d / b) = .finite q ∧ F64.Within 1 q (d / b) := by
    refine F64.ofRat_within ?_ ?_
    · have : (1 : ℚ) / 2 ^ 200 ≤ 1 / 2 ^ 63 / 2 := by norm_num
      linarith
    · have : 2 * (2 : ℚ) ^ 63 ≤ 2 ^ 200 := by norm_num
      linarith
  have hscaled : F64.Within 3 (q * 100) ((delta : ℚ) / baseline * 100) :=
    (hqnear.trans hquotient).mul_right (by norm_num)
  have hscaledPos : 0 < (delta : ℚ) / baseline * 100 := mul_pos hexactPos (by norm_num)
  obtain ⟨hlow', hhigh'⟩ := hscaled.bounds (by omega) hscaledPos
  obtain ⟨r, hr, hrnear⟩ : ∃ r, F64.ofRat (q * 100) = .finite r ∧ F64.Within 1 r (q * 100) := by
    refine F64.ofRat_within ?_ ?_
    · have : (1 : ℚ) / 2 ^ 200 ≤ 1 / 2 ^ 63 / 2 := by norm_num
      linarith
    · have : 2 * ((2 : ℚ) ^ 63 * 100) ≤ 2 ^ 200 := by norm_num
      linarith
  refine ⟨r, ?_, ?_⟩
  · unfold percentChange
    rw [hb]
    show ((F64.ofRat delta).divPos b).mulPos 100 = _
    rw [hd]
    show (F64.ofRat (d / b)).mulPos 100 = _
    rw [hq]
    exact hr
  · have herror := (hrnear.trans hscaled).abs_sub_le hscaledPos
    rw [div_mul_eq_mul_div, mul_comm (delta : ℚ) 100] at herror
    exact herror

/-- A limit further from the percentage than its rounding error is decided by the sizes. -/
theorem not_crosses_of_far {delta baseline : ℤ} {max : ℚ} (hdelta : 0 < delta)
    (hdelta' : delta < 2 ^ 63) (hbaseline : 0 < baseline) (hbaseline' : baseline < 2 ^ 63)
    (hfar : 100 * (delta : ℚ) / baseline / 2 ^ 50 < |max - 100 * (delta : ℚ) / baseline|) :
    ¬ Crosses delta baseline max := by
  obtain ⟨r, hr, herror⟩ := percentChange_near hdelta hdelta' hbaseline hbaseline'
  rw [not_crosses_iff, hr, F64.lt_finite, decide_eq_decide]
  rw [abs_le] at herror
  rcases lt_abs.mp hfar with hfar | hfar
  · constructor <;> intro h <;> linarith
  · constructor <;> intro h <;> linarith

/-! ## When the check is exact -/

/-- Rounding carries no percentage across the limit of its artifact's kind. -/
def PercentsClear (artifacts : List ArtifactSizeComparison) (budget : SizeBudget) : Prop :=
  ∀ artifact ∈ artifacts, ∀ rule ∈ budget.rules, rule.kind = artifact.kind →
    ∀ max, rule.maxIncreasePercent = some (.finite max) →
      ∀ delta baseline, artifact.change = some (delta, baseline) → 0 < delta → 0 < baseline →
        ¬ Crosses delta baseline max

/-! ## Checked budgets -/

/-- What the validation of a budget's rules leaves. -/
structure RulesOk (rules : List SizeBudgetRule) : Prop where
  kinds : (rules.map (·.kind)).Nodup
  percents : ∀ rule ∈ rules, ∀ percent, rule.maxIncreasePercent = some percent →
    ∃ max, percent = .finite max

theorem rulesOk_of_checkRules {field : Text} (rules : List SizeBudgetRule) (seen : List Text)
    (h : checkRules field seen rules = []) :
    RulesOk rules ∧ ∀ rule ∈ rules, rule.kind ∉ seen := by
  induction rules generalizing seen with
  | nil => exact ⟨⟨List.nodup_nil, fun _ h => by cases h⟩, fun _ h => by cases h⟩
  | cons rule rest ih =>
    unfold checkRules at h
    split at h
    · cases h
    · simp only [List.append_eq_nil_iff, errorIf_eq_nil] at h
      obtain ⟨⟨⟨⟨⟨hseen, -⟩, -⟩, -⟩, hpercent⟩, hrest⟩ := h
      obtain ⟨hok, hfresh⟩ := ih _ hrest
      refine ⟨⟨?_, ?_⟩, ?_⟩
      · rw [List.map_cons, List.nodup_cons]
        refine ⟨fun hmem => ?_, hok.kinds⟩
        obtain ⟨other, hother, hkind⟩ := List.mem_map.mp hmem
        exact hfresh other hother (hkind ▸ List.mem_cons_self)
      · intro other hother percent hsome
        rcases List.mem_cons.mp hother with rfl | hother
        · rw [hsome, Option.any_some, Bool.or_eq_false_iff] at hpercent
          exact F64.exists_of_isFinite (by simpa using hpercent.1)
        · exact hok.percents other hother percent hsome
      · intro other hother
        rcases List.mem_cons.mp hother with rfl | hother
        · exact of_decide_eq_false hseen
        · exact fun hmem => hfresh other hother (List.mem_cons_of_mem _ hmem)

theorem rulesOk_of_validateAt {budget : SizeBudget} {field : Text}
    (h : budget.validateAt field = []) : RulesOk budget.rules :=
  (rulesOk_of_checkRules budget.rules [] (List.append_eq_nil_iff.mp h).2).1

/-- The rules of a kind are the first one, where no kind is listed twice. -/
theorem filter_kind_eq {rules : List SizeBudgetRule} (h : (rules.map (·.kind)).Nodup)
    (kind : Text) :
    (rules.filter fun rule => rule.kind = kind) =
      (rules.find? fun rule => rule.kind = kind).toList := by
  induction rules with
  | nil => rfl
  | cons rule rest ih =>
    rw [List.map_cons, List.nodup_cons] at h
    by_cases hkind : rule.kind = kind
    · have hnone : (rest.filter fun rule => rule.kind = kind) = [] := by
        rw [List.filter_eq_nil_iff]
        intro other hother heq
        exact h.1 (hkind.trans (of_decide_eq_true heq).symm ▸ List.mem_map_of_mem hother)
      rw [List.filter_cons, if_pos (decide_eq_true hkind), hnone, List.find?_cons,
        decide_eq_true hkind]
      rfl
    · rw [List.filter_cons, if_neg (by simpa using hkind), ih h.2, List.find?_cons,
        decide_eq_false hkind]

theorem checkArtifact_eq {budget : SizeBudget} (hrules : RulesOk budget.rules)
    (artifact : ArtifactSizeComparison) :
    checkArtifact budget artifact = violationsBy isOver budget artifact := by
  unfold checkArtifact violationsBy
  rw [filter_kind_eq hrules.kinds]
  cases budget.rules.find? fun rule => rule.kind = artifact.kind with
  | none => rfl
  | some rule =>
    show _ = (((limits rule ++ []).filter _).map _)
    rw [List.append_nil]

theorem mem_violationsBy {test : ArtifactSizeComparison → BudgetLimit → Bool}
    {budget : SizeBudget} {artifact : ArtifactSizeComparison} {violation : BudgetViolation} :
    violation ∈ violationsBy test budget artifact ↔
      ∃ rule ∈ budget.rules, rule.kind = artifact.kind ∧ ∃ limit ∈ limits rule,
        test artifact limit = true ∧ artifact.over limit = violation := by
  unfold violationsBy
  constructor
  · intro h
    obtain ⟨limit, hmem, hover⟩ := List.mem_map.mp h
    obtain ⟨hlimit, htest⟩ := List.mem_filter.mp hmem
    obtain ⟨rule, hrule, hlimit⟩ := List.mem_flatMap.mp hlimit
    obtain ⟨hrule, hkind⟩ := List.mem_filter.mp hrule
    exact ⟨rule, hrule, of_decide_eq_true hkind, limit, hlimit, htest, hover⟩
  · rintro ⟨rule, hrule, hkind, limit, hlimit, htest, hover⟩
    refine List.mem_map.mpr ⟨limit, List.mem_filter.mpr ⟨?_, htest⟩, hover⟩
    exact List.mem_flatMap.mpr
      ⟨rule, List.mem_filter.mpr ⟨hrule, decide_eq_true hkind⟩, hlimit⟩

/-! ## The test of a limit -/

theorem mem_limits_percent {rule : SizeBudgetRule} {max : F64} :
    .increasePercent max ∈ limits rule ↔ rule.maxIncreasePercent = some max := by
  unfold limits
  cases rule.maxBytes <;> cases rule.maxIncreaseBytes <;> cases rule.maxIncreasePercent <;>
    simp [eq_comm]

/-- A violation shows all that the test of its limit reads. -/
theorem test_eq_of_over {a b : ArtifactSizeComparison} {l m : BudgetLimit}
    (h : a.over l = b.over m) : isOver a l = isOver b m ∧ exceeds a l = exceeds b m := by
  have hsize : a.sizeBytes = b.sizeBytes := congrArg BudgetViolation.sizeBytes h
  have hchange : a.change = b.change := congrArg BudgetViolation.change h
  have hlimit : l = m := congrArg BudgetViolation.limit h
  subst hlimit
  cases l with
  | bytes max => simp only [isOver, exceeds, hsize, and_self]
  | increaseBytes max => simp only [isOver, exceeds, hchange, and_self]
  | increasePercent max => cases max <;> simp only [isOver, exceeds, hchange, and_self]

/-- The two tests of a percent limit differ where rounding crosses it. -/
theorem test_percent_iff (artifact : ArtifactSizeComparison) (max : ℚ) :
    isOver artifact (.increasePercent (.finite max)) =
        exceeds artifact (.increasePercent (.finite max)) ↔
      ∀ delta baseline, artifact.change = some (delta, baseline) → 0 < delta → 0 < baseline →
        ¬ Crosses delta baseline max := by
  show artifact.change.any _ = artifact.change.any _ ↔ _
  cases artifact.change with
  | none => exact iff_of_true rfl fun _ _ h => by cases h
  | some change =>
    obtain ⟨delta, baseline⟩ := change
    simp only [Option.any_some, Option.some.injEq, Prod.mk.injEq, not_crosses_iff]
    by_cases hdelta : 0 < delta
    · by_cases hbaseline : baseline ≤ 0
      · rw [decide_eq_true hbaseline, Bool.true_or, Bool.true_or]
        refine iff_of_true rfl ?_
        rintro _ _ ⟨rfl, rfl⟩ - hpos
        omega
      · rw [decide_eq_true hdelta, decide_eq_false hbaseline, Bool.true_and, Bool.true_and,
          Bool.false_or, Bool.false_or]
        constructor
        · rintro h _ _ ⟨rfl, rfl⟩ - -
          exact h
        · intro h
          exact h delta baseline ⟨rfl, rfl⟩ hdelta (not_le.mp hbaseline)
    · rw [decide_eq_false hdelta, Bool.false_and, Bool.false_and]
      refine iff_of_true rfl ?_
      rintro _ _ ⟨rfl, rfl⟩ hpos
      exact (hdelta hpos).elim

/-- The check of a validated budget is exact where rounding crosses no limit. -/
theorem checksExactly_iff {artifacts : List ArtifactSizeComparison} {budget : SizeBudget}
    (hrules : RulesOk budget.rules) :
    ChecksExactly artifacts budget ↔ PercentsClear artifacts budget := by
  have hcheck : checkBudget artifacts budget = artifacts.flatMap (violationsBy isOver budget) :=
    List.flatMap_congr fun artifact _ => checkArtifact_eq hrules artifact
  unfold ChecksExactly
  rw [hcheck]
  constructor
  · intro heq artifact hartifact rule hrule hkind max hmax
    rw [← test_percent_iff]
    -- the violation of this limit is in both lists or in neither
    have hin (test : ArtifactSizeComparison → BudgetLimit → Bool)
        (htest : ∀ a b l m, a.over l = b.over m → test a l = test b m) :
        artifact.over (.increasePercent (.finite max)) ∈
            artifacts.flatMap (violationsBy test budget) ↔
          test artifact (.increasePercent (.finite max)) = true := by
      rw [List.mem_flatMap]
      constructor
      · rintro ⟨other, -, hmem⟩
        obtain ⟨-, -, -, limit, -, hover, hsame⟩ := mem_violationsBy.mp hmem
        rw [← htest _ _ _ _ hsame]
        exact hover
      · intro hover
        exact ⟨artifact, hartifact, mem_violationsBy.mpr
          ⟨rule, hrule, hkind, _, mem_limits_percent.mpr hmax, hover, rfl⟩⟩
    rw [Bool.eq_iff_iff, ← hin isOver fun _ _ _ _ h => (test_eq_of_over h).1, heq,
      hin exceeds fun _ _ _ _ h => (test_eq_of_over h).2]
  · intro hclear
    refine List.flatMap_congr fun artifact hartifact => ?_
    refine congrArg (List.map artifact.over) (List.filter_congr fun limit hlimit => ?_)
    obtain ⟨rule, hrule, hlimit⟩ := List.mem_flatMap.mp hlimit
    obtain ⟨hrule, hkind⟩ := List.mem_filter.mp hrule
    cases limit with
    | bytes max => rfl
    | increaseBytes max => rfl
    | increasePercent percent =>
      have hpercent := mem_limits_percent.mp hlimit
      obtain ⟨max, rfl⟩ := hrules.percents rule hrule percent hpercent
      exact (test_percent_iff artifact max).mpr
        (hclear artifact hartifact rule hrule (of_decide_eq_true hkind) max hpercent)

/-- Every percent limit is further from the growth of its artifacts than one part in `2 ^ 50` of
it. -/
def PercentsFar (artifacts : List ArtifactSizeComparison) (budget : SizeBudget) : Prop :=
  ∀ artifact ∈ artifacts, ∀ rule ∈ budget.rules, rule.kind = artifact.kind →
    ∀ max, rule.maxIncreasePercent = some (.finite max) →
      ∀ delta baseline, artifact.change = some (delta, baseline) → 0 < delta → 0 < baseline →
        100 * (delta : ℚ) / baseline / 2 ^ 50 < |max - 100 * (delta : ℚ) / baseline|

/-- The sizes of a comparison are recorded ones. -/
theorem change_lt {current baseline : List SizeRow} {artifact : ArtifactSizeComparison}
    (h : artifact ∈ compareSizes current baseline) {delta base : ℤ}
    (hchange : artifact.change = some (delta, base)) : delta < 2 ^ 63 ∧ base < 2 ^ 63 := by
  unfold compareSizes at h
  rw [← List.map_uncurry_zip_eq_zipWith] at h
  obtain ⟨⟨row, index⟩, -, rfl⟩ := List.mem_map.mp h
  dsimp only [Function.uncurry, comparison, ArtifactSizeComparison.change] at hchange
  cases hbase : index.bind fun index => baseline[index]? with
  | none =>
    rw [hbase] at hchange
    cases hchange
  | some base' =>
    rw [hbase] at hchange
    obtain ⟨hdelta, hsize⟩ := Prod.mk.inj (Option.some.inj hchange)
    change row.sizeBytes - base'.sizeBytes = delta at hdelta
    change base'.sizeBytes = base at hsize
    have hrow := row.inRange
    have hrow' := base'.inRange
    omega

theorem PercentsFar.clear {current baseline : List SizeRow} {budget : SizeBudget}
    (h : PercentsFar (compareSizes current baseline) budget) :
    PercentsClear (compareSizes current baseline) budget := by
  intro artifact hartifact rule hrule hkind max hmax delta base hchange hdelta hbase
  obtain ⟨hdelta', hbase'⟩ := change_lt hartifact hchange
  exact not_crosses_of_far hdelta hdelta' hbase hbase'
    (h artifact hartifact rule hrule hkind max hmax delta base hchange hdelta hbase)

/-- Where no growth is within one part in `2 ^ 50` of its limit, the check is exact. -/
theorem checksExactly_of_far {current baseline : List SizeRow} {budget : SizeBudget} {field : Text}
    (hbudget : budget.validateAt field = [])
    (h : PercentsFar (compareSizes current baseline) budget) :
    ChecksExactly (compareSizes current baseline) budget :=
  (checksExactly_iff (rulesOk_of_validateAt hbudget)).mpr h.clear

/-- Two builds are compared as described, and the check of a validated budget is exact where
rounding carries no percentage across a limit. -/
theorem compared_and_checked_iff (current baseline : List SizeRow) (budget : SizeBudget)
    (field : Text) (hbudget : budget.validateAt field = []) :
    ComparesWell current baseline ∧ ChecksExactly (compareSizes current baseline) budget ↔
      PercentsClear (compareSizes current baseline) budget := by
  rw [and_iff_right (comparesWell current baseline)]
  exact checksExactly_iff (rulesOk_of_validateAt hbudget)

/-- A file of a size. -/
def file (name : Text) (sizeBytes : ℤ) (inRange : 0 ≤ sizeBytes ∧ sizeBytes < 2 ^ 63) : SizeRow :=
  ⟨"a1", name, "generic", sizeBytes, inRange⟩

/-- A bundle that grew by a tenth, a renamed APK and a new archive. -/
def grown : List SizeRow :=
  [file "app.aab" 110 (by decide), file "app.apk" 50 (by decide), file "app.ipa" 5 (by decide)]

def released : List SizeRow := [file "old.apk" 49 (by decide), file "app.aab" 100 (by decide)]

/-- Bundles may grow by seven percent and APKs by five. -/
def twoKinds : SizeBudget :=
  ⟨.fail, [⟨"aab", none, none, some (.finite 7)⟩, ⟨"apk", none, none, some (.finite 5)⟩]⟩

theorem percentsFar_grown : PercentsFar (compareSizes grown released) twoKinds := by
  have hcompared : (compareSizes grown released).map (fun artifact =>
      (artifact.kind, artifact.change)) =
        ([("aab", some (10, 100)), ("apk", some (1, 49)), ("ipa", none)] :
          List (Text × Option (ℤ × ℤ))) := by
    decide +kernel
  intro artifact hartifact rule hrule hkind max hmax delta base hchange _ _
  have hmem := List.mem_map_of_mem (f := fun artifact : ArtifactSizeComparison =>
    (artifact.kind, artifact.change)) hartifact
  rw [hcompared, hchange, ← hkind] at hmem
  simp only [List.mem_cons, List.not_mem_nil, or_false, twoKinds] at hmem hrule
  obtain rfl | rfl := hrule
  · obtain rfl : 7 = max := by simpa using hmax
    obtain ⟨rfl, rfl⟩ : delta = 10 ∧ base = 100 := by simpa using hmem
    norm_num
  · obtain rfl : 5 = max := by simpa using hmax
    obtain ⟨rfl, rfl⟩ : delta = 1 ∧ base = 49 := by simpa using hmem
    norm_num

theorem compared_and_checked_grown :
    twoKinds.validateAt "size_budget" = [] ∧
      (ComparesWell grown released ∧ ChecksExactly (compareSizes grown released) twoKinds) ∧
      (checkBudget (compareSizes grown released) twoKinds).map (·.name) = ["app.aab"] :=
  ⟨by decide +kernel,
    (compared_and_checked_iff grown released twoKinds "size_budget" (by decide +kernel)).mpr
      percentsFar_grown.clear,
    by decide +kernel⟩

/-- Bundles may grow by seven percent. -/
def sevenPercent : SizeBudget := ⟨.fail, [⟨"aab", none, none, some (.finite 7)⟩]⟩

/-- Seven bytes over a hundred are reported to be over seven percent. -/
theorem not_checked_sevenPercent :
    ¬ (ComparesWell [file "app.aab" 107 (by decide)] [file "app.aab" 100 (by decide)] ∧
      ChecksExactly
        (compareSizes [file "app.aab" 107 (by decide)] [file "app.aab" 100 (by decide)])
        sevenPercent) := by
  rintro ⟨-, h⟩
  have hdiffer :
      checkBudget
          (compareSizes [file "app.aab" 107 (by decide)] [file "app.aab" 100 (by decide)])
          sevenPercent ≠
        (compareSizes [file "app.aab" 107 (by decide)] [file "app.aab" 100 (by decide)]).flatMap
          (violationsBy exceeds sevenPercent) := by
    decide +kernel
  exact hdiffer h

end Sizes

end OoreBuild
