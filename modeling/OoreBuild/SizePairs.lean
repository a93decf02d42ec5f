import OoreBuild.ArtifactSizes

/-!
# Pairs of artifacts

The second pass marks baseline artifacts as it goes, but an artifact that is the only one of its
kind leaves no other artifact of the kind to ask for the same partner. So each artifact's partner
depends on the first pass alone (`paired_iff`), which gives the properties of the pairing.
-/

namespace OoreBuild

namespace Sizes

open Text

variable {current baseline : List SizeRow}

/-- An artifact and its baseline artifact, by position. -/
def Paired (current baseline : List SizeRow) (i j : ℕ) : Prop :=
  (matched current baseline)[i]? = some (some j)

instance (current baseline : List SizeRow) (i j : ℕ) : Decidable (Paired current baseline i j) :=
  inferInstanceAs (Decidable (_ = _))

/-- What the first pass finds for each artifact, and the positions it uses. -/
def byName (current baseline : List SizeRow) : List (Option ℕ) × List ℕ :=
  Matching.greedy (names baseline) [] (names current)

@[simp] theorem byName_length (current baseline : List SizeRow) :
    (byName current baseline).1.length = current.length := by
  rw [byName, Matching.greedy_length, names, List.length_map]

theorem getElem?_names {rows : List SizeRow} {i : ℕ} {name : Text} :
    (names rows)[i]? = some name ↔ ∃ row, rows[i]? = some row ∧ row.name = name := by
  rw [names, List.getElem?_map, Option.map_eq_some_iff]

/-! ## The partner of a kind -/

theorem onlyPartner_eq_some {used : List ℕ} {kind : Text} {j : ℕ} :
    onlyPartner current baseline used kind = some j ↔
      OnlyOfKind baseline j kind ∧ (ofKind current kind).length = 1 ∧ j ∉ used := by
  rw [← ofKind_eq_singleton, length_ofKind]
  unfold onlyPartner
  constructor
  · intro h
    split at h
    · next only hof =>
      split at h
      · next hcond =>
        cases h
        exact ⟨hof, hcond⟩
      · cases h
    · cases h
  · rintro ⟨hof, hcond⟩
    rw [hof]
    exact if_pos hcond

/-- The only row of a kind is at the position of any row of the kind. -/
theorem length_ofKind_eq_one {rows : List SizeRow} {i : ℕ} {row : SizeRow}
    (hrow : rows[i]? = some row) :
    (ofKind rows (fileKind row)).length = 1 ↔ OnlyOfKind rows i (fileKind row) := by
  have hmem : i ∈ ofKind rows (fileKind row) := mem_ofKind.mpr ⟨row, hrow, rfl⟩
  rw [← ofKind_eq_singleton, List.length_eq_one_iff]
  constructor
  · rintro ⟨only, honly⟩
    rw [honly] at hmem ⊢
    rw [List.mem_singleton.mp hmem]
  · intro h
    exact ⟨i, h⟩

/-- A marked position only matters to artifacts of its kind. -/
theorem onlyPartner_cons {used : List ℕ} {kind other : Text} {only : ℕ}
    (honly : OnlyOfKind baseline only kind) (hne : other ≠ kind) :
    onlyPartner current baseline (only :: used) other =
      onlyPartner current baseline used other := by
  refine Option.ext fun j => ?_
  rw [onlyPartner_eq_some, onlyPartner_eq_some, List.mem_cons, not_or]
  refine and_congr_right fun hj => and_congr_right fun _ => and_iff_right ?_
  rintro rfl
  obtain ⟨row, hrow, hkind, -⟩ := honly
  obtain ⟨row', hrow', hkind', -⟩ := hj
  rw [hrow] at hrow'
  cases hrow'
  exact hne (hkind'.symm.trans hkind)

/-- Two rows of a kind are not the only one of it. -/
theorem ne_kind_of_sublist {row other : SizeRow} {rest : List SizeRow}
    (hsub : (row :: rest).Sublist current) (hother : other ∈ rest)
    (hone : (ofKind current (fileKind row)).length = 1) : fileKind other ≠ fileKind row := by
  intro heq
  have hfilter := (hsub.filter fun row' => fileKind row' = fileKind row).length_le
  rw [length_ofKind] at hone
  have hmem : other ∈ rest.filter fun row' => fileKind row' = fileKind row :=
    List.mem_filter.mpr ⟨hother, decide_eq_true heq⟩
  have hpos := List.length_pos_of_mem hmem
  rw [List.filter_cons, if_pos (decide_eq_true rfl), List.length_cons] at hfilter
  omega

/-- The second pass asks for each artifact what the first pass has left for its kind. -/
theorem matchByKind_eq {used marked : List ℕ} (rest : List (SizeRow × Option ℕ))
    (hsub : (rest.map (·.1)).Sublist current)
    (hused : ∀ p ∈ rest, onlyPartner current baseline marked (fileKind p.1) =
      onlyPartner current baseline used (fileKind p.1)) :
    matchByKind current baseline marked rest =
      rest.map fun p => p.2.or (onlyPartner current baseline used (fileKind p.1)) := by
  induction rest generalizing marked with
  | nil => rfl
  | cons head rest ih =>
    obtain ⟨artifact, found⟩ := head
    have htail : (rest.map (·.1)).Sublist current := (List.sublist_cons_self _ _).trans hsub
    cases found with
    | some index =>
      show some index :: matchByKind current baseline marked rest = some index :: _
      rw [ih htail fun p hp => hused p (List.mem_cons_of_mem _ hp)]
    | none =>
      have hhead := hused (artifact, none) List.mem_cons_self
      have hrest : ∀ p ∈ rest, onlyPartner current baseline
          ((onlyPartner current baseline marked (fileKind artifact)).toList ++ marked)
          (fileKind p.1) = onlyPartner current baseline used (fileKind p.1) := by
        intro p hp
        rw [← hused p (List.mem_cons_of_mem _ hp)]
        cases hfound : onlyPartner current baseline marked (fileKind artifact) with
        | none => rfl
        | some only =>
          obtain ⟨honly, hone, -⟩ := onlyPartner_eq_some.mp hfound
          exact onlyPartner_cons honly
            (ne_kind_of_sublist hsub (List.mem_map_of_mem hp) hone)
      show onlyPartner current baseline marked (fileKind artifact) :: matchByKind _ _ _ rest = _
      rw [ih htail hrest, hhead]
      rfl

/-- An artifact's partner is the one of its name, or else the only one of its kind that no name
has used. -/
theorem paired_iff {i j : ℕ} :
    Paired current baseline i j ↔
      (byName current baseline).1[i]? = some (some j) ∨
        (byName current baseline).1[i]? = some none ∧ j ∉ (byName current baseline).2 ∧
          ∃ artifact, current[i]? = some artifact ∧ OnlyOfKind current i (fileKind artifact) ∧
            OnlyOfKind baseline j (fileKind artifact) := by
  have hzip : ((current.zip (byName current baseline).1).map (·.1)).Sublist current := by
    rw [List.map_fst_zip (by rw [byName_length])]
  have hall : matched current baseline = (current.zip (byName current baseline).1).map fun p =>
      p.2.or (onlyPartner current baseline (byName current baseline).2 (fileKind p.1)) :=
    matchByKind_eq _ hzip fun _ _ => rfl
  unfold Paired
  rw [hall, List.getElem?_map, Option.map_eq_some_iff]
  constructor
  · rintro ⟨⟨artifact, found⟩, hp, hor⟩
    obtain ⟨hartifact, hfound⟩ := List.getElem?_zip_eq_some.mp hp
    cases found with
    | some index =>
      cases hor
      exact Or.inl hfound
    | none =>
      obtain ⟨hbase, hone, hfree⟩ := onlyPartner_eq_some.mp hor
      exact Or.inr ⟨hfound, hfree, artifact, hartifact,
        (length_ofKind_eq_one hartifact).mp hone, hbase⟩
  · rintro (hfound | ⟨hfound, hfree, artifact, hartifact, hone, hbase⟩)
    · have hlt : i < current.length := by
        rw [← byName_length current baseline]
        exact (List.getElem?_eq_some_iff.mp hfound).1
      refine ⟨(current[i], some j), ?_, rfl⟩
      exact List.getElem?_zip_eq_some.mpr ⟨List.getElem?_eq_getElem hlt, hfound⟩
    · refine ⟨(artifact, none), List.getElem?_zip_eq_some.mpr ⟨hartifact, hfound⟩, ?_⟩
      exact onlyPartner_eq_some.mpr ⟨hbase, (length_ofKind_eq_one hartifact).mpr hone, hfree⟩

/-! ## Pairs by name -/

theorem byName_pair {i j : ℕ} (h : (byName current baseline).1[i]? = some (some j)) :
    ∃ artifact base, current[i]? = some artifact ∧ baseline[j]? = some base ∧
      artifact.name = base.name := by
  obtain ⟨-, name, hi, hj⟩ := Matching.greedy_pair _ _ h
  obtain ⟨artifact, hartifact, rfl⟩ := getElem?_names.mp hi
  obtain ⟨base, hbase, hname⟩ := getElem?_names.mp hj
  exact ⟨artifact, base, hartifact, hbase, hname.symm⟩

theorem mem_byName_used {j : ℕ} :
    j ∈ (byName current baseline).2 ↔
      ∃ i : ℕ, (byName current baseline).1[i]? = some (some j) := by
  refine (Matching.mem_greedy_used (names current) [] j).trans (or_iff_right ?_)
  exact List.not_mem_nil

/-- An artifact that the first pass leaves alone shares no name with an unused baseline
artifact. -/
theorem byName_saturated {i j : ℕ} {artifact base : SizeRow}
    (h : (byName current baseline).1[i]? = some none) (hi : current[i]? = some artifact)
    (hj : baseline[j]? = some base) (hname : artifact.name = base.name) :
    j ∈ (byName current baseline).2 :=
  Matching.greedy_saturated _ _ h (getElem?_names.mpr ⟨artifact, hi, rfl⟩)
    (getElem?_names.mpr ⟨base, hj, hname.symm⟩)

/-! ## The comparison -/

/-- The pairs of artifacts with equal names. -/
def sameNamePairs (current baseline : List SizeRow) : Finset (ℕ × ℕ) :=
  (Finset.range current.length ×ˢ Finset.range baseline.length).filter fun p =>
    Paired current baseline p.1 p.2 ∧ (names current)[p.1]? = (names baseline)[p.2]?

/-- What the comparison of two builds does, by the positions of their artifacts. -/
structure ComparesWell (current baseline : List SizeRow) : Prop where
  /-- Each artifact is compared with its partner, or with nothing. -/
  reported : ∀ (i : ℕ) artifact, current[i]? = some artifact →
    (∃ j base, Paired current baseline i j ∧ baseline[j]? = some base ∧
      (compareSizes current baseline)[i]? = some (comparison artifact (some base))) ∨
    (∀ j, ¬ Paired current baseline i j) ∧
      (compareSizes current baseline)[i]? = some (comparison artifact none)
  length : (compareSizes current baseline).length = current.length
  injective : ∀ i i' j, Paired current baseline i j → Paired current baseline i' j → i = i'
  related : ∀ i j, Paired current baseline i j → ∃ artifact base,
    current[i]? = some artifact ∧ baseline[j]? = some base ∧
      (artifact.name = base.name ∨ fileKind artifact = fileKind base ∧
        OnlyOfKind current i (fileKind artifact) ∧ OnlyOfKind baseline j (fileKind base))
  /-- No injective pairing of equal names has more pairs. -/
  most : ∀ other, Matching.IsMatching (names current) (names baseline) other →
    other.card ≤ (sameNamePairs current baseline).card
  symmetric : (names current).Nodup → (names baseline).Nodup → ∀ i j,
    (Paired current baseline i j ↔ Paired baseline current j i) ∧
    (Paired current baseline i j → ∃ delta,
      (compareSizes current baseline)[i]?.map (·.deltaBytes) = some (some delta) ∧
      (compareSizes baseline current)[j]?.map (·.deltaBytes) = some (some (-delta)))

theorem related_of_paired {i j : ℕ} (h : Paired current baseline i j) :
    ∃ artifact base, current[i]? = some artifact ∧ baseline[j]? = some base ∧
      (artifact.name = base.name ∨ fileKind artifact = fileKind base ∧
        OnlyOfKind current i (fileKind artifact) ∧ OnlyOfKind baseline j (fileKind base)) := by
  rcases paired_iff.mp h with hname | ⟨-, -, artifact, hartifact, hone, hbase⟩
  · obtain ⟨artifact, base, hartifact, hbase, hname⟩ := byName_pair hname
    exact ⟨artifact, base, hartifact, hbase, Or.inl hname⟩
  · obtain ⟨base, hrow, hkind, -⟩ := id hbase
    exact ⟨artifact, base, hartifact, hrow, Or.inr ⟨hkind.symm, hone, hkind ▸ hbase⟩⟩

theorem paired_injective {i i' j : ℕ} (h : Paired current baseline i j)
    (h' : Paired current baseline i' j) : i = i' := by
  rcases paired_iff.mp h with hname | ⟨-, hfree, artifact, hartifact, -, hbase⟩
  · rcases paired_iff.mp h' with hname' | ⟨-, hfree, -⟩
    · exact Matching.greedy_injective _ _ hname hname'
    · exact (hfree (mem_byName_used.mpr ⟨i, hname⟩)).elim
  · rcases paired_iff.mp h' with hname' | ⟨-, -, artifact', hartifact', hone', hbase'⟩
    · exact (hfree (mem_byName_used.mpr ⟨i', hname'⟩)).elim
    · -- both have the kind of the baseline artifact
      obtain ⟨base, hrow, hkind, -⟩ := hbase
      obtain ⟨base', hrow', hkind', -⟩ := hbase'
      rw [hrow] at hrow'
      cases hrow'
      obtain ⟨-, -, -, honly⟩ := hone'
      exact honly i artifact hartifact (hkind.symm.trans hkind')

/-- The pairs with equal names are those of the first pass. -/
theorem mem_sameNamePairs {i j : ℕ} :
    (i, j) ∈ sameNamePairs current baseline ↔
      (byName current baseline).1[i]? = some (some j) := by
  rw [sameNamePairs, Finset.mem_filter, Finset.mem_product, Finset.mem_range, Finset.mem_range]
  constructor
  · rintro ⟨⟨hi, hj⟩, hpaired, hname⟩
    rcases paired_iff.mp hpaired with hfound | ⟨hnone, hfree, -⟩
    · exact hfound
    · rw [names, names, List.getElem?_map, List.getElem?_map, List.getElem?_eq_getElem hi,
        List.getElem?_eq_getElem hj] at hname
      exact (hfree (byName_saturated hnone (List.getElem?_eq_getElem hi)
        (List.getElem?_eq_getElem hj) (Option.some_inj.mp hname))).elim
  · intro hfound
    obtain ⟨artifact, base, hartifact, hbase, hname⟩ := byName_pair hfound
    refine ⟨⟨(List.getElem?_eq_some_iff.mp hartifact).1, (List.getElem?_eq_some_iff.mp hbase).1⟩,
      paired_iff.mpr (Or.inl hfound), ?_⟩
    rw [getElem?_names.mpr ⟨artifact, hartifact, rfl⟩,
      getElem?_names.mpr ⟨base, hbase, hname.symm⟩]

/-! ## Swapping the builds -/

/-- Where names are distinct, the first pass pairs exactly the artifacts with equal names. -/
theorem byName_iff (hcurrent : (names current).Nodup) (hbaseline : (names baseline).Nodup)
    {i j : ℕ} : (byName current baseline).1[i]? = some (some j) ↔
      ∃ name, (names current)[i]? = some name ∧ (names baseline)[j]? = some name := by
  constructor
  · intro hfound
    exact (Matching.greedy_pair _ _ hfound).2
  · rintro ⟨name, hi, hj⟩
    have hlt : i < (byName current baseline).1.length := by
      rw [byName_length, ← List.length_map (·.name)]
      exact (List.getElem?_eq_some_iff.mp hi).1
    have hget := List.getElem?_eq_getElem hlt
    cases hfound : (byName current baseline).1[i] with
    | none =>
      rw [hfound] at hget
      have hused : j ∈ (byName current baseline).2 := Matching.greedy_saturated _ _ hget hi hj
      obtain ⟨i', hi'⟩ := mem_byName_used.mp hused
      obtain ⟨-, name', hname, hname'⟩ := Matching.greedy_pair _ _ hi'
      rw [hj] at hname'
      cases hname'
      have hsame : i = i' := (List.getElem?_inj (List.getElem?_eq_some_iff.mp hi).1 hcurrent).mp
        (hi.trans hname.symm)
      rw [← hsame, hget] at hi'
      cases hi'
    | some j' =>
      rw [hfound] at hget
      obtain ⟨-, name', hname, hname'⟩ := Matching.greedy_pair _ _ hget
      rw [hi] at hname
      cases hname
      have hsame : j = j' := (List.getElem?_inj (List.getElem?_eq_some_iff.mp hj).1 hbaseline).mp
        (hj.trans hname'.symm)
      rw [hget, hsame]

/-- An artifact without a partner in the first pass, where names are distinct. -/
theorem byName_none_iff (hcurrent : (names current).Nodup) (hbaseline : (names baseline).Nodup)
    {i : ℕ} {artifact : SizeRow} (hartifact : current[i]? = some artifact) :
    (byName current baseline).1[i]? = some none ↔ artifact.name ∉ names baseline := by
  have hi : (names current)[i]? = some artifact.name :=
    getElem?_names.mpr ⟨artifact, hartifact, rfl⟩
  have hlt : i < (byName current baseline).1.length := by
    rw [byName_length]
    exact (List.getElem?_eq_some_iff.mp hartifact).1
  constructor
  · intro hnone hmem
    obtain ⟨j, hj⟩ := List.mem_iff_getElem?.mp hmem
    have hfound := (byName_iff hcurrent hbaseline).mpr ⟨_, hi, hj⟩
    rw [hnone] at hfound
    cases hfound
  · intro hmem
    cases hfound : (byName current baseline).1[i] with
    | none => rw [List.getElem?_eq_getElem hlt, hfound]
    | some j =>
      obtain ⟨name, hi', hj⟩ := (byName_iff hcurrent hbaseline).mp
        ((List.getElem?_eq_getElem hlt).trans (congrArg some hfound))
      rw [hi] at hi'
      cases hi'
      exact (hmem (List.mem_of_getElem? hj)).elim

/-- A baseline artifact that the first pass leaves unused, where names are distinct. -/
theorem notMem_byName_used_iff (hcurrent : (names current).Nodup)
    (hbaseline : (names baseline).Nodup) {j : ℕ} {base : SizeRow}
    (hbase : baseline[j]? = some base) :
    j ∉ (byName current baseline).2 ↔ base.name ∉ names current := by
  have hj : (names baseline)[j]? = some base.name := getElem?_names.mpr ⟨base, hbase, rfl⟩
  refine not_congr (mem_byName_used.trans ⟨?_, ?_⟩)
  · rintro ⟨i, hi⟩
    obtain ⟨name, hi', hj'⟩ := (byName_iff hcurrent hbaseline).mp hi
    rw [hj] at hj'
    cases hj'
    exact List.mem_of_getElem? hi'
  · intro hmem
    obtain ⟨i, hi⟩ := List.mem_iff_getElem?.mp hmem
    exact ⟨i, (byName_iff hcurrent hbaseline).mpr ⟨_, hi, hj⟩⟩

theorem paired_swap (hcurrent : (names current).Nodup) (hbaseline : (names baseline).Nodup)
    {i j : ℕ} (h : Paired current baseline i j) : Paired baseline current j i := by
  rcases paired_iff.mp h with hfound | ⟨hnone, hfree, artifact, hartifact, hone, hbase⟩
  · obtain ⟨name, hi, hj⟩ := (byName_iff hcurrent hbaseline).mp hfound
    exact paired_iff.mpr (Or.inl ((byName_iff hbaseline hcurrent).mpr ⟨name, hj, hi⟩))
  · obtain ⟨base, hrow, hkind, -⟩ := id hbase
    rw [byName_none_iff hcurrent hbaseline hartifact] at hnone
    rw [notMem_byName_used_iff hcurrent hbaseline hrow] at hfree
    rw [paired_iff]
    refine Or.inr ⟨(byName_none_iff hbaseline hcurrent hrow).mpr hfree,
      (notMem_byName_used_iff hbaseline hcurrent hartifact).mpr hnone, base, hrow, ?_⟩
    rw [hkind]
    exact ⟨hbase, hone⟩

/-! ## The comparison does well -/

theorem length_matchByKind (used : List ℕ) (rest : List (SizeRow × Option ℕ)) :
    (matchByKind current baseline used rest).length = rest.length := by
  induction rest generalizing used with
  | nil => rfl
  | cons head rest ih =>
    obtain ⟨artifact, found⟩ := head
    cases found with
    | none => exact congrArg (· + 1) (ih _)
    | some index => exact congrArg (· + 1) (ih _)

@[simp] theorem length_matched (current baseline : List SizeRow) :
    (matched current baseline).length = current.length := by
  rw [matched, length_matchByKind, List.length_zip]
  show min current.length (byName current baseline).1.length = _
  rw [byName_length, min_self]

theorem getElem?_compareSizes {i : ℕ} {artifact : SizeRow} {index : Option ℕ}
    (hartifact : current[i]? = some artifact)
    (hindex : (matched current baseline)[i]? = some index) :
    (compareSizes current baseline)[i]? =
      some (comparison artifact (index.bind fun index => baseline[index]?)) := by
  rw [compareSizes, List.getElem?_zipWith, hartifact, hindex]

theorem getElem?_compareSizes_of_paired {i j : ℕ} {artifact base : SizeRow}
    (h : Paired current baseline i j) (hartifact : current[i]? = some artifact)
    (hbase : baseline[j]? = some base) :
    (compareSizes current baseline)[i]? = some (comparison artifact (some base)) := by
  rw [getElem?_compareSizes hartifact h, Option.bind_some, hbase]

theorem comparesWell (current baseline : List SizeRow) : ComparesWell current baseline where
  reported := by
    intro i artifact hartifact
    have hlt : i < (matched current baseline).length := by
      rw [length_matched]
      exact (List.getElem?_eq_some_iff.mp hartifact).1
    have hget := List.getElem?_eq_getElem hlt
    cases hindex : (matched current baseline)[i] with
    | none =>
      rw [hindex] at hget
      refine Or.inr ⟨fun j hj => ?_, getElem?_compareSizes hartifact hget⟩
      rw [Paired, hget] at hj
      cases hj
    | some j =>
      rw [hindex] at hget
      obtain ⟨-, base, -, hbase, -⟩ := related_of_paired hget
      exact Or.inl ⟨j, base, hget, hbase, getElem?_compareSizes_of_paired hget hartifact hbase⟩
  length := by rw [compareSizes, List.length_zipWith, length_matched, min_self]
  injective := fun _ _ _ => paired_injective
  related := fun _ _ => related_of_paired
  most := fun _ => Matching.greedy_card_le fun _ _ => mem_sameNamePairs
  symmetric := by
    intro hcurrent hbaseline i j
    refine ⟨⟨paired_swap hcurrent hbaseline, paired_swap hbaseline hcurrent⟩, fun h => ?_⟩
    obtain ⟨artifact, base, hartifact, hbase, -⟩ := related_of_paired h
    refine ⟨artifact.sizeBytes - base.sizeBytes, ?_, ?_⟩
    · rw [getElem?_compareSizes_of_paired h hartifact hbase]
      rfl
    · rw [getElem?_compareSizes_of_paired (paired_swap hcurrent hbaseline h) hbase hartifact,
        neg_sub]
      rfl

end Sizes

end OoreBuild
