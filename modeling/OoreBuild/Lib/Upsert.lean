import Mathlib.Data.List.Nodup
import Mathlib.Data.List.Perm.Basic

/-!
# Inserts into keyed rows

The two ways to insert a row whose key may be there: `upsert` updates the row that is there, and
`insertOrIgnore` leaves it. Both keep the keys of the rows distinct. `erase` removes the row of a
key.
-/

namespace Rows

variable {α κ : Type} [DecidableEq κ] (key : α → κ)

/-- Insert a row, or update the row of its key. -/
def upsert (row : α) (update : α → α) (rows : List α) : List α :=
  if rows.any fun other => key other = key row then
    rows.map fun other => if key other = key row then update other else other
  else rows ++ [row]

/-- Insert a row, unless its key is there. -/
def insertOrIgnore (rows : List α) (row : α) : List α :=
  if rows.any fun other => key other = key row then rows else rows ++ [row]

/-- Insert rows one after the other, unless their key is there. -/
def insertAll (rows new : List α) : List α := new.foldl (insertOrIgnore key) rows

/-- Insert a row in the place of the row of its key. -/
def put (row : α) (rows : List α) : List α := upsert key row (fun _ => row) rows

/-- Remove the row of a key. -/
def erase (k : κ) (rows : List α) : List α := rows.filter fun row => key row ≠ k

variable {key} {rows new : List α} {row : α} {update : α → α}

theorem any_key_eq_false {k : κ} (h : ¬ (rows.any fun other => key other = k) = true) :
    k ∉ rows.map key := by
  intro hmem
  obtain ⟨other, hother, hkey⟩ := List.mem_map.mp hmem
  exact h (List.any_eq_true.mpr ⟨other, hother, decide_eq_true hkey⟩)

omit [DecidableEq κ] in
theorem nodup_append_row (h : (rows.map key).Nodup) (hnew : key row ∉ rows.map key) :
    ((rows ++ [row]).map key).Nodup := by
  rw [List.map_append, List.map_singleton]
  exact h.append (List.nodup_singleton _) (List.disjoint_singleton.mpr hnew)

/-! ## Updating -/

theorem map_key_upsert (hupdate : ∀ other, key other = key row → key (update other) = key other) :
    (rows.map fun other => if key other = key row then update other else other).map key =
      rows.map key := by
  rw [List.map_map]
  refine List.map_congr_left fun other _ => ?_
  show key (if key other = key row then update other else other) = key other
  split
  · next hkey => exact hupdate other hkey
  · rfl

theorem find_upsert (hupdate : ∀ other, key other = key row → key (update other) = key other) (k : κ) :
    (upsert key row update rows).find? (fun other => key other = k) =
      if k = key row then
        some (((rows.find? fun other => key other = k).map update).getD row)
      else rows.find? fun other => key other = k := by
  unfold upsert
  split_ifs with hany hk hk
  · subst hk
    have hfind : (rows.find? fun other => key other = key row).isSome := by
      rw [List.find?_isSome]
      exact List.any_eq_true.mp hany
    obtain ⟨found, hfound⟩ := Option.isSome_iff_exists.mp hfind
    have hfoundKey : key found = key row := by
      simpa using List.find?_some hfound
    have hsame : (fun other => decide (key other = key row)) ∘
        (fun other => if key other = key row then update other else other) =
        fun other => decide (key other = key row) := by
      funext other
      show decide (key (if key other = key row then update other else other) = key row) = _
      split_ifs with hkey
      · rw [hupdate other hkey]
      · rfl
    rw [List.find?_map, hsame, hfound, Option.map_some, Option.map_some, Option.getD_some,
      if_pos hfoundKey]
  · have hsame : (fun other => decide (key other = k)) ∘
        (fun other => if key other = key row then update other else other) =
        fun other => decide (key other = k) := by
      funext other
      show decide (key (if key other = key row then update other else other) = k) = _
      split_ifs with hkey
      · rw [hupdate other hkey]
      · rfl
    rw [List.find?_map, hsame]
    cases hfound : rows.find? fun other => key other = k with
    | none => rfl
    | some found =>
      have hfoundKey : key found = k := by simpa using List.find?_some hfound
      rw [Option.map_some, if_neg (hfoundKey ▸ hk)]
  · subst hk
    have hnone : (rows.find? fun other => key other = key row) = none := by
      rw [List.find?_eq_none]
      intro other hother hkey
      exact any_key_eq_false hany (of_decide_eq_true hkey ▸ List.mem_map_of_mem hother)
    rw [List.find?_append, hnone]
    simp
  · rw [List.find?_append, List.find?_singleton, if_neg (by simpa using Ne.symm hk),
      Option.or_none]

theorem nodup_upsert (hupdate : ∀ other, key other = key row → key (update other) = key other)
    (h : (rows.map key).Nodup) : ((upsert key row update rows).map key).Nodup := by
  unfold upsert
  split_ifs with hany
  · rw [map_key_upsert hupdate]
    exact h
  · exact nodup_append_row h (any_key_eq_false hany)

theorem mem_upsert {other : α} : other ∈ upsert key row (fun _ => row) rows ↔
    other = row ∨ other ∈ rows ∧ key other ≠ key row := by
  unfold upsert
  split_ifs with hany
  · rw [List.mem_map]
    constructor
    · rintro ⟨old, hold, rfl⟩
      split_ifs with hkey
      · exact Or.inl rfl
      · exact Or.inr ⟨hold, hkey⟩
    · rintro (rfl | ⟨hmem, hkey⟩)
      · obtain ⟨old, hold, hkey⟩ := List.any_eq_true.mp hany
        exact ⟨old, hold, if_pos (of_decide_eq_true hkey)⟩
      · exact ⟨other, hmem, if_neg hkey⟩
  · rw [List.mem_append, List.mem_singleton, or_comm]
    refine or_congr_right (iff_self_and.mpr fun hmem hkey => ?_)
    exact any_key_eq_false hany (hkey ▸ List.mem_map_of_mem hmem)

/-- A row that replaces the row of its key is there with the rows of other keys. -/
theorem upsert_perm (h : (rows.map key).Nodup) :
    (upsert key row (fun _ => row) rows).Perm
      (row :: rows.filter fun other => key other ≠ key row) := by
  by_cases hrow : (rows.any fun other => key other = key row) = true
  · have hleft : (upsert key row (fun _ => row) rows).Nodup :=
      List.Nodup.of_map key (nodup_upsert (fun _ hkey => hkey.symm) h)
    have hright : (row :: rows.filter fun other => key other ≠ key row).Nodup := by
      refine List.nodup_cons.mpr ⟨fun hmem => ?_, (List.Nodup.of_map key h).filter _⟩
      exact of_decide_eq_true (List.mem_filter.mp hmem).2 rfl
    refine (List.perm_ext_iff_of_nodup hleft hright).mpr fun other => ?_
    rw [mem_upsert, List.mem_cons, List.mem_filter, decide_eq_true_eq]
  · have hall : (rows.filter fun other => key other ≠ key row) = rows := by
      refine List.filter_eq_self.mpr fun other hother => decide_eq_true fun hkey => ?_
      exact any_key_eq_false hrow (hkey ▸ List.mem_map_of_mem hother)
    unfold upsert
    rw [if_neg hrow, hall]
    exact List.perm_append_singleton row rows

/-! ## Ignoring -/

theorem nodup_insertOrIgnore (h : (rows.map key).Nodup) (row : α) :
    ((insertOrIgnore key rows row).map key).Nodup := by
  unfold insertOrIgnore
  split_ifs with hany
  · exact h
  · exact nodup_append_row h (any_key_eq_false hany)

theorem nodup_insertAll (h : (rows.map key).Nodup) (new : List α) :
    ((insertAll key rows new).map key).Nodup := by
  induction new generalizing rows with
  | nil => exact h
  | cons row rest ih => exact ih (nodup_insertOrIgnore h row)

theorem mem_insertOrIgnore_of_mem {other : α} (h : other ∈ rows) (row : α) :
    other ∈ insertOrIgnore key rows row := by
  unfold insertOrIgnore
  split_ifs
  · exact h
  · exact List.mem_append_left _ h

theorem mem_insertAll_of_mem {other : α} (h : other ∈ rows) (new : List α) :
    other ∈ insertAll key rows new := by
  induction new generalizing rows with
  | nil => exact h
  | cons row rest ih => exact ih (mem_insertOrIgnore_of_mem h row)

theorem mem_insertAll {other : α} (h : other ∈ insertAll key rows new) :
    other ∈ rows ∨ other ∈ new := by
  induction new generalizing rows with
  | nil => exact Or.inl h
  | cons row rest ih =>
    rcases ih h with hmem | hmem
    · unfold insertOrIgnore at hmem
      split_ifs at hmem
      · exact Or.inl hmem
      · rcases List.mem_append.mp hmem with hmem | hmem
        · exact Or.inl hmem
        · exact Or.inr (List.mem_singleton.mp hmem ▸ List.mem_cons_self)
    · exact Or.inr (List.mem_cons_of_mem _ hmem)

/-- The key of each new row is there afterwards. -/
theorem exists_key_insertAll (h : row ∈ new) :
    ∃ other ∈ insertAll key rows new, key other = key row := by
  induction new generalizing rows with
  | nil => cases h
  | cons first rest ih =>
    rcases List.mem_cons.mp h with rfl | h
    · obtain ⟨other, hother, hkey⟩ : ∃ other ∈ insertOrIgnore key rows row,
          key other = key row := by
        unfold insertOrIgnore
        split_ifs with hany
        · obtain ⟨other, hother, hkey⟩ := List.any_eq_true.mp hany
          exact ⟨other, hother, of_decide_eq_true hkey⟩
        · exact ⟨row, List.mem_append_right _ (List.mem_singleton_self row), rfl⟩
      exact ⟨other, mem_insertAll_of_mem hother rest, hkey⟩
    · exact ih h

/-! ## Removing -/

theorem mem_erase {k : κ} : row ∈ erase key k rows ↔ row ∈ rows ∧ key row ≠ k := by
  unfold erase
  rw [List.mem_filter, decide_eq_true_eq]

theorem erase_sublist (k : κ) (rows : List α) : (erase key k rows).Sublist rows :=
  List.filter_sublist

theorem nodup_erase (h : (rows.map key).Nodup) (k : κ) : ((erase key k rows).map key).Nodup :=
  h.sublist ((erase_sublist k rows).map key)

/-- The rows are the removed one and the others. -/
theorem perm_cons_erase (h : (rows.map key).Nodup) (hrow : row ∈ rows) :
    rows.Perm (row :: erase key (key row) rows) := by
  have hrows : rows.Nodup := List.Nodup.of_map key h
  have herase : (row :: erase key (key row) rows).Nodup :=
    List.nodup_cons.mpr ⟨fun hmem => (mem_erase.mp hmem).2 rfl, hrows.filter _⟩
  refine (List.perm_ext_iff_of_nodup hrows herase).mpr fun other => ?_
  rw [List.mem_cons, mem_erase]
  constructor
  · intro hother
    by_cases hkey : key other = key row
    · exact Or.inl (List.inj_on_of_nodup_map h hother hrow hkey)
    · exact Or.inr ⟨hother, hkey⟩
  · rintro (rfl | ⟨hother, _⟩)
    · exact hrow
    · exact hother

/-- A row of a new key is added to the others. -/
theorem put_perm_of_notMem (h : (rows.map key).Nodup) (hnew : key row ∉ rows.map key) :
    (put key row rows).Perm (row :: rows) := by
  refine (upsert_perm h).trans ?_
  rw [List.filter_eq_self.mpr]
  intro other hother
  exact decide_eq_true fun hkey => hnew (hkey ▸ List.mem_map_of_mem hother)

theorem nodup_put (h : (rows.map key).Nodup) : ((put key row rows).map key).Nodup :=
  nodup_upsert (fun _ hkey => hkey.symm) h

end Rows
