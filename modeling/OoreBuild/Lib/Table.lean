import Mathlib.Data.List.Nodup
import Mathlib.Data.List.Perm.Subperm

/-!
# Tables with a unique key

A database table with a primary key, as the list of its rows in the order of insertion. The key
is unique by construction, so a row is found by its key, and an update of one row leaves the
others as they were.
-/

/-- Rows with distinct keys. -/
structure Table {α κ : Type} (key : α → κ) where
  rows : List α
  nodup : (rows.map key).Nodup

namespace Table

variable {α κ : Type} [DecidableEq κ] {key : α → κ}

@[ext]
theorem ext {α κ : Type} {key : α → κ} {t u : Table key} (h : t.rows = u.rows) : t = u := by
  cases t
  cases u
  cases h
  rfl

/-- The row of a key. -/
def find (t : Table key) (k : κ) : Option α := t.rows.find? fun row => key row = k

/-- Update the row of a key, keeping the key. -/
def modify (t : Table key) (k : κ) (f : α → α) (hf : ∀ row, key (f row) = key row) : Table key where
  rows := t.rows.map fun row => if key row = k then f row else row
  nodup := by
    rw [List.map_map]
    convert t.nodup using 2
    funext row
    simp only [Function.comp_apply]
    split
    · exact hf row
    · rfl

theorem key_of_find {t : Table key} {k : κ} {row : α} (h : t.find k = some row) : key row = k := by
  simpa using List.find?_some h

theorem mem_of_find {t : Table key} {k : κ} {row : α} (h : t.find k = some row) : row ∈ t.rows :=
  List.mem_of_find?_eq_some h

theorem find_of_mem {t : Table key} {row : α} (h : row ∈ t.rows) : t.find (key row) = some row := by
  unfold find
  obtain ⟨rows, hnodup⟩ := t
  induction rows with
  | nil => cases h
  | cons first rest ih =>
    rw [List.map_cons, List.nodup_cons] at hnodup
    rcases List.mem_cons.mp h with rfl | hmem
    · simp
    · have hne : key first ≠ key row := fun heq => hnodup.1 (heq ▸ List.mem_map_of_mem hmem)
      rw [List.find?_cons_of_neg (by simpa using hne)]
      exact ih hnodup.2 hmem

theorem find_modify (t : Table key) (k : κ) (f : α → α) (hf : ∀ row, key (f row) = key row)
    (k' : κ) : (t.modify k f hf).find k' =
      if k' = k then (t.find k).map f else t.find k' := by
  unfold find modify
  dsimp only
  rw [List.find?_map]
  have hkey : (fun row => decide (key row = k')) ∘ (fun row => if key row = k then f row else row) =
      fun row => decide (key row = k') := by
    funext row
    simp only [Function.comp_apply]
    split
    · rw [hf]
    · rfl
  rw [hkey]
  split
  · rename_i heq
    subst heq
    refine Option.map_congr fun row hrow => ?_
    rw [if_pos (by simpa using List.find?_some hrow)]
  · rename_i hne
    cases hfind : t.rows.find? fun row => decide (key row = k') with
    | none => rfl
    | some row =>
      have hk : key row = k' := by simpa using List.find?_some hfind
      rw [Option.map_some, if_neg (hk ▸ hne)]

@[simp] theorem find_modify_self (t : Table key) (k : κ) (f : α → α)
    (hf : ∀ row, key (f row) = key row) : (t.modify k f hf).find k = (t.find k).map f := by
  rw [find_modify, if_pos rfl]

theorem find_modify_of_ne (t : Table key) {k k' : κ} (h : k' ≠ k) (f : α → α)
    (hf : ∀ row, key (f row) = key row) : (t.modify k f hf).find k' = t.find k' := by
  rw [find_modify, if_neg h]

/-- Insert a row with a new key. -/
def insert (t : Table key) (row : α) (h : key row ∉ t.rows.map key) : Table key where
  rows := t.rows ++ [row]
  nodup := by
    rw [List.map_append, List.map_singleton]
    exact List.Nodup.append t.nodup (List.nodup_singleton _) (List.disjoint_singleton.mpr h)

theorem find_insert (t : Table key) (row : α) (h : key row ∉ t.rows.map key) (k : κ) :
    (t.insert row h).find k = if k = key row then some row else t.find k := by
  unfold insert find
  rw [List.find?_append]
  split
  · rename_i hk
    have hnone : (t.rows.find? fun row => decide (key row = k)) = none := by
      rw [List.find?_eq_none]
      intro other hother
      rw [hk, decide_eq_true_eq]
      exact fun heq => h (heq ▸ List.mem_map_of_mem hother)
    rw [hnone, hk]
    simp
  · rename_i hk
    rw [List.find?_singleton, if_neg (by simpa using Ne.symm hk), Option.or_none]

/-- An update of a row that was just inserted. -/
theorem rows_modify_insert (t : Table key) (row : α) (h : key row ∉ t.rows.map key) (f : α → α)
    (hf : ∀ row, key (f row) = key row) :
    ((t.insert row h).modify (key row) f hf).rows = t.rows ++ [f row] := by
  show (t.rows ++ [row]).map (fun other => if key other = key row then f other else other) = _
  have hold : t.rows.map (fun other => if key other = key row then f other else other) = t.rows := by
    refine (List.map_congr_left fun other hother => ?_).trans (List.map_id _)
    have hne : key other ≠ key row := fun heq => h (heq ▸ List.mem_map_of_mem hother)
    exact if_neg hne
  rw [List.map_append, hold, List.map_singleton, if_pos rfl]

/-- A key selects its row alone. -/
theorem filter_key_of_find {t : Table key} {k : κ} {row : α} (h : t.find k = some row) :
    (t.rows.filter fun row => key row = k) = [row] := by
  have hmem : row ∈ t.rows.filter fun row => key row = k := by
    simpa using ⟨mem_of_find h, key_of_find h⟩
  have hsub : ∀ other ∈ t.rows.filter fun row => key row = k, other = row := by
    intro other hother
    obtain ⟨hin, hkey⟩ := List.mem_filter.mp hother
    have hfind := find_of_mem hin
    rw [of_decide_eq_true hkey, h] at hfind
    exact (Option.some.inj hfind).symm
  have hnodup : (t.rows.filter fun row => key row = k).Nodup := (List.Nodup.of_map key t.nodup).filter _
  generalize t.rows.filter (fun row => key row = k) = l at hmem hsub hnodup
  cases l with
  | nil => cases hmem
  | cons first rest =>
    obtain rfl := hsub first List.mem_cons_self
    cases rest with
    | nil => rfl
    | cons second rest =>
      have heq := hsub second (List.mem_cons_of_mem _ List.mem_cons_self)
      exact absurd (heq ▸ List.mem_cons_self) (List.nodup_cons.mp hnodup).1

/-- Update every row, keeping the keys. -/
def mapRows (t : Table key) (f : α → α) (hf : ∀ row, key (f row) = key row) : Table key where
  rows := t.rows.map f
  nodup := by
    rw [List.map_map, show key ∘ f = key from funext hf]
    exact t.nodup

theorem find_mapRows (t : Table key) (f : α → α) (hf : ∀ row, key (f row) = key row) (k : κ) :
    (t.mapRows f hf).find k = (t.find k).map f := by
  unfold mapRows find
  rw [List.find?_map]
  congr 2
  funext row
  simp only [Function.comp_apply, hf]

theorem modify_eq_mapRows (t : Table key) (k : κ) (f : α → α) (hf : ∀ row, key (f row) = key row)
    (hif : ∀ row, key (if key row = k then f row else row) = key row) :
    t.modify k f hf = t.mapRows (fun row => if key row = k then f row else row) hif := rfl

/-- Delete the row of a key. -/
def erase (t : Table key) (k : κ) : Table key where
  rows := t.rows.filter fun row => key row ≠ k
  nodup := t.nodup.sublist ((List.filter_sublist).map key)

theorem find_erase (t : Table key) (k k' : κ) :
    (t.erase k).find k' = if k' = k then none else t.find k' := by
  unfold erase find
  dsimp only
  rw [List.find?_filter]
  split
  · rename_i heq
    rw [List.find?_eq_none]
    intro row _
    simp [heq]
  · rename_i hne
    congr 1
    funext row
    by_cases hk : key row = k'
    · simp [hk, hne]
    · simp [hk]

/-- Delete the rows that do not meet a condition. -/
def filter (t : Table key) (p : α → Bool) : Table key where
  rows := t.rows.filter p
  nodup := t.nodup.sublist ((List.filter_sublist).map key)

theorem find_filter (t : Table key) (p : α → Bool) (k : κ) :
    (t.filter p).find k = (t.find k).filter p := by
  have hmem : ∀ row, row ∈ (t.filter p).rows ↔ row ∈ t.rows ∧ p row = true := fun row =>
    List.mem_filter
  cases hfiltered : (t.filter p).find k with
  | some row =>
    obtain ⟨hrow, hp⟩ := (hmem row).mp (mem_of_find hfiltered)
    have hfind := find_of_mem hrow
    rw [key_of_find hfiltered] at hfind
    rw [hfind, Option.filter_some, if_pos hp]
  | none =>
    cases hfind : t.find k with
    | none => rfl
    | some row =>
      by_cases hp : p row = true
      · have hrow := find_of_mem ((hmem row).mpr ⟨mem_of_find hfind, hp⟩)
        rw [key_of_find hfind, hfiltered] at hrow
        cases hrow
      · rw [Option.filter_some, if_neg hp]

/-- Fewer rows of one table meet a condition where each has a row of the other table with its key
that meets it, apart from the keys of a list. -/
theorem countP_le_add {t u : Table key} {p : α → Bool} (ks : List κ)
    (h : ∀ row ∈ t.rows, p row = true → key row ∉ ks →
      ∃ row' ∈ u.rows, key row' = key row ∧ p row' = true) :
    t.rows.countP p ≤ u.rows.countP p + ks.length := by
  have hnodup : ((t.rows.filter p).map key).Nodup :=
    t.nodup.sublist ((List.filter_sublist).map key)
  have hsub : (t.rows.filter p).map key ⊆ (u.rows.filter p).map key ++ ks := by
    intro k hk
    obtain ⟨row, hrow, rfl⟩ := List.mem_map.mp hk
    obtain ⟨hmem, hp⟩ := List.mem_filter.mp hrow
    by_cases hin : key row ∈ ks
    · exact List.mem_append.mpr (.inr hin)
    · obtain ⟨row', hrow', hkey, hp'⟩ := h row hmem hp hin
      exact List.mem_append.mpr (.inl (List.mem_map.mpr ⟨row', List.mem_filter.mpr ⟨hrow', hp'⟩, hkey⟩))
  have hlen := (hnodup.subperm hsub).length_le
  simpa [List.countP_eq_length_filter] using hlen

/-- An update after which its row no longer meets a condition. -/
theorem countP_modify_lt {t : Table key} {k : κ} {f : α → α} (hf : ∀ row, key (f row) = key row)
    {p : α → Bool} {row : α} (hfind : t.find k = some row) (hp : p row = true)
    (hnot : p (f row) = false) : (t.modify k f hf).rows.countP p < t.rows.countP p := by
  have hle : ∀ x ∈ t.rows, p (if key x = k then f x else x) = true → p x = true := by
    intro x hx h
    split at h
    · rename_i heq
      have hsame := find_of_mem hx
      rw [heq, hfind] at hsame
      rw [← Option.some.inj hsame, hnot] at h
      cases h
    · exact h
  show (t.rows.map fun x => if key x = k then f x else x).countP p < t.rows.countP p
  obtain ⟨before, after, hsplit⟩ := List.append_of_mem (mem_of_find hfind)
  rw [hsplit] at hle ⊢
  have hbefore : (before.map fun x => if key x = k then f x else x).countP p ≤ before.countP p := by
    rw [List.countP_map]
    exact List.countP_mono_left fun x hx => hle x (List.mem_append_left _ hx)
  have hafter : (after.map fun x => if key x = k then f x else x).countP p ≤ after.countP p := by
    rw [List.countP_map]
    exact List.countP_mono_left fun x hx =>
      hle x (List.mem_append_right _ (List.mem_cons_of_mem _ hx))
  rw [List.map_append, List.map_cons, List.countP_append, List.countP_append,
    if_pos (key_of_find hfind), List.countP_cons_of_neg (by simp [hnot]),
    List.countP_cons_of_pos hp]
  omega

/-- A property of every row, read by key. -/
theorem forall_mem_iff {t : Table key} {p : α → Prop} :
    (∀ row ∈ t.rows, p row) ↔ ∀ k row, t.find k = some row → p row :=
  ⟨fun h _ row hrow => h row (mem_of_find hrow), fun h row hrow => h _ row (find_of_mem hrow)⟩

end Table
