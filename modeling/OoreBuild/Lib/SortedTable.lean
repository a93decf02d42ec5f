import Mathlib.Data.Int.Order.Basic
import Mathlib.Data.List.Pairwise
import Mathlib.Data.List.Sort
import Mathlib.Data.List.DropRight

/-!
# Tables in the order of their key

A table that is only read in the order of a unique key, as the strictly ascending list of its rows.
An insert leaves out a row whose key is there. `take_eq_of_mem` and `drop_eq_of_mem` say when two
tables have the same lowest or highest rows, whatever was inserted and deleted in between.
-/

namespace SortedTable

variable {α β : Type} {r : β → β → Prop} (key : α → β)

section Insert

variable [LinearOrder β]

/-- Insert a row, unless its key is there. -/
def insertOrIgnore (row : α) : List α → List α
  | [] => [row]
  | first :: rest =>
    if key row < key first then row :: first :: rest
    else if key row = key first then first :: rest
    else first :: insertOrIgnore row rest

/-- The rows are in the strict order of their key. -/
abbrev Sorted (rows : List α) : Prop := rows.Pairwise fun a b => key a < key b

/-- Insert rows one after the other. -/
def insertAll (rows new : List α) : List α :=
  new.foldl (fun rows row => insertOrIgnore key row rows) rows

variable {key} {row x : α} {rows new : List α}

theorem insertOrIgnore_cons (first : α) (rest : List α) :
    insertOrIgnore key row (first :: rest) =
      if key row < key first then row :: first :: rest
      else if key row = key first then first :: rest
      else first :: insertOrIgnore key row rest := rfl

theorem sublist_insertOrIgnore : rows.Sublist (insertOrIgnore key row rows) := by
  induction rows with
  | nil => exact List.nil_sublist _
  | cons first rest ih =>
    rw [insertOrIgnore_cons]
    split
    · exact List.sublist_cons_self _ _
    · split
      · exact List.Sublist.refl _
      · exact ih.cons_cons first

theorem mem_insertOrIgnore (h : x ∈ insertOrIgnore key row rows) : x = row ∨ x ∈ rows := by
  induction rows with
  | nil => exact List.mem_cons.mp h
  | cons first rest ih =>
    rw [insertOrIgnore_cons] at h
    split at h
    · exact List.mem_cons.mp h
    · split at h
      · exact .inr h
      · rcases List.mem_cons.mp h with rfl | h
        · exact .inr List.mem_cons_self
        · exact (ih h).imp_right (List.mem_cons_of_mem _)

variable (key) in
/-- The key of the row is there afterwards. -/
theorem exists_key_insertOrIgnore (row : α) (rows : List α) :
    ∃ y ∈ insertOrIgnore key row rows, key y = key row := by
  induction rows with
  | nil => exact ⟨row, List.mem_cons_self, rfl⟩
  | cons first rest ih =>
    rw [insertOrIgnore_cons]
    split
    · exact ⟨row, List.mem_cons_self, rfl⟩
    · split
      · rename_i heq
        exact ⟨first, List.mem_cons_self, heq.symm⟩
      · obtain ⟨y, hy, heq⟩ := ih
        exact ⟨y, List.mem_cons_of_mem _ hy, heq⟩

theorem Sorted.insertOrIgnore (h : Sorted key rows) (row : α) :
    Sorted key (insertOrIgnore key row rows) := by
  induction rows with
  | nil => exact List.pairwise_singleton _ _
  | cons first rest ih =>
    obtain ⟨hfirst, hrest⟩ := List.pairwise_cons.mp h
    rw [insertOrIgnore_cons]
    split
    · rename_i hlt
      refine List.pairwise_cons.mpr ⟨fun y hy => ?_, h⟩
      rcases List.mem_cons.mp hy with rfl | hy
      · exact hlt
      · exact hlt.trans (hfirst y hy)
    · split
      · exact h
      · rename_i hnlt hne
        refine List.pairwise_cons.mpr ⟨fun y hy => ?_, ih hrest⟩
        rcases mem_insertOrIgnore hy with rfl | hy
        · exact lt_of_le_of_ne (not_lt.mp hnlt) (Ne.symm hne)
        · exact hfirst y hy

theorem sublist_insertAll : rows.Sublist (insertAll key rows new) := by
  induction new generalizing rows with
  | nil => exact List.Sublist.refl _
  | cons row new ih => exact sublist_insertOrIgnore.trans ih

theorem mem_insertAll (h : x ∈ insertAll key rows new) : x ∈ rows ∨ x ∈ new := by
  induction new generalizing rows with
  | nil => exact .inl h
  | cons row new ih =>
    rcases ih h with hin | hin
    · exact (mem_insertOrIgnore hin).elim (fun heq => .inr (heq ▸ List.mem_cons_self)) .inl
    · exact .inr (List.mem_cons_of_mem _ hin)

variable (key) in
theorem exists_key_insertAll (rows : List α) (h : row ∈ new) :
    ∃ y ∈ insertAll key rows new, key y = key row := by
  induction new generalizing rows with
  | nil => cases h
  | cons first new ih =>
    rcases List.mem_cons.mp h with rfl | h
    · obtain ⟨y, hy, heq⟩ := exists_key_insertOrIgnore key row rows
      have hsub : (insertOrIgnore key row rows).Sublist (insertAll key rows (row :: new)) :=
        sublist_insertAll
      exact ⟨y, hsub.subset hy, heq⟩
    · exact ih _ h

theorem Sorted.insertAll (h : Sorted key rows) (new : List α) :
    Sorted key (insertAll key rows new) := by
  induction new generalizing rows with
  | nil => exact h
  | cons row new ih => exact ih (h.insertOrIgnore row)

/-- Rows whose keys are there change nothing. -/
theorem insertOrIgnore_of_key (hsorted : Sorted key rows) {y : α} (hy : y ∈ rows)
    (hkey : key y = key row) : insertOrIgnore key row rows = rows := by
  induction rows with
  | nil => cases hy
  | cons first rest ih =>
    obtain ⟨hfirst, hrest⟩ := List.pairwise_cons.mp hsorted
    rw [insertOrIgnore_cons]
    rcases List.mem_cons.mp hy with rfl | hy
    · rw [if_neg (hkey ▸ lt_irrefl _), if_pos hkey.symm]
    · have hlt : key first < key row := hkey ▸ hfirst y hy
      rw [if_neg hlt.asymm, if_neg hlt.ne', ih hrest hy]

theorem insertAll_of_keys (hsorted : Sorted key rows)
    (h : ∀ x ∈ new, ∃ y ∈ rows, key y = key x) : insertAll key rows new = rows := by
  induction new with
  | nil => rfl
  | cons row new ih =>
    obtain ⟨y, hy, hkey⟩ := h row List.mem_cons_self
    show insertAll key (insertOrIgnore key row rows) new = rows
    rw [insertOrIgnore_of_key hsorted hy hkey]
    exact ih fun x hx => h x (List.mem_cons_of_mem _ hx)

/-- Rows that come in the order of their keys go to the end. -/
theorem insertOrIgnore_of_last (h : ∀ y ∈ rows, key y < key row) :
    insertOrIgnore key row rows = rows ++ [row] := by
  induction rows with
  | nil => rfl
  | cons first rest ih =>
    have hlt := h first List.mem_cons_self
    rw [insertOrIgnore_cons]
    rw [if_neg hlt.asymm, if_neg hlt.ne', ih fun y hy => h y (List.mem_cons_of_mem _ hy)]
    rfl

theorem insertAll_of_sorted (h : Sorted key (rows ++ new)) :
    insertAll key rows new = rows ++ new := by
  induction new generalizing rows with
  | nil => exact (List.append_nil rows).symm
  | cons row new ih =>
    show insertAll key (insertOrIgnore key row rows) new = _
    rw [insertOrIgnore_of_last fun y hy =>
      (List.pairwise_append.mp h).2.2 y hy row List.mem_cons_self]
    have hsplit : rows ++ row :: new = rows ++ [row] ++ new := by
      rw [List.append_assoc, List.singleton_append]
    rw [hsplit] at h ⊢
    exact ih h

variable (key) in
/-- Rows of equal keys are equal. -/
def Consistent (rows : List α) : Prop := ∀ x ∈ rows, ∀ y ∈ rows, key x = key y → x = y

/-- Rows in strict order have different keys. -/
theorem Sorted.consistent (h : Sorted key rows) : Consistent key rows := by
  intro x hx y hy heq
  by_contra hne
  have hX : Std.Symm fun a b => key a ≠ key b := ⟨fun {_ _} => Ne.symm⟩
  exact List.Pairwise.forall (h.imp fun hlt => hlt.ne) hx hy hne heq

/-- What is inserted with a new key is there, where rows of equal keys are equal. -/
theorem mem_insertAll_of_new (hnew : Consistent key new) (h : row ∈ new)
    (hkey : ∀ y ∈ rows, key y ≠ key row) : row ∈ insertAll key rows new := by
  obtain ⟨y, hy, heq⟩ := exists_key_insertAll key rows h
  rcases mem_insertAll hy with hold | hin
  · exact absurd heq (hkey y hold)
  · rw [← hnew y hin row h heq]
    exact hy

end Insert

/-! ## The lowest and the highest rows -/

variable {key} {l m : List α}

/-- A table that has the lowest rows of another, and no key beyond that one's, has the same lowest
rows. -/
theorem take_eq_of_mem (hirrefl : ∀ a, ¬r a a) (hasymm : ∀ a b, r a b → ¬r b a)
    (hl : l.Pairwise fun a b => r (key a) (key b)) (hm : m.Pairwise fun a b => r (key a) (key b))
    (k : ℕ) (hmem : ∀ x ∈ l.take k, x ∈ m) (hkeys : ∀ y ∈ m, ∃ x ∈ l, key x = key y) :
    m.take k = l.take k := by
  induction k generalizing l m with
  | zero => simp
  | succ k ih =>
    cases l with
    | nil =>
      cases m with
      | nil => rfl
      | cons y m =>
        obtain ⟨x, hx, -⟩ := hkeys y List.mem_cons_self
        cases hx
    | cons a l =>
      obtain ⟨ha, hl'⟩ := List.pairwise_cons.mp hl
      cases m with
      | nil => cases hmem a (by simp)
      | cons b m =>
        obtain ⟨hb, hm'⟩ := List.pairwise_cons.mp hm
        -- the first rows have the same key, so they are the same row
        have hab : a = b := by
          rcases List.mem_cons.mp (hmem a (by simp)) with hab | ham
          · exact hab
          · obtain ⟨x, hx, hkey⟩ := hkeys b List.mem_cons_self
            rcases List.mem_cons.mp hx with rfl | hx
            · exact absurd (hkey ▸ hb _ ham) (hirrefl _)
            · exact absurd (hb a ham) (hasymm _ _ (hkey ▸ ha x hx))
        subst hab
        rw [List.take_succ_cons, List.take_succ_cons]
        congr 1
        refine ih hl' hm' (fun x hx => ?_) fun y hy => ?_
        · rcases List.mem_cons.mp (hmem x (List.mem_cons_of_mem _ hx)) with rfl | hin
          · exact absurd (ha x (List.mem_of_mem_take hx)) (hirrefl _)
          · exact hin
        · obtain ⟨x, hx, hkey⟩ := hkeys y (List.mem_cons_of_mem _ hy)
          rcases List.mem_cons.mp hx with rfl | hx
          · exact absurd (hkey ▸ hb y hy) (hirrefl _)
          · exact ⟨x, hx, hkey⟩

variable [LinearOrder β]

theorem take_eq (hl : Sorted key l) (hm : Sorted key m) (k : ℕ) (hmem : ∀ x ∈ l.take k, x ∈ m)
    (hkeys : ∀ y ∈ m, ∃ x ∈ l, key x = key y) : m.take k = l.take k :=
  take_eq_of_mem (fun _ => lt_irrefl _) (fun _ _ => lt_asymm) hl hm k hmem hkeys

/-- The highest rows, from the end. -/
theorem rtake_eq (hl : Sorted key l) (hm : Sorted key m) (k : ℕ) (hmem : ∀ x ∈ l.rtake k, x ∈ m)
    (hkeys : ∀ y ∈ m, ∃ x ∈ l, key x = key y) : m.rtake k = l.rtake k := by
  have hreverse : m.reverse.take k = l.reverse.take k := by
    refine take_eq_of_mem (r := (· > ·)) (fun _ => lt_irrefl _) (fun _ _ => lt_asymm)
      (List.pairwise_reverse.mpr hl) (List.pairwise_reverse.mpr hm) k (fun x hx => ?_) fun y hy => ?_
    · rw [List.mem_reverse]
      refine hmem x ?_
      rwa [List.rtake_eq_reverse_take_reverse, List.mem_reverse]
    · obtain ⟨x, hx, hkey⟩ := hkeys y (List.mem_reverse.mp hy)
      exact ⟨x, List.mem_reverse.mpr hx, hkey⟩
  rw [List.rtake_eq_reverse_take_reverse, List.rtake_eq_reverse_take_reverse, hreverse]

/-- Two tables of the same rows are the same. -/
theorem Sorted.ext (hl : Sorted key l) (hm : Sorted key m) (h : ∀ x, x ∈ l ↔ x ∈ m) : l = m :=
  List.Pairwise.eq_of_mem_iff (r := fun a b => key a < key b) hl hm @h

/-- A row among the lowest stays among them where rows are left out. -/
theorem mem_take_of_sublist (hsub : m.Sublist l) {x : α} {k : ℕ} (hl : l.Nodup) (hx : x ∈ m)
    (h : x ∈ l.take k) : x ∈ m.take k := by
  induction hsub generalizing k with
  | slnil => cases hx
  | @cons m l a hsub ih =>
    cases k with
    | zero => cases h
    | succ k =>
      rcases List.mem_cons.mp h with rfl | h
      · exact absurd (hsub.subset hx) (List.nodup_cons.mp hl).1
      · exact List.take_subset_take_left _ (Nat.le_succ k) (ih (List.nodup_cons.mp hl).2 hx h)
  | @cons_cons m l a hsub ih =>
    cases k with
    | zero => cases h
    | succ k =>
      rcases List.mem_cons.mp h with rfl | h
      · exact List.mem_cons_self
      · rcases List.mem_cons.mp hx with rfl | hx
        · exact List.mem_cons_self
        · exact List.mem_cons_of_mem _ (ih (List.nodup_cons.mp hl).2 hx h)

theorem mem_rtake_of_sublist (hsub : m.Sublist l) {x : α} {k : ℕ} (hl : l.Nodup) (hx : x ∈ m)
    (h : x ∈ l.rtake k) : x ∈ m.rtake k := by
  rw [List.rtake_eq_reverse_take_reverse, List.mem_reverse] at h ⊢
  exact mem_take_of_sublist hsub.reverse (List.nodup_reverse.mpr hl) (List.mem_reverse.mpr hx) h

end SortedTable
