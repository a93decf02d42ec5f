import OoreBuild.Lib.Text
import OoreBuild.Lib.Table

/-!
# Queries in SQL

Conditions with NULL, and the clauses of a query as functions on lists of rows. A clause keeps a
row when its condition is true; a condition that is NULL keeps it no more than a false one, so
only `Truth.holds` matters to the rows, and the lemmas on `holds` read a `WHERE` clause as plain
logic.
-/

namespace Sql

/-! ## Conditions -/

/-- The value of a condition, `none` for NULL. -/
abbrev Truth := Option Bool

namespace Truth

/-- Whether a clause keeps the row. -/
def holds (t : Truth) : Bool := t.getD false

def not (t : Truth) : Truth := t.map (!·)

def and : Truth → Truth → Truth
  | some false, _ => some false
  | some true, t => t
  | none, some false => some false
  | none, _ => none

def or : Truth → Truth → Truth
  | some true, _ => some true
  | some false, t => t
  | none, some true => some true
  | none, _ => none

/-- Conditions joined by `AND`. -/
def all (ts : List Truth) : Truth := ts.foldr and (some true)

@[simp] theorem holds_some (b : Bool) : holds (some b) = b := rfl

@[simp] theorem holds_none : holds none = false := rfl

@[simp] theorem holds_and (a b : Truth) : (a.and b).holds = (a.holds && b.holds) := by
  revert a b
  decide

@[simp] theorem holds_or (a b : Truth) : (a.or b).holds = (a.holds || b.holds) := by
  revert a b
  decide

theorem holds_all (ts : List Truth) : (all ts).holds = ts.all holds := by
  induction ts with
  | nil => rfl
  | cons t ts ih =>
    rw [List.all_cons, ← ih]
    exact holds_and t (all ts)

end Truth

variable {α β γ : Type}

/-- `a IS NULL`. -/
def isNull (a : Option α) : Truth := some a.isNone

@[simp] theorem holds_isNull (a : Option α) : (isNull a).holds = a.isNone := rfl

section Comparisons

variable [DecidableEq α]

/-- `a = b`. -/
def eq (a b : Option α) : Truth := Option.map₂ (fun a b => decide (a = b)) a b

/-- `a <> b`. -/
def ne (a b : Option α) : Truth := (eq a b).not

/-- `a IS b`, which is true of two NULLs. -/
def isSame (a b : Option α) : Truth := some (decide (a = b))

/-- `x IN (ys)`. -/
def isIn (x : Option α) (ys : List (Option α)) : Truth :=
  ys.foldr (fun y t => (eq x y).or t) (some false)

/-- `x NOT IN (ys)`. -/
def notIn (x : Option α) (ys : List (Option α)) : Truth := (isIn x ys).not

@[simp] theorem holds_eq (a b : Option α) : (eq a b).holds = true ↔ a = b ∧ a.isSome = true := by
  cases a <;> cases b <;> simp [eq]

/-- A comparison with a value that is there. -/
theorem holds_eq_some (a : Option α) (b : α) : (eq a (some b)).holds = true ↔ a = some b := by
  cases a <;> simp

theorem holds_some_eq (a : α) (b : Option α) : (eq (some a) b).holds = true ↔ b = some a := by
  rw [holds_eq, eq_comm]
  exact ⟨fun h => h.1, fun h => ⟨h, rfl⟩⟩

theorem holds_ne_some (a b : α) : (ne (some a) (some b)).holds = true ↔ a ≠ b := by
  simp [ne, eq, Truth.not]

@[simp] theorem holds_isSame (a b : Option α) : (isSame a b).holds = decide (a = b) := rfl

end Comparisons

/-- A value that is not NULL: an integer or a real, or a text. -/
inductive Datum where
  | number (q : ℚ)
  | text (t : Text)
  deriving DecidableEq

/-- Every number comes before every text. -/
def Datum.lt : Datum → Datum → Bool
  | number a, number b => a < b
  | number _, text _ => true
  | text _, number _ => false
  | text a, text b => a < b

/-- What an expression evaluates to. -/
abbrev Value := Option Datum

/-- The value of an integer. -/
def integer (n : ℤ) : Value := some (.number n)

/-- `a > b`. -/
def gt (a b : Value) : Truth := Option.map₂ (fun a b => b.lt a) a b

/-- `a >= b`. -/
def ge (a b : Value) : Truth := Option.map₂ (fun a b => !a.lt b) a b

/-! ## Clauses -/

/-- `WHERE`. -/
def select (cond : α → Truth) (rows : List α) : List α := rows.filter fun row => (cond row).holds

/-- `EXISTS (SELECT 1 FROM … WHERE …)`. -/
def existsRow (cond : α → Truth) (rows : List α) : Truth := some (!(select cond rows).isEmpty)

/-- `SELECT COUNT(*) FROM … WHERE …`. -/
def count (cond : α → Truth) (rows : List α) : ℕ := (select cond rows).length

/-- `JOIN … ON`. -/
def join (rows : List α) (table : List β) (on : α → β → Truth) : List (α × β) :=
  rows.flatMap fun row => (select (on row) table).map fun other => (row, other)

/-- The rows of an outer join's right side: NULLs where no row matches. -/
def orNull : List β → List (Option β)
  | [] => [none]
  | rows => rows.map some

/-- `LEFT JOIN … ON`. -/
def leftJoin (rows : List α) (table : List β) (on : α → β → Truth) : List (α × Option β) :=
  rows.flatMap fun row => (orNull (select (on row) table)).map fun other => (row, other)

/-- `ORDER BY … LIMIT 1`. -/
def first [LinearOrder β] (key : α → β) (rows : List α) : Option α :=
  (rows.mergeSort fun a b => decide (key a ≤ key b)).head?

@[simp] theorem mem_select {cond : α → Truth} {rows : List α} {row : α} :
    row ∈ select cond rows ↔ row ∈ rows ∧ (cond row).holds = true :=
  List.mem_filter

/-- A condition on the key selects at most the row of that key. -/
theorem select_eq_toList {κ : Type} [DecidableEq κ] {key : α → κ} (t : Table key) {k : κ}
    {cond : α → Truth} (h : ∀ row, (cond row).holds = true → key row = k) :
    select cond t.rows = ((t.find k).filter fun row => (cond row).holds).toList := by
  have hfilter : select cond t.rows =
      (t.rows.filter fun row => key row = k).filter fun row => (cond row).holds := by
    unfold select
    rw [List.filter_filter]
    refine List.filter_congr fun row _ => ?_
    cases hcond : (cond row).holds with
    | false => rfl
    | true => simpa using h row hcond
  rw [hfilter]
  cases hfind : t.find k with
  | none =>
    have hnil : (t.rows.filter fun row => key row = k) = [] := by
      unfold Table.find at hfind
      rw [List.filter_eq_nil_iff]
      exact List.find?_eq_none.mp hfind
    rw [hnil]
    rfl
  | some row =>
    rw [Table.filter_key_of_find hfind, List.filter_singleton, Option.filter_some]
    cases (cond row).holds <;> rfl

theorem holds_existsRow {cond : α → Truth} {rows : List α} :
    (existsRow cond rows).holds = true ↔ ∃ row ∈ rows, (cond row).holds = true := by
  unfold existsRow
  rw [Truth.holds_some, Bool.not_eq_true', List.isEmpty_eq_false_iff_exists_mem]
  simp only [mem_select]

theorem mem_join {rows : List α} {table : List β} {on : α → β → Truth} {row : α} {other : β} :
    (row, other) ∈ join rows table on ↔
      row ∈ rows ∧ other ∈ table ∧ (on row other).holds = true := by
  simp [join]

/-- Rows of two tables are paired once. -/
theorem nodup_join {rows : List α} {table : List β} {on : α → β → Truth} (hrows : rows.Nodup)
    (htable : table.Nodup) : (join rows table on).Nodup := by
  refine List.nodup_flatMap.mpr ⟨fun row _ => ?_, hrows.imp fun {a b} hne => ?_⟩
  · exact (htable.filter _).map fun _ _ heq => (Prod.mk.inj heq).2
  · intro pair ha hb
    obtain ⟨other, -, rfl⟩ := List.mem_map.mp ha
    obtain ⟨other', -, heq⟩ := List.mem_map.mp hb
    exact hne (Prod.mk.inj heq).1.symm

theorem mem_leftJoin {rows : List α} {table : List β} {on : α → β → Truth} {row : α}
    {other : Option β} :
    (row, other) ∈ leftJoin rows table on ↔
      row ∈ rows ∧ other ∈ orNull (select (on row) table) := by
  simp [leftJoin]

section First

variable [LinearOrder β] {key : α → β} {rows : List α} {row : α}

theorem first_eq_none_iff : first key rows = none ↔ rows = [] := by
  unfold first
  rw [List.head?_eq_none_iff, ← List.length_eq_zero_iff, List.length_mergeSort,
    List.length_eq_zero_iff]

/-- The first row is one of the rows with the least key. -/
theorem first_spec (h : first key rows = some row) :
    row ∈ rows ∧ ∀ other ∈ rows, key row ≤ key other := by
  unfold first at h
  obtain ⟨rest, hsort⟩ := List.head?_eq_some_iff.mp h
  have hpairwise := @List.pairwise_mergeSort α (fun a b => decide (key a ≤ key b))
    (fun _ _ _ hab hbc => by
      simp only [decide_eq_true_eq] at *
      exact hab.trans hbc)
    (fun a b => by
      simp only [Bool.or_eq_true, decide_eq_true_eq]
      exact le_total (key a) (key b)) rows
  rw [hsort, List.pairwise_cons] at hpairwise
  have hmem : ∀ other, other ∈ rows ↔ other = row ∨ other ∈ rest := by
    intro other
    rw [← @List.mem_mergeSort α (fun a b => decide (key a ≤ key b)), hsort, List.mem_cons]
  refine ⟨(hmem row).mpr (.inl rfl), fun other hother => ?_⟩
  rcases (hmem other).mp hother with rfl | hrest
  · exact le_rfl
  · exact of_decide_eq_true (hpairwise.1 other hrest)

/-- Where the keys are distinct, the first row is the one with the least key. -/
theorem first_eq_some_iff (hinj : ∀ a ∈ rows, ∀ b ∈ rows, key a = key b → a = b) :
    first key rows = some row ↔ row ∈ rows ∧ ∀ other ∈ rows, key row ≤ key other := by
  constructor
  · exact first_spec
  · rintro ⟨hmem, hleast⟩
    cases hfirst : first key rows with
    | none =>
      rw [first_eq_none_iff.mp hfirst] at hmem
      cases hmem
    | some least =>
      obtain ⟨hmem', hleast'⟩ := first_spec hfirst
      rw [hinj least hmem' row hmem (le_antisymm (hleast' row hmem) (hleast least hmem'))]

end First

end Sql
