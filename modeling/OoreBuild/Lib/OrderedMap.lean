import Mathlib.Data.List.Nodup

/-!
# Mappings in file order

A mapping that keeps the order of its entries and holds every key once.
-/

/-- Entries with distinct keys, in order. -/
structure OrderedMap (κ ν : Type) where
  entries : List (κ × ν)
  nodup : (entries.map Prod.fst).Nodup

namespace OrderedMap

variable {κ ν : Type}

def empty : OrderedMap κ ν := ⟨[], List.nodup_nil⟩

def isEmpty (m : OrderedMap κ ν) : Bool := m.entries.isEmpty

def keys (m : OrderedMap κ ν) : List κ := m.entries.map Prod.fst

/-- The map with every value replaced. -/
def mapValues {μ : Type} (f : ν → μ) (m : OrderedMap κ ν) : OrderedMap κ μ where
  entries := m.entries.map fun entry => (entry.1, f entry.2)
  nodup := by
    rw [List.map_map]
    exact m.nodup

variable [DecidableEq κ]

def get (m : OrderedMap κ ν) (key : κ) : Option ν :=
  (m.entries.find? fun entry => entry.1 = key).map Prod.snd

theorem mem_of_get {m : OrderedMap κ ν} {key : κ} {value : ν} (h : m.get key = some value) :
    (key, value) ∈ m.entries := by
  obtain ⟨entry, hentry, rfl⟩ := Option.map_eq_some_iff.mp h
  have hkey : entry.1 = key := by simpa using List.find?_some hentry
  rw [← hkey]
  exact List.mem_of_find?_eq_some hentry

/-- Every entry is found under its key. -/
theorem get_of_mem {m : OrderedMap κ ν} {key : κ} {value : ν} (h : (key, value) ∈ m.entries) :
    m.get key = some value := by
  unfold get
  obtain ⟨entries, hnodup⟩ := m
  induction entries with
  | nil => cases h
  | cons first rest ih =>
    rw [List.map_cons, List.nodup_cons] at hnodup
    rcases List.mem_cons.mp h with rfl | hmem
    · simp
    · have hne : first.1 ≠ key := fun heq =>
        hnodup.1 (heq ▸ List.mem_map_of_mem hmem)
      rw [List.find?_cons_of_neg (by simpa using hne)]
      exact ih hnodup.2 hmem

theorem find?_mapValues {μ : Type} (f : ν → μ) (m : OrderedMap κ ν) (key : κ) :
    ((m.mapValues f).entries.find? fun entry => entry.1 = key) =
      (m.entries.find? fun entry => entry.1 = key).map fun entry => (entry.1, f entry.2) :=
  List.find?_map

theorem get_mapValues {μ : Type} (f : ν → μ) (m : OrderedMap κ ν) (key : κ) :
    (m.mapValues f).get key = (m.get key).map f := by
  unfold get
  rw [find?_mapValues, Option.map_map, Option.map_map]
  rfl

end OrderedMap
