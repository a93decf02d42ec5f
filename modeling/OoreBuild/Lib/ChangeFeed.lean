import Mathlib.Data.List.Nodup
import Mathlib.Data.List.Sort
import Mathlib.Logic.Function.Basic

/-!
# Change feeds

A reader holds a view of a table, the last row that it was told for each key, and follows the table
by its changes. Changes that agree with the table and leave no key out bring the view to the table,
in any order. A feed finds them either by comparing the table with what it was, or by the stamp of
the last write: it then reads the rows of a window that reaches back from the newest stamp, and
remembers what it told of them.
-/

namespace ChangeFeed

variable {κ ν ρ : Type} [DecidableEq κ]

/-! ## Views -/

/-- The view after changes: a row, or its removal. -/
def apply (view : κ → Option ρ) (changes : List (κ × Option ρ)) : κ → Option ρ :=
  changes.foldl (fun view change => Function.update view change.1 change.2) view

theorem apply_of_notMem {view : κ → Option ρ} {changes : List (κ × Option ρ)} {k : κ}
    (h : k ∉ changes.map Prod.fst) : apply view changes k = view k := by
  induction changes generalizing view with
  | nil => rfl
  | cons change changes ih =>
    rw [List.map_cons, List.mem_cons, not_or] at h
    exact (ih h.2).trans (Function.update_of_ne h.1 _ _)

/-- Changes that agree with a target, where the view agrees with it elsewhere. -/
theorem apply_eq {view target : κ → Option ρ} {changes : List (κ × Option ρ)} {k : κ}
    (hchanges : ∀ change ∈ changes, change.1 = k → change.2 = target k)
    (hview : k ∉ changes.map Prod.fst → view k = target k) : apply view changes k = target k := by
  induction changes generalizing view with
  | nil => exact hview nofun
  | cons change changes ih =>
    refine ih (fun other hother => hchanges other (List.mem_cons_of_mem _ hother)) fun hrest => ?_
    by_cases hk : k = change.1
    · subst hk
      exact (Function.update_self _ _ _).trans (hchanges change List.mem_cons_self rfl)
    · refine (Function.update_of_ne hk _ _).trans (hview ?_)
      rw [List.map_cons, List.mem_cons, not_or]
      exact ⟨hk, hrest⟩

/-! ## Comparing with the table as it was -/

section Diff

variable [DecidableEq ρ] (key : ρ → κ)

/-- The row of a key. -/
def lookup (rows : List ρ) (k : κ) : Option ρ := rows.find? fun row => key row = k

/-- The rows that are new or changed, and then the keys that are gone. -/
def diff (old new : List ρ) : List (κ × Option ρ) :=
  (new.filter fun row => lookup key old (key row) ≠ some row).map
      (fun row => (key row, some row)) ++
    (old.filter fun row => lookup key new (key row) = none).map fun row => (key row, none)

variable {key} {old new : List ρ}

omit [DecidableEq ρ] in
theorem lookup_eq_some {rows : List ρ} (h : (rows.map key).Nodup) {row : ρ} (hrow : row ∈ rows) :
    lookup key rows (key row) = some row := by
  induction rows with
  | nil => cases hrow
  | cons first rest ih =>
    rw [List.map_cons, List.nodup_cons] at h
    unfold lookup at ih ⊢
    rcases List.mem_cons.mp hrow with rfl | hrow
    · exact List.find?_cons_of_pos (by simp)
    · have hne : key first ≠ key row := fun heq => h.1 (heq ▸ List.mem_map_of_mem hrow)
      rw [List.find?_cons_of_neg (by simpa using hne)]
      exact ih h.2 hrow

omit [DecidableEq ρ] in
theorem key_of_lookup {rows : List ρ} {k : κ} {row : ρ} (h : lookup key rows k = some row) :
    key row = k := by
  simpa using List.find?_some h

/-- The changes bring the view of the old table to the new one. -/
theorem apply_diff (hnew : (new.map key).Nodup) :
    apply (lookup key old) (diff key old new) = lookup key new := by
  funext k
  refine apply_eq (fun change hchange hk => ?_) fun hnot => ?_
  · rcases List.mem_append.mp hchange with hmem | hmem
    · obtain ⟨row, hrow, rfl⟩ := List.mem_map.mp hmem
      subst hk
      exact (lookup_eq_some hnew (List.mem_filter.mp hrow).1).symm
    · obtain ⟨row, hrow, rfl⟩ := List.mem_map.mp hmem
      subst hk
      exact (of_decide_eq_true (List.mem_filter.mp hrow).2).symm
  · cases hlookup : lookup key new k with
    | some row =>
      have hkey := key_of_lookup hlookup
      have hmem : row ∈ new := List.mem_of_find?_eq_some hlookup
      by_contra hne
      refine hnot (List.mem_map.mpr ⟨(key row, some row), List.mem_append_left _ ?_, hkey⟩)
      refine List.mem_map_of_mem (List.mem_filter.mpr ⟨hmem, decide_eq_true ?_⟩)
      rwa [hkey]
    | none =>
      cases hold : lookup key old k with
      | none => rfl
      | some row =>
        have hkey := key_of_lookup hold
        have hmem : row ∈ old := List.mem_of_find?_eq_some hold
        refine absurd (List.mem_map.mpr ⟨(key row, none), List.mem_append_right _ ?_, hkey⟩) hnot
        refine List.mem_map_of_mem (List.mem_filter.mpr ⟨hmem, decide_eq_true ?_⟩)
        rw [hkey]
        exact hlookup

end Diff

/-! ## Watching stamps -/

/-- How the rows of a table are watched; a row without a version is passed over. -/
structure Watch (ρ κ ν : Type) where
  key : ρ → κ
  stamp : ρ → ℤ
  version : ρ → Option ν
  /-- How far the window reaches back. -/
  reach : ℤ
  /-- The rows that one scan reads at most. -/
  limit : ℕ

/-- The newest stamp that was told, and what was told inside the window. -/
structure Recent (κ ν : Type) where
  since : ℤ
  seen : κ → Option (ℤ × ν)

def Recent.startingAt (since : ℤ) : Recent κ ν := ⟨since, fun _ => none⟩

section Recent

variable [DecidableEq ν]

/-- Note a row; whether it is new or changed since it was last told. -/
def Recent.observe (recent : Recent κ ν) (k : κ) (stamp : ℤ) (version : ν) : Recent κ ν × Bool :=
  if recent.seen k = some (stamp, version) then (recent, false)
  else (⟨max recent.since stamp, Function.update recent.seen k (some (stamp, version))⟩, true)

/-- Forget what is older than the window. -/
def Recent.prune (recent : Recent κ ν) (reach : ℤ) : Recent κ ν :=
  { recent with
    seen := fun k => (recent.seen k).filter fun entry => recent.since - reach ≤ entry.1 }

namespace Watch

variable (w : Watch ρ κ ν)

/-- The rows of the window, the oldest first. -/
def window (since : ℤ) (rows : List ρ) : List ρ :=
  ((rows.filter fun row => since - w.reach ≤ w.stamp row).insertionSort fun a b =>
    w.stamp a ≤ w.stamp b).take w.limit

/-- Note the rows one after the other; those that changed. -/
def report (recent : Recent κ ν) : List ρ → Recent κ ν × List ρ
  | [] => (recent, [])
  | row :: rows =>
    match w.version row with
    | none => report recent rows
    | some version =>
      match recent.observe (w.key row) (w.stamp row) version with
      | (recent, false) => report recent rows
      | (recent, true) => ((report recent rows).1, row :: (report recent rows).2)

/-- One scan: the rows that changed, and whether there are as many as a scan reads. -/
def scan (recent : Recent κ ν) (rows : List ρ) : Recent κ ν × List ρ × Bool :=
  let found := w.window recent.since rows
  let reported := w.report recent found
  (reported.1.prune w.reach, reported.2, w.limit ≤ found.length)

/-- What is remembered of a row. -/
def entry (row : ρ) : Option (ℤ × ν) := (w.version row).map fun version => (w.stamp row, version)

/-- The row has not been told as it is. -/
def isNews (recent : Recent κ ν) (row : ρ) : Bool :=
  (w.entry row).isSome && recent.seen (w.key row) ≠ w.entry row

/-- The reader holds the row as it is. -/
def Shows (view : κ → Option ρ) (row : ρ) : Prop := (view (w.key row)).bind w.entry = w.entry row

/-- The changes of a scan. -/
def changes (rows : List ρ) : List (κ × Option ρ) := rows.map fun row => (w.key row, some row)

end Watch

end Recent

section Report

variable [DecidableEq ν] {w : Watch ρ κ ν} {recent : Recent κ ν} {row : ρ} {rows : List ρ}

theorem report_cons_of_news (h : w.isNews recent row = true) :
    w.report recent (row :: rows) =
      ((w.report ⟨max recent.since (w.stamp row),
          Function.update recent.seen (w.key row) (w.entry row)⟩ rows).1,
        row :: (w.report ⟨max recent.since (w.stamp row),
          Function.update recent.seen (w.key row) (w.entry row)⟩ rows).2) := by
  unfold Watch.isNews at h
  rw [Watch.report]
  cases hversion : w.version row with
  | none =>
    rw [Watch.entry, hversion] at h
    cases h
  | some version =>
    have hentry : w.entry row = some (w.stamp row, version) := by
      rw [Watch.entry, hversion]
      rfl
    rw [hentry] at h ⊢
    have hne : recent.seen (w.key row) ≠ some (w.stamp row, version) := by simpa using h
    dsimp only [Recent.observe]
    rw [if_neg hne]

theorem report_cons_of_not (h : w.isNews recent row = false) :
    w.report recent (row :: rows) = w.report recent rows := by
  unfold Watch.isNews Watch.entry at h
  rw [Watch.report]
  cases hversion : w.version row with
  | none => rfl
  | some version =>
    rw [hversion] at h
    have heq : recent.seen (w.key row) = some (w.stamp row, version) := by simpa using h
    dsimp only [Recent.observe]
    rw [if_pos heq]

variable (recent) in
/-- What a scan tells of rows with different keys, and remembers. -/
theorem report_spec (hnodup : (rows.map w.key).Nodup) :
    (w.report recent rows).2 = rows.filter (w.isNews recent) ∧
      (∀ row ∈ rows, (w.entry row).isSome →
        (w.report recent rows).1.seen (w.key row) = w.entry row) ∧
      ∀ k, k ∉ (rows.filter (w.isNews recent)).map w.key →
        (w.report recent rows).1.seen k = recent.seen k := by
  induction rows generalizing recent with
  | nil => exact ⟨rfl, nofun, fun _ _ => rfl⟩
  | cons row rows ih =>
    rw [List.map_cons, List.nodup_cons] at hnodup
    by_cases hnews : w.isNews recent row = true
    · -- The other rows have other keys, so the row makes no difference to them.
      have hsame : ∀ other ∈ rows, w.isNews ⟨max recent.since (w.stamp row),
          Function.update recent.seen (w.key row) (w.entry row)⟩ other =
            w.isNews recent other := by
        intro other hother
        have hne : w.key other ≠ w.key row := fun heq =>
          hnodup.1 (heq ▸ List.mem_map_of_mem hother)
        simp only [Watch.isNews, Function.update_of_ne hne]
      have ih' := ih ⟨max recent.since (w.stamp row),
        Function.update recent.seen (w.key row) (w.entry row)⟩ hnodup.2
      rw [List.filter_congr hsame] at ih'
      rw [report_cons_of_news hnews, List.filter_cons_of_pos hnews]
      refine ⟨congrArg _ ih'.1, List.forall_mem_cons.mpr ⟨fun _ => ?_, ih'.2.1⟩, fun k hk => ?_⟩
      · refine (ih'.2.2 _ fun hmem => hnodup.1 ?_).trans (Function.update_self _ _ _)
        obtain ⟨other, hother, heq⟩ := List.mem_map.mp hmem
        exact heq ▸ List.mem_map_of_mem (List.mem_filter.mp hother).1
      · rw [List.map_cons, List.mem_cons, not_or] at hk
        exact (ih'.2.2 k hk.2).trans (Function.update_of_ne hk.1 _ _)
    · have hnews := Bool.eq_false_iff.mpr hnews
      obtain ⟨hchanged, hseen, hrest⟩ := ih recent hnodup.2
      rw [report_cons_of_not hnews, List.filter_cons_of_neg (Bool.eq_false_iff.mp hnews)]
      refine ⟨hchanged, List.forall_mem_cons.mpr ⟨fun hsome => ?_, hseen⟩, hrest⟩
      refine (hrest _ fun hmem => hnodup.1 ?_).trans ?_
      · obtain ⟨other, hother, heq⟩ := List.mem_map.mp hmem
        exact heq ▸ List.mem_map_of_mem (List.mem_filter.mp hother).1
      · unfold Watch.isNews at hnews
        rw [hsome, Bool.true_and] at hnews
        exact of_not_not (of_decide_eq_false hnews)

theorem since_report_le (recent : Recent κ ν) (rows : List ρ) {bound : ℤ}
    (hsince : recent.since ≤ bound) (hrows : ∀ row ∈ rows, w.stamp row ≤ bound) :
    (w.report recent rows).1.since ≤ bound := by
  induction rows generalizing recent with
  | nil => exact hsince
  | cons row rows ih =>
    obtain ⟨hrow, hrows⟩ := List.forall_mem_cons.mp hrows
    by_cases hnews : w.isNews recent row = true
    · rw [report_cons_of_news hnews]
      exact ih _ (max_le hsince hrow) hrows
    · rw [report_cons_of_not (Bool.eq_false_iff.mpr hnews)]
      exact ih recent hsince hrows

end Report

/-! ## The reader of a watched table -/

section Current

variable [DecidableEq ν] {w : Watch ρ κ ν} {recent : Recent κ ν} {view : κ → Option ρ}
  {rows : List ρ}

/-- What was told is what the reader holds, and a row that it does not hold as it is lies in the
window. -/
structure Current (w : Watch ρ κ ν) (recent : Recent κ ν) (view : κ → Option ρ) (rows : List ρ) :
    Prop where
  seen : ∀ k e, recent.seen k = some e → (view k).bind w.entry = some e
  settled : ∀ row ∈ rows, (w.entry row).isSome →
    recent.since - w.reach ≤ w.stamp row ∨ w.Shows view row

/-- What the reader holds of the window is remembered as told. -/
def Exact (w : Watch ρ κ ν) (recent : Recent κ ν) (view : κ → Option ρ) : Prop :=
  ∀ k e, recent.seen k = none → (view k).bind w.entry = some e → e.1 < recent.since - w.reach

omit [DecidableEq κ] [DecidableEq ν] in
theorem window_sublist (w : Watch ρ κ ν) (since : ℤ) (rows : List ρ) : ∃ sorted,
    (w.window since rows).Sublist sorted ∧
      sorted.Perm (rows.filter fun row => since - w.reach ≤ w.stamp row) :=
  ⟨_, List.take_sublist _ _, List.perm_insertionSort _ _⟩

omit [DecidableEq κ] [DecidableEq ν] in
theorem nodup_window (h : (rows.map w.key).Nodup) (since : ℤ) :
    ((w.window since rows).map w.key).Nodup := by
  obtain ⟨sorted, hsub, hperm⟩ := window_sublist w since rows
  refine (hsub.map w.key).nodup ((hperm.map w.key).nodup_iff.mpr ?_)
  exact (List.filter_sublist.map w.key).nodup h

omit [DecidableEq κ] [DecidableEq ν] in
theorem mem_of_mem_window {since : ℤ} {row : ρ} (h : row ∈ w.window since rows) :
    row ∈ rows ∧ since - w.reach ≤ w.stamp row := by
  obtain ⟨sorted, hsub, hperm⟩ := window_sublist w since rows
  have hmem := List.mem_filter.mp (hperm.mem_iff.mp (hsub.mem h))
  exact ⟨hmem.1, of_decide_eq_true hmem.2⟩

omit [DecidableEq κ] [DecidableEq ν] in
/-- A scan that is not full reads the whole window. -/
theorem mem_window {since : ℤ} {row : ρ} (hfew : ¬ w.limit ≤ (w.window since rows).length) :
    row ∈ w.window since rows ↔ row ∈ rows ∧ since - w.reach ≤ w.stamp row := by
  refine ⟨mem_of_mem_window, fun h => ?_⟩
  unfold Watch.window at hfew ⊢
  rw [List.length_take, Nat.le_min, not_and] at hfew
  rw [List.take_of_length_le (not_le.mp (hfew le_rfl)).le]
  exact (List.mem_insertionSort _).mpr (List.mem_filter.mpr ⟨h.1, decide_eq_true h.2⟩)

omit [DecidableEq κ] [DecidableEq ν] in
theorem seen_prune {reach : ℤ} {k : κ} {e : ℤ × ν} :
    (recent.prune reach).seen k = some e ↔
      recent.seen k = some e ∧ recent.since - reach ≤ e.1 := by
  unfold Recent.prune
  rw [Option.filter_eq_some_iff, decide_eq_true_eq]

omit [DecidableEq κ] [DecidableEq ν] in
theorem shows_of_view {row : ρ} (h : view (w.key row) = some row) : w.Shows view row := by
  unfold Watch.Shows
  rw [h]
  rfl

omit [DecidableEq ν] in
theorem apply_changes_of_mem (h : (rows.map w.key).Nodup) {row : ρ} (hrow : row ∈ rows) :
    apply view (w.changes rows) (w.key row) = some row := by
  have hagree : apply view (w.changes rows) (w.key row) = lookup w.key rows (w.key row) := by
    refine apply_eq (fun change hchange hkey => ?_) fun hnot => ?_
    · obtain ⟨other, hother, rfl⟩ := List.mem_map.mp hchange
      rw [← hkey]
      exact (lookup_eq_some h hother).symm
    · refine absurd (List.mem_map.mpr ⟨(w.key row, some row), ?_, rfl⟩) hnot
      exact List.mem_map_of_mem hrow
  exact hagree.trans (lookup_eq_some h hrow)

omit [DecidableEq ν] in
theorem apply_changes_of_notMem {k : κ} (h : k ∉ rows.map w.key) :
    apply view (w.changes rows) k = view k := by
  refine apply_of_notMem fun hmem => h ?_
  obtain ⟨change, hchange, rfl⟩ := List.mem_map.mp hmem
  obtain ⟨row, hrow, rfl⟩ := List.mem_map.mp hchange
  exact List.mem_map_of_mem hrow

/-- What a reader holds after the changes of a scan. -/
theorem apply_report (hcurrent : Current w recent view rows) (hnodup : (rows.map w.key).Nodup) :
    let found := w.window recent.since rows
    let after := apply view (w.changes (w.report recent found).2)
    (∀ row ∈ found, (w.entry row).isSome → w.Shows after row) ∧
      ∀ k, k ∉ ((found.filter (w.isNews recent)).map w.key) → after k = view k := by
  intro found after
  have hfound : (found.map w.key).Nodup := nodup_window hnodup recent.since
  have hreported := (report_spec recent hfound).1
  have hchanged : ((found.filter (w.isNews recent)).map w.key).Nodup :=
    (List.filter_sublist.map w.key).nodup hfound
  have hafter : after = apply view (w.changes (found.filter (w.isNews recent))) :=
    congrArg (fun changed => apply view (w.changes changed)) hreported
  refine ⟨fun row hrow hsome => ?_, fun k hk => ?_⟩
  · rw [hafter]
    by_cases hnews : w.isNews recent row = true
    · exact shows_of_view (apply_changes_of_mem hchanged (List.mem_filter.mpr ⟨hrow, hnews⟩))
    · -- A row that is no news was told as it is, and no other row has its key.
      have htold : recent.seen (w.key row) = w.entry row := by
        unfold Watch.isNews at hnews
        rw [hsome, Bool.true_and, decide_eq_true_eq] at hnews
        exact of_not_not hnews
      have hnot : w.key row ∉ (found.filter (w.isNews recent)).map w.key := by
        intro hmem
        obtain ⟨other, hother, hkey⟩ := List.mem_map.mp hmem
        obtain rfl := List.inj_on_of_nodup_map hfound (List.mem_filter.mp hother).1 hrow hkey
        exact hnews (List.mem_filter.mp hother).2
      unfold Watch.Shows
      rw [apply_changes_of_notMem hnot]
      obtain ⟨e, he⟩ := Option.isSome_iff_exists.mp hsome
      rw [he]
      exact hcurrent.seen _ e (htold.trans he)
  · rw [hafter]
    exact apply_changes_of_notMem hk

/-- After a scan that is not full the reader holds every row as it is. -/
theorem shows_scan (hcurrent : Current w recent view rows) (hnodup : (rows.map w.key).Nodup)
    (hfew : (w.scan recent rows).2.2 = false) {row : ρ} (hrow : row ∈ rows)
    (hsome : (w.entry row).isSome) :
    w.Shows (apply view (w.changes (w.scan recent rows).2.1)) row := by
  have hfew : ¬ w.limit ≤ (w.window recent.since rows).length := of_decide_eq_false hfew
  obtain ⟨hshows, hrest⟩ := apply_report hcurrent hnodup
  by_cases hfound : row ∈ w.window recent.since rows
  · exact hshows row hfound hsome
  · have hheld := (hcurrent.settled row hrow hsome).resolve_left fun hstamp =>
      hfound ((mem_window hfew).mpr ⟨hrow, hstamp⟩)
    unfold Watch.Shows
    rw [show apply view (w.changes (w.scan recent rows).2.1) (w.key row) = view (w.key row) from
      hrest _ fun hmem => ?_]
    · exact hheld
    · obtain ⟨other, hother, hkey⟩ := List.mem_map.mp hmem
      have hother := (List.mem_filter.mp hother).1
      obtain rfl := List.inj_on_of_nodup_map hnodup (mem_of_mem_window hother).1 hrow hkey
      exact hfound hother

theorem Current.scan (hcurrent : Current w recent view rows) (hnodup : (rows.map w.key).Nodup)
    (hfew : (w.scan recent rows).2.2 = false) :
    Current w (w.scan recent rows).1 (apply view (w.changes (w.scan recent rows).2.1)) rows where
  seen k e he := by
    have hfound := nodup_window hnodup recent.since
    obtain ⟨hshows, hrest⟩ := apply_report hcurrent hnodup
    obtain ⟨_, hseen, hold⟩ := report_spec recent hfound
    have he := (seen_prune.mp he).1
    by_cases hmem : k ∈ ((w.window recent.since rows).filter (w.isNews recent)).map w.key
    · obtain ⟨row, hrow, rfl⟩ := List.mem_map.mp hmem
      obtain ⟨hrow, hnews⟩ := List.mem_filter.mp hrow
      have hsome : (w.entry row).isSome := (Bool.and_eq_true _ _ ▸ hnews :).1
      exact (hshows row hrow hsome).trans ((hseen row hrow hsome).symm.trans he)
    · rw [show apply view (w.changes (w.scan recent rows).2.1) k = view k from hrest k hmem]
      exact hcurrent.seen k e ((hold k hmem).symm.trans he)
  settled _ hrow hsome := Or.inr (shows_scan hcurrent hnodup hfew hrow hsome)

/-- A scan tells the rows that the reader does not hold as they are, and no others. -/
theorem mem_scan (hcurrent : Current w recent view rows) (hexact : Exact w recent view)
    (hnodup : (rows.map w.key).Nodup) (hfew : (w.scan recent rows).2.2 = false) {row : ρ} :
    row ∈ (w.scan recent rows).2.1 ↔
      row ∈ rows ∧ (w.entry row).isSome ∧ ¬ w.Shows view row := by
  have hfew : ¬ w.limit ≤ (w.window recent.since rows).length := of_decide_eq_false hfew
  have hreported := (report_spec recent (nodup_window hnodup recent.since)).1
  rw [show (w.scan recent rows).2.1 = _ from hreported, List.mem_filter, mem_window hfew]
  constructor
  · rintro ⟨⟨hrow, hstamp⟩, hnews⟩
    obtain ⟨hsome, hne⟩ := (Bool.and_eq_true _ _ ▸ hnews :)
    refine ⟨hrow, hsome, fun hshows => ?_⟩
    obtain ⟨e, he⟩ := Option.isSome_iff_exists.mp hsome
    have hheld : (view (w.key row)).bind w.entry = some e := Eq.trans hshows he
    cases hseen : recent.seen (w.key row) with
    | none =>
      have hold := hexact _ e hseen hheld
      obtain ⟨version, _, rfl⟩ := Option.map_eq_some_iff.mp he
      exact absurd hstamp (not_le.mpr hold)
    | some told =>
      have htold := Option.some.inj ((hcurrent.seen _ told hseen).symm.trans hheld)
      refine of_decide_eq_true hne ?_
      rw [hseen, he, htold]
  · rintro ⟨hrow, hsome, hnot⟩
    refine ⟨⟨hrow, (hcurrent.settled row hrow hsome).resolve_right hnot⟩, ?_⟩
    refine Bool.and_eq_true _ _ ▸ ⟨hsome, decide_eq_true fun htold => hnot ?_⟩
    obtain ⟨e, he⟩ := Option.isSome_iff_exists.mp hsome
    exact (hcurrent.seen _ e (htold.trans he)).trans he.symm

/-- What a scan told and forgot again is older than its window. -/
theorem lt_of_scan {k : κ} {e : ℤ × ν} (hnone : (w.scan recent rows).1.seen k = none)
    (htold : (w.report recent (w.window recent.since rows)).1.seen k = some e) :
    e.1 < (w.scan recent rows).1.since - w.reach := by
  by_contra hle
  cases (seen_prune.mpr ⟨htold, not_lt.mp hle⟩).symm.trans hnone

theorem since_le_scan (w : Watch ρ κ ν) (recent : Recent κ ν) (rows : List ρ) :
    recent.since ≤ (w.scan recent rows).1.since := by
  have hmono : ∀ (rows : List ρ) (recent : Recent κ ν),
      recent.since ≤ (w.report recent rows).1.since := by
    intro rows
    induction rows with
    | nil => exact fun _ => le_rfl
    | cons row rows ih =>
      intro recent
      by_cases hnews : w.isNews recent row = true
      · rw [report_cons_of_news hnews]
        exact (le_max_left _ _).trans (ih _)
      · rw [report_cons_of_not (Bool.eq_false_iff.mpr hnews)]
        exact ih recent
  exact hmono _ recent

theorem scan_since_le (recent : Recent κ ν) {bound : ℤ} (hsince : recent.since ≤ bound)
    (hrows : ∀ row ∈ rows, w.stamp row ≤ bound) : (w.scan recent rows).1.since ≤ bound :=
  since_report_le recent _ hsince fun row hrow => hrows row (mem_of_mem_window hrow).1

theorem Exact.scan (hexact : Exact w recent view) (hcurrent : Current w recent view rows)
    (hnodup : (rows.map w.key).Nodup) :
    Exact w (w.scan recent rows).1 (apply view (w.changes (w.scan recent rows).2.1)) := by
  intro k e hnone hheld
  have hfound := nodup_window hnodup recent.since
  obtain ⟨hshows, hrest⟩ := apply_report hcurrent hnodup
  obtain ⟨_, hseen, hold⟩ := report_spec recent hfound
  by_cases hmem : k ∈ ((w.window recent.since rows).filter (w.isNews recent)).map w.key
  · obtain ⟨row, hrow, rfl⟩ := List.mem_map.mp hmem
    obtain ⟨hrow, hnews⟩ := List.mem_filter.mp hrow
    have hsome : (w.entry row).isSome := (Bool.and_eq_true _ _ ▸ hnews :).1
    refine lt_of_scan hnone ((hseen row hrow hsome).trans ?_)
    exact (hshows row hrow hsome).symm.trans hheld
  · rw [show apply view (w.changes (w.scan recent rows).2.1) k = view k from hrest k hmem] at hheld
    cases htold : recent.seen k with
    | none =>
      have hsince := since_le_scan w recent rows
      have hlt := hexact k e htold hheld
      omega
    | some told =>
      obtain rfl := Option.some.inj ((hcurrent.seen k told htold).symm.trans hheld)
      exact lt_of_scan hnone ((hold k hmem).trans htold)

/-- A reader that takes the whole table while the feed takes its first scan. -/
theorem current_baseline (hnodup : (rows.map w.key).Nodup) (now : ℤ) :
    Current w (w.scan (.startingAt now) rows).1 (lookup w.key rows) rows where
  seen k e he := by
    have hfound := nodup_window (w := w) hnodup (Recent.startingAt (κ := κ) (ν := ν) now).since
    obtain ⟨_, hseen, hold⟩ := report_spec (.startingAt now) hfound
    have he := (seen_prune.mp he).1
    by_cases hmem : k ∈ ((w.window now rows).filter (w.isNews (.startingAt now))).map w.key
    · obtain ⟨row, hrow, rfl⟩ := List.mem_map.mp hmem
      obtain ⟨hrow, hnews⟩ := List.mem_filter.mp hrow
      have hsome : (w.entry row).isSome := (Bool.and_eq_true _ _ ▸ hnews :).1
      rw [lookup_eq_some hnodup (mem_of_mem_window hrow).1]
      exact (hseen row hrow hsome).symm.trans he
    · cases (hold k hmem).symm.trans he
  settled row hrow _ := Or.inr (shows_of_view (lookup_eq_some hnodup hrow))

theorem exact_baseline (hnodup : (rows.map w.key).Nodup) {now : ℤ}
    (hfew : (w.scan (.startingAt now) rows).2.2 = false) :
    Exact w (w.scan (.startingAt now) rows).1 (lookup w.key rows) := by
  intro k e hnone hheld
  have hfew : ¬ w.limit ≤ (w.window now rows).length := of_decide_eq_false hfew
  obtain ⟨row, hrow, hentry⟩ := Option.bind_eq_some_iff.mp hheld
  obtain rfl := key_of_lookup hrow
  have hmem : row ∈ rows := List.mem_of_find?_eq_some hrow
  by_cases hfound : row ∈ w.window now rows
  · obtain ⟨_, hseen, _⟩ := report_spec (.startingAt now)
      (nodup_window (w := w) hnodup now)
    exact lt_of_scan hnone ((hseen row hfound (by rw [hentry]; rfl)).trans hentry)
  · have hsince : now ≤ _ := since_le_scan w (.startingAt now) rows
    have hold : ¬ now - w.reach ≤ w.stamp row := fun hstamp =>
      hfound ((mem_window hfew).mpr ⟨hmem, hstamp⟩)
    obtain ⟨version, _, rfl⟩ := Option.map_eq_some_iff.mp hentry
    show w.stamp row < _
    omega

omit [DecidableEq κ] [DecidableEq ν] in
/-- Rows that are gone, and rows that are written inside the window. -/
theorem Current.of_writes (hcurrent : Current w recent view rows) {rows' : List ρ}
    (h : ∀ row ∈ rows', row ∈ rows ∨ recent.since - w.reach ≤ w.stamp row) :
    Current w recent view rows' where
  seen := hcurrent.seen
  settled row hrow hsome := (h row hrow).elim (fun hrow => hcurrent.settled row hrow hsome) Or.inl

end Current

end ChangeFeed
