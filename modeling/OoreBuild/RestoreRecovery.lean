import OoreBuild.BackupRestore

/-!
# A restore is all or nothing

Wherever a restore and the recoveries after it fail or die, a recovery that ends leaves either all
files as they were or all of the archive's (`restore_all_or_nothing`). Until the journal says that
the restore is committed each file is where it was, or its previous content is in its `.old` file;
from then on the restored files stay in place.
-/

namespace OoreBuild

namespace Restore

open Crash

/-! ## What must hold -/

/-- The files before a restore and those of the archive. -/
structure Setup where
  current : Live → Option Content
  /-- The install has a managed runner config. -/
  managed : Bool
  database : Content
  key : Content
  /-- The runner config of the archive, if it has one. -/
  runner : Option Content

def Setup.archive (c : Setup) : Live → Option Content
  | .database => some c.database
  | .key => some c.key
  | .wal | .shm => none
  | .runner => c.runner

/-- The disk when the restore starts. -/
def Setup.start (c : Setup) : Disk where
  files
    | .live f => c.current f
    | .staged f => c.archive f
    | .manifest => some []
    | .old _ | .new _ => none
  journal := none

/-- The restore replaces this file. -/
def Setup.replaces (c : Setup) : Live → Bool
  | .runner => c.managed
  | _ => true

/-- All files are as they were. -/
def Setup.Before (c : Setup) (s : Disk) : Prop := ∀ f, s.files (.live f) = c.current f

/-- The files are those of the archive. -/
def Setup.After (c : Setup) (s : Disk) : Prop :=
  ∀ f, s.files (.live f) = if c.replaces f then c.archive f else c.current f

/-! ## The invariant -/

def Setup.journal (c : Setup) (phase : Phase) : Journal where
  phase
  managedConfig := c.managed
  archiveHasConfig := c.managed && c.runner.isSome
  hadCurrent f := c.replaces f && (c.current f).isSome

/-- The file was not touched, or is back in its place. -/
def Setup.Unmoved (c : Setup) (f : Live) (s : Disk) : Prop :=
  s.files (.live f) = c.current f ∧ s.files (.old f) = none

/-- The restore is not committed, and the previous files are all there. -/
structure Setup.Restorable (c : Setup) (s : Disk) : Prop where
  journal : s.journal = some (c.journal .prepared)
  files : ∀ f, c.Unmoved f s ∨ c.replaces f = true ∧ s.files (.old f) = c.current f

structure Setup.Committed (c : Setup) (s : Disk) : Prop where
  journal : s.journal = some (c.journal .committed)
  after : c.After s

/-- No restore is under way. -/
def Setup.Ended (c : Setup) (s : Disk) : Prop := s.journal = none ∧ (c.Before s ∨ c.After s)

/-- What holds wherever a restore or a recovery ends early. -/
def Setup.Safe (c : Setup) (s : Disk) : Prop := c.Restorable s ∨ c.Committed s ∨ c.Ended s

variable {c : Setup} {s s' : Disk}

theorem Setup.Restorable.safe (h : c.Restorable s) : c.Safe s := .inl h

theorem Setup.Committed.safe (h : c.Committed s) : c.Safe s := .inr (.inl h)

theorem Setup.Ended.safe (h : c.Ended s) : c.Safe s := .inr (.inr h)

theorem Setup.start_ended (c : Setup) : c.Ended c.start := ⟨rfl, .inl fun _ => rfl⟩

/-! ## Files -/

theorem files_put (s : Disk) (file : File) (content : Option Content) (other : File) :
    (s.put file content).files other = if other = file then content else s.files other :=
  Function.update_apply ..

theorem files_put_of_ne {file other : File} (s : Disk) (content : Option Content)
    (h : other ≠ file) : (s.put file content).files other = s.files other := by
  rw [files_put, if_neg h]

theorem files_put_self (s : Disk) (file : File) (content : Option Content) :
    (s.put file content).files file = content := by
  rw [files_put, if_pos rfl]

theorem files_put_live_old (s : Disk) (f g : Live) (content : Option Content) :
    (s.put (.live f) content).files (.old g) = s.files (.old g) := files_put_of_ne _ _ nofun

theorem rename_eq_some {source target : File} (h : s.rename source target = some s') :
    ∃ content, s.files source = some content ∧ s'.journal = s.journal ∧
      s'.files target = some content ∧ (source ≠ target → s'.files source = none) ∧
      ∀ other, other ≠ source → other ≠ target → s'.files other = s.files other := by
  obtain ⟨content, hcontent, rfl⟩ := Option.map_eq_some_iff.mp h
  refine ⟨content, hcontent, rfl, files_put_self .., ?_, ?_⟩
  · intro hne
    rw [files_put_of_ne _ _ hne, files_put_self]
  · intro other hsource htarget
    rw [files_put_of_ne _ _ htarget, files_put_of_ne _ _ hsource]

/-- The live files and those put aside are the same, apart from one of them. -/
def SameBut (f : Live) (s s' : Disk) : Prop :=
  ∀ g, g ≠ f → s'.files (.live g) = s.files (.live g) ∧ s'.files (.old g) = s.files (.old g)

theorem sameBut_put_live (s : Disk) (f : Live) (content : Option Content) :
    SameBut f s (s.put (.live f) content) := by
  intro g hne
  exact ⟨files_put_of_ne _ _ fun h => hne (File.live.inj h), files_put_live_old ..⟩

theorem Setup.Unmoved.sameBut {f g : Live} (h : c.Unmoved g s) (hsame : SameBut f s s')
    (hne : g ≠ f) : c.Unmoved g s' :=
  ⟨(hsame g hne).1.trans h.1, (hsame g hne).2.trans h.2⟩

theorem Setup.Restorable.sameBut {f : Live} (h : c.Restorable s)
    (hjournal : s'.journal = s.journal) (hsame : SameBut f s s')
    (hf : c.Unmoved f s' ∨ c.replaces f = true ∧ s'.files (.old f) = c.current f) :
    c.Restorable s' where
  journal := hjournal.trans h.journal
  files g := by
    by_cases hg : g = f
    · exact hg ▸ hf
    · exact (h.files g).imp (·.sameBut hsame hg) (And.imp_right ((hsame g hg).2.trans ·))

/-- A file beside the live ones and those put aside. -/
def Beside (file : File) : Prop := ∀ f, file ≠ .live f ∧ file ≠ .old f

theorem Setup.Unmoved.put {file : File} {f : Live} (h : c.Unmoved f s) (hfile : Beside file)
    (content : Option Content) : c.Unmoved f (s.put file content) :=
  ⟨(files_put_of_ne _ _ (hfile f).1.symm).trans h.1,
    (files_put_of_ne _ _ (hfile f).2.symm).trans h.2⟩

theorem Setup.Restorable.put {file : File} (h : c.Restorable s) (hfile : Beside file)
    (content : Option Content) : c.Restorable (s.put file content) where
  journal := h.journal
  files f := (h.files f).imp (·.put hfile content)
    (And.imp_right ((files_put_of_ne _ _ (hfile f).2.symm).trans ·))

theorem Setup.After.put {file : File} (h : c.After s) (hfile : ∀ f, file ≠ .live f)
    (content : Option Content) : c.After (s.put file content) := fun f =>
  (files_put_of_ne _ _ (hfile f).symm).trans (h f)

/-! ## Undoing a restore -/

/-- Undoing the restore, with some files back in their places. -/
structure Setup.Back (c : Setup) (fs : List Live) (s : Disk) : Prop where
  restorable : c.Restorable s
  back : ∀ f ∈ fs, c.Unmoved f s

theorem Setup.Back.safe {fs : List Live} (h : c.Back fs s) : c.Safe s := h.restorable.safe

theorem Setup.Back.sameBut {fs : List Live} {f : Live} (h : c.Back fs s)
    (hjournal : s'.journal = s.journal) (hsame : SameBut f s s') (hf : c.Unmoved f s') :
    c.Back (fs ++ [f]) s' where
  restorable := h.restorable.sameBut hjournal hsame (.inl hf)
  back g hg := by
    by_cases heq : g = f
    · exact heq ▸ hf
    · exact (h.back g ((List.mem_append.mp hg).resolve_right
        (heq ∘ List.mem_singleton.mp))).sameBut hsame heq

theorem Setup.Back.restored {fs : List Live} {f : Live} (h : c.Back fs s) (hf : c.Unmoved f s) :
    c.Back (fs ++ [f]) s :=
  h.sameBut (f := f) rfl (fun _ _ => ⟨rfl, rfl⟩) hf

theorem restorePreviousPath_back (fs : List Live) {f : Live} (hf : c.replaces f = true) :
    Triple (c.Back fs) (restorePreviousPath (c.journal .prepared) f)
      (fun _ => c.Back (fs ++ [f])) c.Safe c.Safe := by
  have hsafe : ∀ s, c.Back fs s → c.Safe s := fun _ h => h.safe
  unfold restorePreviousPath
  refine .bind (.check hsafe hsafe) fun _ => ?_
  refine .bind (R := fun old s => c.Back fs s ∧ s.exists (.old f) = old)
    (.get fun s hs => ⟨hs, rfl⟩) fun old => ?_
  refine .bind (R := fun live s => c.Back fs s ∧ s.exists (.old f) = old ∧
    s.exists (.live f) = live) (.get fun s hs => ⟨hs.1, hs.2, rfl⟩) fun live => ?_
  -- the previous content is in the old file or in its place
  have haside : ∀ s, c.Back fs s → s.exists (.old f) = true → s.files (.old f) = c.current f := by
    intro s hs hold
    refine (hs.restorable.files f).elim (fun hunmoved => ?_) (·.2)
    rw [Disk.exists, hunmoved.2] at hold
    cases hold
  have hnotBack : ∀ s, c.Back fs s → s.exists (.old f) = true → f ∉ fs := by
    intro s hs hold hmem
    rw [Disk.exists, (hs.back f hmem).2] at hold
    cases hold
  cases old with
  | true =>
    rw [if_pos rfl]
    refine .bind (R := fun _ s => c.Back fs s ∧ s.exists (.old f) = true) ?_ fun _ => ?_
    · refine .when (Q := fun s => c.Back fs s ∧ s.exists (.old f) = true) (fun _ => ?_)
        fun _ s hs => ⟨hs.1, hs.2.1⟩
      refine .act (fun s hs => hs.1.safe) (fun s hs => hs.1.safe) fun s s' hs heq => ?_
      cases heq
      have hold := haside s hs.1 hs.2.1
      have hsame := sameBut_put_live s f none
      have hback : c.Back fs (s.put (.live f) none) :=
        { restorable := hs.1.restorable.sameBut rfl hsame
            (.inr ⟨hf, (files_put_live_old ..).trans hold⟩)
          back := fun g hg => (hs.1.back g hg).sameBut hsame fun heq =>
            hnotBack s hs.1 hs.2.1 (heq ▸ hg) }
      refine ⟨⟨hback, ?_⟩, hback.safe⟩
      rw [Disk.exists, files_put_live_old]
      exact hs.2.1
    · refine .act (fun s hs => hs.1.safe) (fun s hs => hs.1.safe) fun s s' hs heq => ?_
      obtain ⟨content, hcontent, hjournal, hlive, hold, hothers⟩ := rename_eq_some heq
      have hback : c.Back (fs ++ [f]) s' := by
        refine hs.1.sameBut hjournal (fun g hne => ?_) ⟨?_, hold nofun⟩
        · exact ⟨hothers _ nofun fun h => hne (File.live.inj h),
            hothers _ (fun h => hne (File.old.inj h)) nofun⟩
        · rw [hlive, ← hcontent]
          exact haside s hs.1 hs.2
      exact ⟨hback, hback.safe⟩
  | false =>
    have hnone : ∀ s : Disk, s.exists (.old f) = false → s.files (.old f) = none := fun s h =>
      Option.not_isSome_iff_eq_none.mp (Bool.eq_false_iff.mp h)
    rw [if_neg Bool.false_ne_true]
    by_cases hhad : (c.journal .prepared).hadCurrent f = true
    · -- the file was there before, so it has not moved
      rw [if_pos hhad]
      refine (Triple.ensure (fun s hs => hs.1.safe) fun s hs => hs.1.safe).post fun _ s hs =>
        hs.1.1.restored ?_
      refine (hs.1.1.restorable.files f).resolve_right fun hold => ?_
      have hsome : (c.current f).isSome = true := (Bool.and_eq_true_iff.mp hhad).2
      rw [← hold.2, hnone s hs.1.2.1] at hsome
      cases hsome
    · rw [if_neg hhad]
      have hcurrent : c.current f = none := by
        refine Option.not_isSome_iff_eq_none.mp fun hsome => hhad ?_
        exact Bool.and_eq_true_iff.mpr ⟨hf, hsome⟩
      refine .when (fun _ => ?_) fun hlive s hs => hs.1.restored ⟨?_, hnone s hs.2.1⟩
      · refine .act (fun s hs => hs.1.safe) (fun s hs => hs.1.safe) fun s s' hs heq => ?_
        cases heq
        have hback : c.Back (fs ++ [f]) (s.put (.live f) none) := by
          refine hs.1.sameBut rfl (sameBut_put_live s f none) ⟨?_, ?_⟩
          · rw [files_put_self, hcurrent]
          · rw [files_put_live_old]
            exact hnone s hs.2.1
        exact ⟨hback, hback.safe⟩
      · rw [hcurrent]
        refine Option.not_isSome_iff_eq_none.mp fun hsome => ?_
        rw [← hs.2.2, Disk.exists, hsome] at hlive
        cases hlive

theorem beside_new (f : Live) : Beside (.new f) := fun _ => ⟨nofun, nofun⟩

theorem beside_staged (f : Live) : Beside (.staged f) := fun _ => ⟨nofun, nofun⟩

theorem beside_manifest : Beside .manifest := fun _ => ⟨nofun, nofun⟩

/-- Removing files keeps what each of the removals keeps. -/
theorem each_removeIfPresent {P : Disk → Prop} {files : List File} (hsafe : ∀ s, P s → c.Safe s)
    (h : ∀ file ∈ files, ∀ s, P s → P (s.put file none)) :
    Triple P (each removeIfPresent files) (fun _ => P) c.Safe c.Safe := by
  refine .each_keep fun file hfile => .act hsafe hsafe fun s s' hs heq => ?_
  cases heq
  exact ⟨h file hfile s hs, hsafe _ (h file hfile s hs)⟩

theorem cleanupStage_keep {P : Disk → Prop} (hsafe : ∀ s, P s → c.Safe s)
    (h : ∀ file, Beside file → ∀ s, P s → P (s.put file none)) :
    Triple P cleanupStage (fun _ => P) c.Safe c.Safe := by
  unfold cleanupStage
  refine .bind (.check hsafe hsafe) fun _ => ?_
  refine .bind (each_removeIfPresent hsafe fun file hfile => h file ?_) fun _ => .check hsafe hsafe
  simp only [List.mem_cons, List.not_mem_nil, or_false] at hfile
  rcases hfile with rfl | rfl | rfl | rfl
  · exact beside_staged _
  · exact beside_staged _
  · exact beside_staged _
  · exact beside_manifest

theorem beside_newFiles {journal : Journal} {file : File} (h : file ∈ newFiles journal) :
    Beside file := by
  rcases List.mem_append.mp h with h | h
  · rcases List.mem_pair.mp h with rfl | rfl
    · exact beside_new _
    · exact beside_new _
  · split at h
    · rw [List.mem_singleton.mp h]
      exact beside_new _
    · cases h

theorem removeJournal_ends {P Q : Disk → Prop} (hsafe : ∀ s, P s → c.Safe s)
    (h : ∀ s, P s → Q { s with journal := none }) (hends : ∀ s, Q s → c.Ended s) :
    Triple P removeJournal (fun _ => Q) c.Safe c.Safe := by
  unfold removeJournal
  refine .bind (.act hsafe hsafe fun s s' hs heq => ?_) fun _ =>
    .check (fun s hs => (hends s hs).safe) fun s hs => (hends s hs).safe
  cases heq
  exact ⟨h s hs, (hends _ (h s hs)).safe⟩

theorem replaces_of_ne {f : Live} (h : f ≠ .runner) : c.replaces f = true := by
  cases f with
  | runner => exact absurd rfl h
  | database => rfl
  | key => rfl
  | wal => rfl
  | shm => rfl

/-- Undoing a restore that is not committed puts every file back. -/
theorem rollback_ends : Triple c.Restorable (rollback (c.journal .prepared))
    (fun _ => c.Ended) c.Safe c.Safe := by
  have hrestored : ∀ s, c.Restorable s ∧ c.Before s → c.Safe s := fun _ h => h.1.safe
  have hkeep : ∀ file, Beside file → ∀ s, c.Restorable s ∧ c.Before s →
      c.Restorable (s.put file none) ∧ c.Before (s.put file none) := fun file hfile s hs =>
    ⟨hs.1.put hfile none, fun f => (files_put_of_ne _ _ (hfile f).1.symm).trans (hs.2 f)⟩
  unfold rollback
  refine .bind (R := fun _ => c.Back [.database, .key, .wal, .shm]) ?_ fun _ => ?_
  · have heach : Triple (c.Back []) (each (restorePreviousPath (c.journal .prepared))
        [.database, .key, .wal, .shm]) (fun _ => c.Back ([] ++ [.database, .key, .wal, .shm]))
        c.Safe c.Safe := by
      refine Triple.each (fun fs => c.Back fs) (fun fs f hf => restorePreviousPath_back fs ?_) []
      refine replaces_of_ne fun heq => ?_
      rw [heq] at hf
      exact absurd hf (by decide)
    exact heach.pre fun s hs => ⟨hs, fun _ h => absurd h List.not_mem_nil⟩
  refine .bind (R := fun _ s => c.Restorable s ∧ c.Before s) ?_ fun _ => ?_
  · refine .when (fun hmanaged => ?_) fun hmanaged s hs => ⟨hs.restorable, fun f => ?_⟩
    · have hrunner : c.replaces .runner = true := hmanaged
      refine (restorePreviousPath_back _ hrunner).post fun _ s hs => ⟨hs.restorable, fun f => ?_⟩
      exact (hs.back f (by cases f <;> decide)).1
    · cases f with
      | runner =>
        refine ((hs.restorable.files .runner).resolve_right fun h => ?_).1
        exact Bool.noConfusion (hmanaged.symm.trans h.1)
      | database => exact (hs.back _ (by decide)).1
      | key => exact (hs.back _ (by decide)).1
      | wal => exact (hs.back _ (by decide)).1
      | shm => exact (hs.back _ (by decide)).1
  refine .bind (each_removeIfPresent hrestored fun file hfile => hkeep file (beside_newFiles hfile))
    fun _ => ?_
  refine .bind (cleanupStage_keep hrestored hkeep) fun _ => ?_
  refine .bind (.check hrestored hrestored) fun _ => ?_
  refine .bind (removeJournal_ends (Q := c.Ended) hrestored (fun s hs => ⟨rfl, .inl hs.2⟩)
    fun _ => id) fun _ => ?_
  exact .pure fun _ => id

/-! ## Finishing a restore -/

theorem Setup.Committed.put {file : File} (h : c.Committed s) (hfile : ∀ f, file ≠ .live f)
    (content : Option Content) : c.Committed (s.put file content) :=
  ⟨h.journal, h.after.put hfile content⟩

theorem not_live_of_finishedFiles {journal : Journal} {file : File}
    (h : file ∈ finishedFiles journal) (f : Live) : file ≠ .live f := by
  rintro rfl
  rcases List.mem_append.mp h with h | h
  · simp at h
  · split at h
    · simp at h
    · cases h

theorem writeJournal_keep {P Q : Disk → Prop} {journal : Journal} (hP : ∀ s, P s → c.Safe s)
    (h : ∀ s, P s → Q { s with journal := some journal }) (hQ : ∀ s, Q s → c.Safe s) :
    Triple P (writeJournal journal) (fun _ => Q) c.Safe c.Safe := by
  unfold writeJournal
  refine .bind (.check hP hP) fun _ => .bind (.act hP hP fun s s' hs heq => ?_) fun _ =>
    .check hQ hQ
  cases heq
  exact ⟨h s hs, hQ _ (h s hs)⟩

/-- Once the journal is committed, finishing leaves the archive's files. -/
theorem finish_ends : Triple c.Committed (finish (c.journal .committed))
    (fun _ s => s.journal = none ∧ c.After s) c.Safe c.Safe := by
  have hsafe : ∀ s, c.Committed s → c.Safe s := fun _ h => h.safe
  have hends : ∀ s : Disk, s.journal = none ∧ c.After s → c.Ended s := fun _ h => ⟨h.1, .inr h.2⟩
  unfold finish
  refine .bind ((Triple.ensure hsafe hsafe).post fun _ _ h => h.1) fun _ => ?_
  refine .bind (.check hsafe hsafe) fun _ => ?_
  refine .bind (R := fun _ => c.Committed) (.when (fun _ => ?_) fun _ _ => id) fun _ => ?_
  · exact (Triple.ensure hsafe hsafe).post fun _ _ h => h.1
  refine .bind (R := fun _ => c.Committed) (.when (fun _ => ?_) fun _ _ => id) fun _ => ?_
  · exact (Triple.ensure hsafe hsafe).post fun _ _ h => h.1
  refine .bind (.check hsafe hsafe) fun _ => ?_
  refine .bind (writeJournal_keep (Q := c.Committed) hsafe (fun s hs => ⟨rfl, hs.after⟩) hsafe)
    fun _ => ?_
  refine .bind (each_removeIfPresent hsafe fun file hfile s hs =>
    hs.put (not_live_of_finishedFiles hfile) none) fun _ => ?_
  refine .bind (cleanupStage_keep hsafe fun file hfile s hs =>
    hs.put (fun f => (hfile f).1) none) fun _ => ?_
  refine .bind (.check hsafe hsafe) fun _ => ?_
  refine .bind (removeJournal_ends hsafe (fun s hs => ⟨rfl, hs.after⟩) hends) fun _ => ?_
  exact .pure fun _ hs => hs

/-! ## Recovery -/

/-- The journal tells how far the restore had come. -/
theorem Setup.Safe.of_journal {journal : Journal} (h : c.Safe s) (hs : s.journal = some journal) :
    journal = c.journal .prepared ∧ c.Restorable s ∨
      journal = c.journal .committed ∧ c.Committed s := by
  rcases h with h | h | h
  · exact .inl ⟨Option.some.inj (hs.symm.trans h.journal), h⟩
  · exact .inr ⟨Option.some.inj (hs.symm.trans h.journal), h⟩
  · cases hs.symm.trans h.1

theorem recoverLocked_ends (journal : Journal) :
    Triple (fun s => c.Safe s ∧ s.journal = some journal) (recoverLocked journal)
      (fun _ => c.Ended) c.Safe c.Safe := by
  refine .of_forall (p := journal = c.journal .prepared ∨ journal = c.journal .committed)
    (fun s hs => (hs.1.of_journal hs.2).imp And.left And.left) fun hjournal => ?_
  rcases hjournal with rfl | rfl
  · refine rollback_ends.pre fun s hs => ?_
    refine (hs.1.of_journal hs.2).elim And.right fun h => ?_
    cases congrArg Journal.phase h.1
  · refine (finish_ends.pre fun s hs => ?_).post fun _ s hs => ⟨hs.1, .inr hs.2⟩
    refine (hs.1.of_journal hs.2).elim (fun h => ?_) And.right
    cases congrArg Journal.phase h.1

theorem readJournal_reads {P : Disk → Prop} {F : Disk → Prop} (hF : ∀ s, P s → F s)
    (hsafe : ∀ s, P s → c.Safe s) :
    Triple P readJournal (fun journal s => P s ∧ s.journal = journal) F c.Safe :=
  .bind (.check hF hsafe) fun _ => .get fun _ hs => ⟨hs, rfl⟩

/-- A recovery that runs to its end ends the restore. -/
theorem recover_ends : Triple c.Safe recover (fun _ => c.Ended) c.Safe c.Safe := by
  refine .bind (readJournal_reads (fun _ => id) fun _ => id) fun journal => ?_
  cases journal with
  | none =>
    refine .pure fun s hs => ?_
    rcases hs.1 with h | h | h
    · cases hs.2.symm.trans h.journal
    · cases hs.2.symm.trans h.journal
    · exact h
  | some journal =>
    refine .bind (.check (fun _ hs => hs.1) fun _ hs => hs.1) fun _ => ?_
    exact .bind (recoverLocked_ends journal) fun _ => .pure fun _ => id

/-! ## Making the files ready -/

/-- Nothing has moved yet, and some files are ready. -/
structure Setup.Ready (c : Setup) (fs : List Live) (s : Disk) : Prop where
  journal : s.journal = some (c.journal .prepared)
  unmoved : ∀ f, c.Unmoved f s
  ready : ∀ f ∈ fs, s.files (.new f) = c.archive f
  waiting : ∀ f, f ∉ fs → s.files (.new f) = none ∧ s.files (.staged f) = c.archive f

theorem Setup.Ready.restorable {fs : List Live} (h : c.Ready fs s) : c.Restorable s :=
  ⟨h.journal, fun f => .inl (h.unmoved f)⟩

/-- The next file is ready. -/
theorem Setup.Ready.next {fs : List Live} {f : Live} (h : c.Ready fs s)
    (hjournal : s'.journal = s.journal) (hnew : s'.files (.new f) = c.archive f)
    (hothers : ∀ file, file ≠ .new f → file ≠ .staged f → s'.files file = s.files file) :
    c.Ready (fs ++ [f]) s' where
  journal := hjournal.trans h.journal
  unmoved g := ⟨(hothers (.live g) nofun nofun).trans (h.unmoved g).1,
    (hothers (.old g) nofun nofun).trans (h.unmoved g).2⟩
  ready g hg := by
    by_cases heq : g = f
    · exact heq ▸ hnew
    · have hold := (List.mem_append.mp hg).resolve_right (heq ∘ List.mem_singleton.mp)
      exact (hothers (.new g) (heq ∘ File.new.inj) nofun).trans (h.ready g hold)
  waiting g hg := by
    obtain ⟨hold, hne⟩ := not_or.mp (mt List.mem_append.mpr hg)
    have heq : g ≠ f := fun heq => hne (List.mem_singleton.mpr heq)
    exact ⟨(hothers (.new g) (heq ∘ File.new.inj) nofun).trans (h.waiting g hold).1,
      (hothers (.staged g) nofun (heq ∘ File.staged.inj)).trans (h.waiting g hold).2⟩

theorem copyPrivateDurable_ready {fs : List Live} {f : Live} (hf : f ∉ fs) :
    Triple (c.Ready fs) (copyPrivateDurable (.staged f) (.new f)) (fun _ => c.Ready (fs ++ [f]))
      c.Restorable c.Safe := by
  have hfail : ∀ s, c.Ready fs s → c.Restorable s := fun _ h => h.restorable
  have hfail' : ∀ s, c.Ready (fs ++ [f]) s → c.Restorable s := fun _ h => h.restorable
  unfold copyPrivateDurable
  refine .bind (.ensure hfail fun s hs => (hfail s hs).safe) fun _ => ?_
  -- the copy is first made as an empty file
  refine .bind (R := fun _ s => ∃ s₀, c.Ready fs s₀ ∧ s = s₀.put (.new f) (some [])) ?_ fun _ => ?_
  · refine .act (fun s hs => hfail s hs.1) (fun s hs => (hfail s hs.1).safe) fun s s' hs heq => ?_
    split at heq
    · cases heq
    · cases heq
      exact ⟨⟨s, hs.1, rfl⟩, ((hfail s hs.1).put (beside_new f) _).safe⟩
  refine .bind (R := fun _ => c.Ready (fs ++ [f])) ?_ fun _ =>
    .check hfail' fun s hs => (hfail' s hs).safe
  have hempty : ∀ s : Disk, (∃ s₀, c.Ready fs s₀ ∧ s = s₀.put (.new f) (some [])) →
      c.Restorable s := by
    rintro _ ⟨s₀, hs₀, rfl⟩
    exact hs₀.restorable.put (beside_new f) _
  refine .act hempty (fun s hs => (hempty s hs).safe) fun s s' hs heq => ?_
  obtain ⟨s₀, hs₀, rfl⟩ := hs
  cases heq
  have hready : c.Ready (fs ++ [f]) ((s₀.put (.new f) (some [])).put (.new f)
      ((s₀.put (.new f) (some [])).files (.staged f))) := by
    refine hs₀.next rfl ?_ fun file hnew _ => ?_
    · have hstaged : (s₀.put (.new f) (some [])).files (.staged f) = s₀.files (.staged f) :=
        files_put_of_ne _ _ nofun
      rw [files_put_self, hstaged]
      exact (hs₀.waiting f hf).2
    · rw [files_put_of_ne _ _ hnew, files_put_of_ne _ _ hnew]
  exact ⟨hready, (hfail' _ hready).safe⟩

/-- The archive has no such file, or it is among those that are made ready. -/
theorem archive_of_notMem {f : Live} (hf : f ∉ [Live.database, .key])
    (hrunner : f = .runner → c.replaces f = true → c.runner = none)
    (hreplaces : c.replaces f = true) : c.archive f = none := by
  cases f with
  | database => exact absurd (by decide) hf
  | key => exact absurd (by decide) hf
  | wal => rfl
  | shm => rfl
  | runner => exact hrunner rfl hreplaces

/-- The files are where they were, and those of the archive are ready. -/
structure Setup.Prepared (c : Setup) (s : Disk) : Prop where
  journal : s.journal = some (c.journal .prepared)
  unmoved : ∀ f, c.Unmoved f s
  ready : ∀ f, c.replaces f = true → s.files (.new f) = c.archive f

theorem Setup.Prepared.restorable (h : c.Prepared s) : c.Restorable s :=
  ⟨h.journal, fun f => .inl (h.unmoved f)⟩

theorem runner_of_archiveHasConfig {phase : Phase}
    (h : (c.journal phase).archiveHasConfig = false) (hreplaces : c.replaces .runner = true) :
    c.runner = none := by
  have hmanaged : c.managed = true := hreplaces
  rw [Setup.journal, hmanaged, Bool.true_and] at h
  exact Option.not_isSome_iff_eq_none.mp (Bool.eq_false_iff.mp h)

theorem prepare_ready : Triple (c.Ready []) (prepare (c.journal .prepared))
    (fun _ => c.Prepared) c.Restorable c.Safe := by
  have hfail : ∀ fs s, c.Ready fs s → c.Restorable s := fun _ _ h => h.restorable
  have hsafe : ∀ fs s, c.Ready fs s → c.Safe s := fun _ _ h => h.restorable.safe
  unfold prepare
  refine .bind (R := fun _ => c.Ready [.database]) ?_ fun _ => ?_
  · refine .act (hfail _) (hsafe _) fun s s' hs heq => ?_
    obtain ⟨content, hcontent, hjournal, hnew, -, hothers⟩ := rename_eq_some heq
    have hready : c.Ready ([] ++ [.database]) s' := by
      refine hs.next hjournal ?_ fun file h h' => hothers file h' h
      rw [hnew, ← hcontent]
      exact (hs.waiting _ List.not_mem_nil).2
    exact ⟨hready, hsafe _ _ hready⟩
  refine .bind (.check (hfail _) (hsafe _)) fun _ => ?_
  refine .bind (R := fun _ => c.Ready [.database, .key])
    (copyPrivateDurable_ready (by decide)) fun _ => ?_
  refine .bind (R := fun _ => c.Prepared) ?_ fun _ =>
    .check (fun _ hs => hs.restorable) fun _ hs => hs.restorable.safe
  refine .when (fun hconfig => ?_) fun hconfig s hs => ⟨hs.journal, hs.unmoved, fun f hf => ?_⟩
  · refine (copyPrivateDurable_ready (by decide)).post fun _ s hs =>
      ⟨hs.journal, hs.unmoved, fun f hf => ?_⟩
    by_cases hmem : f ∈ [Live.database, .key] ++ [.runner]
    · exact hs.ready f hmem
    · rw [(hs.waiting f hmem).1]
      refine (archive_of_notMem (fun h => hmem (List.mem_append_left _ h)) ?_ hf).symm
      rintro rfl
      exact absurd (by decide) hmem
  · by_cases hmem : f ∈ [Live.database, .key]
    · exact hs.ready f hmem
    · rw [(hs.waiting f hmem).1]
      refine (archive_of_notMem hmem ?_ hf).symm
      rintro rfl hreplaces
      exact runner_of_archiveHasConfig hconfig hreplaces

/-! ## Putting the files in place -/

/-- Some of the files are put aside. -/
structure Setup.Aside (c : Setup) (fs : List Live) (s : Disk) : Prop where
  journal : s.journal = some (c.journal .prepared)
  unmoved : ∀ f, f ∉ fs ∨ c.replaces f = false → c.Unmoved f s
  aside : ∀ f ∈ fs, c.replaces f = true →
    s.files (.live f) = none ∧ s.files (.old f) = c.current f
  ready : ∀ f, c.replaces f = true → s.files (.new f) = c.archive f

theorem Setup.Aside.restorable {fs : List Live} (h : c.Aside fs s) : c.Restorable s where
  journal := h.journal
  files f := by
    by_cases hf : f ∈ fs ∧ c.replaces f = true
    · exact .inr ⟨hf.2, (h.aside f hf.1 hf.2).2⟩
    · exact .inl (h.unmoved f ((not_and_or.mp hf).imp_right Bool.eq_false_iff.mpr))

theorem Setup.Aside.next {fs : List Live} {f : Live} (h : c.Aside fs s)
    (hjournal : s'.journal = s.journal)
    (haside : c.replaces f = true → s'.files (.live f) = none ∧ s'.files (.old f) = c.current f)
    (hothers : SameBut f s s') (hunmoved : c.replaces f = false → c.Unmoved f s')
    (hnew : ∀ g, s'.files (.new g) = s.files (.new g)) : c.Aside (fs ++ [f]) s' where
  journal := hjournal.trans h.journal
  unmoved g hg := by
    by_cases heq : g = f
    · subst heq
      exact hunmoved (hg.resolve_left fun h => h (List.mem_append_right _ List.mem_cons_self))
    · exact (h.unmoved g (hg.imp_left fun h hold => h (List.mem_append_left _ hold))).sameBut
        hothers heq
  aside g hg hreplaces := by
    by_cases heq : g = f
    · subst heq
      exact haside hreplaces
    · have hold := (List.mem_append.mp hg).resolve_right (heq ∘ List.mem_singleton.mp)
      have hbefore := h.aside g hold hreplaces
      exact ⟨(hothers g heq).1.trans hbefore.1, (hothers g heq).2.trans hbefore.2⟩
  ready g hreplaces := (hnew g).trans (h.ready g hreplaces)

theorem putAside_aside (fs : List Live) (f : Live) :
    Triple (c.Aside fs) (putAside (c.journal .prepared) f) (fun _ => c.Aside (fs ++ [f]))
      c.Restorable c.Safe := by
  unfold putAside
  refine .when (fun hhad => ?_) fun hhad s hs => ?_
  · refine .act (fun s hs => hs.restorable) (fun s hs => hs.restorable.safe) fun s s' hs heq => ?_
    obtain ⟨content, hcontent, hjournal, hold, hlive, hothers⟩ := rename_eq_some heq
    have hreplaces : c.replaces f = true := (Bool.and_eq_true_iff.mp hhad).1
    -- it is still there, so it has not been put aside before
    have hunmoved : c.Unmoved f s := by
      refine hs.unmoved f (.inl fun hmem => ?_)
      rw [(hs.aside f hmem hreplaces).1] at hcontent
      cases hcontent
    have haside : c.Aside (fs ++ [f]) s' := by
      refine hs.next hjournal (fun _ => ⟨hlive nofun, ?_⟩) (fun g hne => ?_) (fun h => ?_)
        fun g => hothers _ nofun nofun
      · rw [hold, ← hcontent]
        exact hunmoved.1
      · exact ⟨hothers _ (fun h => hne (File.live.inj h)) nofun,
          hothers _ nofun fun h => hne (File.old.inj h)⟩
      · rw [h] at hreplaces
        cases hreplaces
    exact ⟨haside, haside.restorable.safe⟩
  · refine hs.next rfl (fun hreplaces => ?_) (fun _ _ => ⟨rfl, rfl⟩)
      (fun h => hs.unmoved f (.inr h)) fun _ => rfl
    by_cases hmem : f ∈ fs
    · exact hs.aside f hmem hreplaces
    · obtain ⟨hlive, hold⟩ := hs.unmoved f (.inl hmem)
      have hcurrent : c.current f = none := by
        refine Option.not_isSome_iff_eq_none.mp fun hsome => ?_
        have : (c.journal .prepared).hadCurrent f = true :=
          Bool.and_eq_true_iff.mpr ⟨hreplaces, hsome⟩
        exact Bool.noConfusion (hhad.symm.trans this)
      rw [hlive, hold, hcurrent]
      exact ⟨rfl, rfl⟩

/-- The previous files are put aside, and some of the archive's are in their place. -/
structure Setup.Placed (c : Setup) (fs : List Live) (s : Disk) : Prop where
  journal : s.journal = some (c.journal .prepared)
  kept : ∀ f, c.replaces f = false → c.Unmoved f s
  aside : ∀ f, c.replaces f = true → s.files (.old f) = c.current f
  placed : ∀ f ∈ fs, c.replaces f = true →
    s.files (.live f) = c.archive f ∧ s.files (.new f) = none
  waiting : ∀ f, f ∉ fs → c.replaces f = true →
    s.files (.live f) = none ∧ s.files (.new f) = c.archive f

theorem Setup.Placed.restorable {fs : List Live} (h : c.Placed fs s) : c.Restorable s where
  journal := h.journal
  files f := by
    cases hf : c.replaces f with
    | true => exact .inr ⟨rfl, h.aside f hf⟩
    | false => exact .inl (h.kept f hf)

theorem putInPlace_placed (fs : List Live) {f : Live} (hf : c.replaces f = true) :
    Triple (c.Placed fs) (putInPlace f) (fun _ => c.Placed (fs ++ [f])) c.Restorable c.Safe := by
  refine .act (fun s hs => hs.restorable) (fun s hs => hs.restorable.safe) fun s s' hs heq => ?_
  obtain ⟨content, hcontent, hjournal, hlive, hnew, hothers⟩ := rename_eq_some heq
  have hnot : f ∉ fs := by
    intro hmem
    rw [(hs.placed f hmem hf).2] at hcontent
    cases hcontent
  have hplaced : c.Placed (fs ++ [f]) s' := by
    refine ⟨hjournal.trans hs.journal, fun g hg => ?_, fun g hg => ?_, fun g hg hreplaces => ?_,
      fun g hg hreplaces => ?_⟩
    · have hne : g ≠ f := by
        rintro rfl
        exact Bool.noConfusion (hg.symm.trans hf)
      obtain ⟨hkept, hold⟩ := hs.kept g hg
      exact ⟨(hothers (.live g) nofun fun h => hne (File.live.inj h)).trans hkept,
        (hothers (.old g) nofun nofun).trans hold⟩
    · exact (hothers (.old g) nofun nofun).trans (hs.aside g hg)
    · by_cases heq : g = f
      · subst heq
        refine ⟨?_, hnew nofun⟩
        rw [hlive, ← hcontent]
        exact (hs.waiting g hnot hf).2
      · have hbefore := hs.placed g
          ((List.mem_append.mp hg).resolve_right (heq ∘ List.mem_singleton.mp)) hreplaces
        exact ⟨(hothers (.live g) nofun (heq ∘ File.live.inj)).trans hbefore.1,
          (hothers (.new g) (heq ∘ File.new.inj) nofun).trans hbefore.2⟩
    · obtain ⟨hold, hne⟩ := not_or.mp (mt List.mem_append.mpr hg)
      have heq : g ≠ f := fun heq => hne (List.mem_singleton.mpr heq)
      have hbefore := hs.waiting g hold hreplaces
      exact ⟨(hothers (.live g) nofun (heq ∘ File.live.inj)).trans hbefore.1,
        (hothers (.new g) (heq ∘ File.new.inj) nofun).trans hbefore.2⟩
  exact ⟨hplaced, hplaced.restorable.safe⟩

theorem Setup.Prepared.aside (h : c.Prepared s) : c.Aside [] s where
  journal := h.journal
  unmoved f _ := h.unmoved f
  aside _ hf := absurd hf List.not_mem_nil
  ready := h.ready

theorem Setup.Aside.placed {fs : List Live} (h : c.Aside fs s) (hall : ∀ f, f ∈ fs) :
    c.Placed [] s where
  journal := h.journal
  kept f hf := h.unmoved f (.inr hf)
  aside f hf := (h.aside f (hall f) hf).2
  placed _ hf := absurd hf List.not_mem_nil
  waiting f _ hf := ⟨(h.aside f (hall f) hf).1, h.ready f hf⟩

theorem Setup.Placed.after {fs : List Live} (h : c.Placed fs s)
    (hrest : ∀ f, f ∉ fs → c.replaces f = true → c.archive f = none) : c.After s := by
  intro f
  cases hf : c.replaces f with
  | false => exact (h.kept f hf).1
  | true =>
    by_cases hmem : f ∈ fs
    · exact (h.placed f hmem hf).1
    · exact (h.waiting f hmem hf).1.trans (hrest f hmem hf).symm

theorem publish_commits : Triple c.Prepared (publish (c.journal .prepared))
    (fun _ => c.Committed) c.Safe c.Safe := by
  have hprepared : ∀ s, c.Prepared s → c.Safe s := fun _ h => h.restorable.safe
  have hplaced : ∀ fs s, c.Placed fs s → c.Safe s := fun _ _ h => h.restorable.safe
  have hafter : ∀ s, c.Restorable s ∧ c.After s → c.Safe s := fun _ h => h.1.safe
  have hfail : ∀ s, c.Restorable s → c.Safe s := fun _ h => h.safe
  unfold publish
  refine .bind (.check hprepared hprepared) fun _ => ?_
  refine .bind (R := fun _ => c.Placed []) ?_ fun _ => ?_
  · have heach : Triple (c.Aside []) (each (putAside (c.journal .prepared))
        [.runner, .database, .key, .wal, .shm])
        (fun _ => c.Aside ([] ++ [.runner, .database, .key, .wal, .shm])) c.Safe c.Safe :=
      Triple.each (fun fs => c.Aside fs) (fun fs f _ =>
        (putAside_aside fs f).consequence (fun _ => id) (fun _ _ => id) hfail fun _ => id) []
    exact (heach.pre fun _ hs => hs.aside).post fun _ _ hs =>
      hs.placed fun f => by cases f <;> decide
  refine .bind (R := fun _ => c.Placed [.database, .key]) ?_ fun _ => ?_
  · refine Triple.each (fun fs => c.Placed fs) (fun fs f hf => ?_) []
    have hreplaces : c.replaces f = true := by
      refine replaces_of_ne fun heq => ?_
      rw [heq] at hf
      exact absurd hf (by decide)
    exact (putInPlace_placed fs hreplaces).consequence (fun _ => id) (fun _ _ => id) hfail
      fun _ => id
  refine .bind (.check (hplaced _) (hplaced _)) fun _ => ?_
  refine .bind (R := fun _ s => c.Restorable s ∧ c.After s) ?_ fun _ => ?_
  · refine .when (fun hconfig => ?_) fun hconfig s hs =>
      ⟨hs.restorable, hs.after fun f hf hreplaces => archive_of_notMem hf ?_ hreplaces⟩
    · have hrunner : c.replaces .runner = true := (Bool.and_eq_true_iff.mp hconfig).1
      refine (putInPlace_placed _ hrunner).consequence (fun _ => id) (fun _ s hs => ?_) hfail
        fun _ => id
      refine ⟨hs.restorable, hs.after fun f hf hreplaces => ?_⟩
      refine archive_of_notMem (fun h => hf (List.mem_append_left _ h)) ?_ hreplaces
      rintro rfl
      exact absurd (by decide) hf
    · rintro rfl hrunner
      exact runner_of_archiveHasConfig hconfig hrunner
  refine .bind (.check hafter hafter) fun _ => ?_
  exact writeJournal_keep hafter (fun s hs => ⟨rfl, hs.2⟩) fun _ h => h.safe

/-! ## The restore -/

theorem afterPublishFailed_ends : Triple c.Safe afterPublishFailed (fun _ => c.Ended)
    c.Safe c.Safe := by
  refine .bind (readJournal_reads (fun _ => id) fun _ => id) fun journal => ?_
  cases journal with
  | none => exact .fail fun _ hs => hs.1
  | some journal =>
    dsimp only
    have hlocked := recoverLocked_ends (c := c) journal
    unfold recoverLocked at hlocked
    cases hphase : journal.phase with
    | committed =>
      rw [hphase] at hlocked
      exact hlocked
    | prepared =>
      refine .bind (R := fun _ => c.Safe) (.ignore ?_) fun _ => .fail fun _ => id
      exact (recoverLocked_ends journal).post fun _ _ h => h.safe

theorem cleanPreparation_safe : Triple c.Restorable (cleanPreparation (c.journal .prepared))
    (fun _ => c.Safe) c.Safe c.Safe := by
  have hsafe : ∀ s, c.Restorable s → c.Safe s := fun _ h => h.safe
  unfold cleanPreparation
  refine .bind (R := fun _ => c.Restorable) (.each_keep fun file hfile => .ignore ?_) fun _ => ?_
  · refine .act (fun _ => id) hsafe fun s s' hs heq => ?_
    cases heq
    exact ⟨hs.put (beside_newFiles hfile) none, (hs.put (beside_newFiles hfile) none).safe⟩
  refine .bind (R := fun _ => c.Restorable) (.attempt (.check (fun _ => id) hsafe)) fun seen => ?_
  refine .bind (R := fun _ => c.Restorable) (.get fun _ => id) fun present => ?_
  refine .when (fun _ => .ignore ?_) fun _ => hsafe
  refine (rollback_ends.pre ?_).post fun _ _ h => h.safe
  exact fun _ => id

theorem newJournal_start : c.start.newJournal c.managed = c.journal .prepared := by
  have hhad : (c.start.newJournal c.managed).hadCurrent = (c.journal .prepared).hadCurrent := by
    funext f
    cases f <;> rfl
  exact congrArg (fun hadCurrent => (⟨.prepared, c.managed, c.managed && c.runner.isSome,
    hadCurrent⟩ : Journal)) hhad

theorem Setup.start_ready (c : Setup) :
    c.Ready [] { c.start with journal := some (c.journal .prepared) } where
  journal := rfl
  unmoved _ := ⟨rfl, rfl⟩
  ready _ hf := absurd hf List.not_mem_nil
  waiting _ _ := ⟨rfl, rfl⟩

theorem recover_start : Triple (fun s => s = c.start) recover (fun _ s => s = c.start)
    c.Safe c.Safe := by
  have hsafe : ∀ s, s = c.start → c.Safe s := fun _ h => h ▸ c.start_ended.safe
  refine .bind (readJournal_reads hsafe hsafe) fun journal => ?_
  refine .of_forall (p := journal = none) (fun s hs => ?_) fun hjournal => ?_
  · rw [← hs.2, hs.1]
    rfl
  · rw [hjournal]
    exact .pure fun s hs => hs.1

/-- A restore that runs to its end leaves the archive's files, and one that fails or dies leaves
what the next recovery needs. -/
theorem commit_ends : Triple (fun s => s = c.start) (commit c.managed)
    (fun _ => c.Ended) c.Safe c.Safe := by
  have hsafe : ∀ s, s = c.start → c.Safe s := fun _ h => h ▸ c.start_ended.safe
  unfold commit
  refine .bind recover_start fun _ => ?_
  refine .bind ((Triple.ensure hsafe hsafe).post fun _ _ h => h.1) fun _ => ?_
  refine .bind (.check hsafe hsafe) fun _ => ?_
  refine .bind (R := fun journal s => s = c.start ∧ journal = c.journal .prepared)
    (.get fun s hs => ⟨hs, hs ▸ newJournal_start⟩) fun journal => ?_
  refine .of_forall (fun s hs => hs.2) fun hjournal => ?_
  subst hjournal
  refine .bind (R := fun _ => c.Ready []) (writeJournal_keep (fun s hs => hsafe s hs.1)
    (fun s hs => hs.1 ▸ c.start_ready) fun _ h => h.restorable.safe) fun _ => ?_
  refine .bind (R := fun ready => ready.elim c.Restorable fun _ => c.Prepared)
    (.attempt prepare_ready) fun ready => ?_
  cases ready with
  | none => exact .bind cleanPreparation_safe fun _ => .fail fun _ => id
  | some _ =>
    have hpublish : Triple c.Prepared (attempt (publish (c.journal .prepared)))
        (fun published => published.elim c.Safe fun _ => c.Committed) c.Safe c.Safe :=
      .attempt publish_commits
    refine .bind hpublish fun published => ?_
    cases published with
    | none => exact afterPublishFailed_ends
    | some _ => exact finish_ends.post fun _ s hs => ⟨hs.1, .inr hs.2⟩

/-- Whatever fails and wherever the process dies, also in recoveries that follow, the next recovery
that runs to its end leaves all files as they were before the restore, or all those of the
archive. -/
theorem restore_all_or_nothing (c : Setup) (fates : List Fate) (recoveries : List (List Fate))
    (last : List Fate) {outcome : Option Outcome} {s : Disk} {rest : List Fate}
    (h : recover last (runs recover (commit c.managed fates c.start).state recoveries) =
      .done outcome s rest) : c.Before s ∨ c.After s := by
  have hcommit : c.Safe (commit c.managed fates c.start).state :=
    (commit_ends.post fun _ _ h => h.safe).state rfl fates
  have hbefore : c.Safe (runs recover (commit c.managed fates c.start).state recoveries) :=
    (recover_ends.post fun _ _ h => h.safe).runs hcommit recoveries
  have hlast := recover_ends last _ hbefore
  rw [h] at hlast
  exact hlast.2

/-- A managed install, and an archive with a runner config. -/
def managedSetup : Setup where
  current
    | .database => some [1]
    | .key => some [2]
    | .wal => some [3]
    | .shm => none
    | .runner => some [4]
  managed := true
  database := [5]
  key := [6]
  runner := some [7]

/-- The process dies after this many steps. -/
def diesAfter (steps : ℕ) : List Fate := List.replicate steps .succeeds ++ [.stops]

/-- The restore dies with the restored database in place, and the first recovery once that is
removed. -/
def interrupted : Disk :=
  runs recover (commit managedSetup.managed (diesAfter 22) managedSetup.start).state [diesAfter 3]

theorem restore_all_or_nothing_interrupted : interrupted.exists (.live .database) = false ∧
    ∃ outcome s rest, recover [] interrupted = .done outcome s rest ∧
      (managedSetup.Before s ∨ managedSetup.After s) := by
  refine ⟨by decide, ?_⟩
  obtain ⟨outcome, s, rest, hdone⟩ :=
    Outcome.exists_of_isDone (by decide : (recover [] interrupted).isDone = true)
  exact ⟨outcome, s, rest, hdone, restore_all_or_nothing managedSetup (diesAfter 22) [diesAfter 3]
    [] hdone⟩

end Restore

end OoreBuild
