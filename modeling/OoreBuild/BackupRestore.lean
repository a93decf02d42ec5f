import OoreBuild.Lib.Crash
import Mathlib.Logic.Function.Basic

/-!
# Restoring a backup

A restore replaces the database, the encryption key and the managed runner config by those of an
archive. A journal beside the database tells whether a restore that was interrupted is undone or
finished (`commit_prepared_backup_restore` and `recover_interrupted_backup_restore` in the source).

Each rename, creation, removal and write of the journal is one step. A step without an effect stands
for what may fail without changing a file: locks, checks, permissions and syncs.
-/

namespace OoreBuild

namespace Restore

open Crash

abbrev Content := List UInt8

/-! ## Files -/

/-- A file that a restore replaces. -/
inductive Live where
  | database
  | key
  | wal
  | shm
  | runner
  deriving DecidableEq

inductive File where
  | live (f : Live)
  /-- Where the previous file is put. For a runner config that the archive has none of, this is
  where it is quarantined. -/
  | old (f : Live)
  /-- Where the restored file is made ready. -/
  | new (f : Live)
  /-- A file of the archive in the staging directory. -/
  | staged (f : Live)
  | manifest
  deriving DecidableEq

inductive Phase where
  | prepared
  | committed
  deriving DecidableEq

structure Journal where
  phase : Phase
  /-- The install has a managed runner config. -/
  managedConfig : Bool
  archiveHasConfig : Bool
  hadCurrent : Live → Bool

structure Disk where
  files : File → Option Content
  journal : Option Journal

def Disk.exists (s : Disk) (file : File) : Bool := (s.files file).isSome

def Disk.put (s : Disk) (file : File) (content : Option Content) : Disk :=
  { s with files := Function.update s.files file content }

def Disk.rename (s : Disk) (source target : File) : Option Disk :=
  (s.files source).map fun content => (s.put source none).put target (some content)

/-- What a restore tells about the runner config it had no replacement for. -/
structure Outcome where
  /-- The runner has to be set up again; its previous config is kept in the file. -/
  managedRunnerRecovery : Option (Option File)

/-! ## Steps -/

def rename (source target : File) : Prog Disk Unit := act (·.rename source target)

def removeIfPresent (file : File) : Prog Disk Unit := act fun s => some (s.put file none)

/-- Copy a file to a new one. -/
def copyPrivateDurable (source target : File) : Prog Disk Unit := do
  ensure (·.exists source)
  act fun s => if s.exists target then none else some (s.put target (some []))
  act fun s => some (s.put target (s.files source))
  check

def writeJournal (journal : Journal) : Prog Disk Unit := do
  check
  act fun s => some { s with journal := some journal }
  check

def readJournal : Prog Disk (Option Journal) := do
  check
  get (·.journal)

def removeJournal : Prog Disk Unit := do
  act fun s => some { s with journal := none }
  check

/-- Put the previous file back, where it was moved. -/
def restorePreviousPath (journal : Journal) (f : Live) : Prog Disk Unit := do
  check
  let oldExists ← get (·.exists (.old f))
  let currentExists ← get (·.exists (.live f))
  if oldExists then
    when currentExists (removeIfPresent (.live f))
    rename (.old f) (.live f)
  else if journal.hadCurrent f then
    ensure fun _ => currentExists
  else when currentExists (removeIfPresent (.live f))

def cleanupStage : Prog Disk Unit := do
  check
  each removeIfPresent [.staged .database, .staged .key, .staged .runner, .manifest]
  check

/-! ## Recovery -/

/-- The files made ready to be put in place. -/
def newFiles (journal : Journal) : List File :=
  [.new .database, .new .key] ++ if journal.archiveHasConfig then [.new .runner] else []

def rollback (journal : Journal) : Prog Disk Outcome := do
  each (restorePreviousPath journal) [.database, .key, .wal, .shm]
  when journal.managedConfig (restorePreviousPath journal .runner)
  each removeIfPresent (newFiles journal)
  cleanupStage
  check
  removeJournal
  pure ⟨none⟩

def outcomeFromJournal (journal : Journal) : Outcome where
  managedRunnerRecovery :=
    if journal.managedConfig && !journal.archiveHasConfig then
      some (if journal.hadCurrent .runner then some (.old .runner) else none)
    else none

/-- The files that a committed restore no longer needs. -/
def finishedFiles (journal : Journal) : List File :=
  [.old .database, .old .key, .old .wal, .old .shm, .new .database, .new .key] ++
    if journal.archiveHasConfig then [.old .runner, .new .runner] else []

def finish (journal : Journal) : Prog Disk Outcome := do
  ensure fun s => s.exists (.live .database) && s.exists (.live .key)
  check
  when journal.archiveHasConfig (ensure fun s => s.exists (.live .runner))
  when (journal.managedConfig && !journal.archiveHasConfig)
    (ensure fun s => !s.exists (.live .runner))
  check
  writeJournal journal
  each removeIfPresent (finishedFiles journal)
  cleanupStage
  check
  removeJournal
  pure (outcomeFromJournal journal)

def recoverLocked (journal : Journal) : Prog Disk Outcome :=
  match journal.phase with
  | .prepared => rollback journal
  | .committed => finish journal

/-- Recover a restore that was interrupted. The step without an effect stands for the locks and the
checks that the files are closed. -/
def recover : Prog Disk (Option Outcome) := do
  match ← readJournal with
  | none => pure none
  | some journal => do
    check
    let outcome ← recoverLocked journal
    pure (some outcome)

/-! ## The restore -/

/-- The journal of a restore that starts. -/
def Disk.newJournal (s : Disk) (managed : Bool) : Journal where
  phase := .prepared
  managedConfig := managed
  archiveHasConfig := managed && s.exists (.staged .runner)
  hadCurrent
    | .runner => managed && s.exists (.live .runner)
    | f => s.exists (.live f)

/-- Make the restored files ready. -/
def prepare (journal : Journal) : Prog Disk Unit := do
  rename (.staged .database) (.new .database)
  check
  copyPrivateDurable (.staged .key) (.new .key)
  when journal.archiveHasConfig (copyPrivateDurable (.staged .runner) (.new .runner))
  check

/-- Put a file aside. -/
def putAside (journal : Journal) (f : Live) : Prog Disk Unit :=
  when (journal.hadCurrent f) (rename (.live f) (.old f))

def putInPlace (f : Live) : Prog Disk Unit := rename (.new f) (.live f)

/-- Put the previous files aside and the restored ones in their place. -/
def publish (journal : Journal) : Prog Disk Unit := do
  check
  each (putAside journal) [.runner, .database, .key, .wal, .shm]
  each putInPlace [.database, .key]
  check
  when journal.archiveHasConfig (putInPlace .runner)
  check
  writeJournal { journal with phase := .committed }

/-- Undo what was made ready. An error on the way does not end it. -/
def cleanPreparation (journal : Journal) : Prog Disk Unit := do
  each (fun file => ignore (removeIfPresent file)) (newFiles journal)
  let seen ← attempt check
  let present ← get (·.journal.isSome)
  when (seen.isSome && present) (ignore (recoverLocked journal))

/-- Finish or undo a restore whose publication failed. -/
def afterPublishFailed : Prog Disk Outcome := do
  match ← readJournal with
  | none => fail
  | some persisted =>
    match persisted.phase with
    | .committed => finish persisted
    | .prepared => do
      ignore (recoverLocked persisted)
      fail

/-- Restore an archive that is unpacked in the staging directory. -/
def commit (managed : Bool) : Prog Disk Outcome := do
  let _ ← recover
  ensure fun s => managed || !s.exists (.staged .runner)
  check
  let journal ← get (·.newJournal managed)
  writeJournal journal
  match ← attempt (prepare journal) with
  | none => do
    cleanPreparation journal
    fail
  | some _ =>
    match ← attempt (publish journal) with
    | none => afterPublishFailed
    | some _ => finish { journal with phase := .committed }

end Restore

end OoreBuild
