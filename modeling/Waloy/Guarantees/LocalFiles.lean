import Waloy.Spec.Machine
import Waloy.Spec.Restored

/-!
# Local files that were there before a restore

A restore always writes the database file, but the WAL file only when it has segments to
replay. A WAL file of an earlier database then stays next to the restored one, and SQLite
replays it.
-/
namespace Waloy.Spec
open Waloy.Source Waloy.Source.BackupManager

variable {pf : Platform} (config : BackupConfig pf.build)

/-- A WAL file without a complete frame, so nothing of it is replayed. -/
def Frameless (wal : Bytes) : Prop := walAlignedLen wal ≤ walHeaderSize

instance (wal : Bytes) : Decidable (Frameless wal) := inferInstanceAs (Decidable (_ ≤ _))

/-- Two restores of one backup leave the same files to SQLite, and nothing but the backup. -/
structure SameAtOpening (b : Bucket) (time : Option Nat) (targetPath : Str)
    (files files' : List (Str × Bytes)) : Prop where
  database : files.lookup targetPath = files'.lookup targetPath
  wal : walOf targetPath files = walOf targetPath files'
  backup : ∃ generation keys data, selection config b time = some (generation, keys) ∧
    files.lookup targetPath = content config b (.snapshot generation) ∧
    keysData config b keys = some data ∧
    if keys = [] then Frameless (walOf targetPath files) else walOf targetPath files = data

/-- A restore depends on the backup only, whatever the local files held before. -/
def BackupOnly : Prop :=
  ∀ b time targetPath before before' after after',
    Returns b before (restoreInner pf config targetPath time) () after →
    Returns b before' (restoreInner pf config targetPath time) () after' →
    SameAtOpening config b time targetPath after after'

/-- The restore has segments to replay. -/
def Replays (b : Bucket) (time : Option Nat) : Prop :=
  ∃ generation keys, selection config b time = some (generation, keys) ∧ keys ≠ []

/-- A backup of a database that has not been written to since. -/
def bareBackup : Bucket :=
  store plainConfig (store plainConfig ∅ .latest (asBytes (uuid 0))) (.snapshot (uuid 0)) [1, 2, 3]

theorem returns_bareBackup (files : List (Str × Bytes)) :
    Returns bareBackup files (restoreInner plain plainConfig ['t'] none) ()
      (overwritten ['t'] [] [1, 2, 3] [] files) := by
  have selected : selection plainConfig bareBackup none = some (uuid 0, []) := by decide +kernel
  have snap : content plainConfig bareBackup (.snapshot (uuid 0)) = some [1, 2, 3] := by
    decide +kernel
  exact returns_restoreInner selected snap rfl

/-- A snapshot without segments, restored next to a WAL file of another database. -/
theorem not_backupOnly : ¬ BackupOnly plainConfig := by
  intro claim
  let leftover : List (Str × Bytes) := [(['t', '-', 'w', 'a', 'l'], walHeader 7 ++ walFrame 1)]
  have same := (claim bareBackup none ['t'] [] leftover _ _ (returns_bareBackup [])
    (returns_bareBackup leftover)).wal
  exact absurd same (by decide +kernel)

section
variable {config} {b : Bucket} {time : Option Nat} {targetPath : Str} {keys : List Str}
  {snapshot wal : Bytes} {before before' after after' : List (Str × Bytes)}

/-- Two restores of one backup leave the same files to SQLite exactly where they have
segments to replay, or find the same WAL file without frames. -/
theorem restore_backupOnly_iff
    (run : Returns b before (restoreInner pf config targetPath time) () after)
    (run' : Returns b before' (restoreInner pf config targetPath time) () after') :
    SameAtOpening config b time targetPath after after' ↔
      Replays config b time ∨
        walOf targetPath before = walOf targetPath before' ∧ Frameless (walOf targetPath before) := by
  obtain ⟨generation, keys, snapshot, wal, selected, snap, held, rfl⟩ := run.overwrites
  obtain ⟨generation', keys', snapshot', wal', selected', snap', held', rfl⟩ := run'.overwrites
  cases selected.symm.trans selected'
  cases snap.symm.trans snap'
  cases held.symm.trans held'
  constructor
  · intro same
    by_cases empty : keys = []
    · have equal := same.wal
      obtain ⟨_, keys', _, selected', -, -, rest⟩ := same.backup
      cases selected.symm.trans selected'
      rw [walOf_overwritten, walOf_overwritten, if_pos empty, if_pos empty] at equal
      rw [if_pos empty, walOf_overwritten, if_pos empty] at rest
      exact .inr ⟨equal, rest⟩
    · exact .inl ⟨generation, keys, selected, empty⟩
  · intro condition
    have known : keys ≠ [] ∨
        walOf targetPath before = walOf targetPath before' ∧ Frameless (walOf targetPath before) := by
      refine condition.imp_left ?_
      rintro ⟨_, _, selected', some_keys⟩
      cases selected.symm.trans selected'
      exact some_keys
    constructor
    case database => rw [lookup_overwritten, lookup_overwritten]
    case wal =>
      rw [walOf_overwritten, walOf_overwritten]
      split
      case isTrue empty => exact (known.resolve_left (absurd empty)).1
      case isFalse => rfl
    case backup =>
      refine ⟨generation, keys, wal, selected, lookup_overwritten.trans snap.symm, held, ?_⟩
      rw [walOf_overwritten]
      split
      case isTrue empty => exact (known.resolve_left (absurd empty)).2
      case isFalse => rfl

theorem restore_backupOnly_plain :
    SameAtOpening plainConfig bareBackup none ['t'] (overwritten ['t'] [] [1, 2, 3] [] [])
        (overwritten ['t'] [] [1, 2, 3] [] [(['t'], [9])]) ↔
      Replays plainConfig bareBackup none ∨
        walOf ['t'] [] = walOf ['t'] [(['t'], [9])] ∧ Frameless (walOf ['t'] []) :=
  restore_backupOnly_iff (returns_bareBackup []) (returns_bareBackup _)

end

end Waloy.Spec
