import Waloy.Effect.Crash
import Waloy.Guarantees.CrashSafety
import Waloy.Spec.Archive
import Waloy.Spec.Lifecycle

/-!
# What a manager leaves alone

Apart from a retention run, a manager writes and deletes under the directory of its own
generation, or of one that it has just drawn, and moves the marker. All else that lies in the
bucket stays as it is, whatever fails and wherever the process dies: the generations it has left
behind, those of other backups, and objects that are none of its own.
-/
namespace Waloy.Spec
open Waloy.Effect Waloy.Source

variable {pf : Platform} (config : BackupConfig pf.build) {A : Type}

/-- The runs of all operations but retention in which every call may fail, and the files may
change in any way between two operations. -/
def roughRuns (host : Host A) : Setting (process config) (World A) where
  enabled q _ _ := q ≠ .enforceRetention
  serve _ _ := (⟨{ host with dbPath := config.dbPath }, fun _ _ _ => True⟩ : Env A).serve
  drift _ w w' := ∃ a t, w' = { w with app := a, clock := t }

/-- What lies outside of the directory of the open generation stays, and is the marker moved. -/
structure LeavesRest (host : Host A) : Prop where
  kept : ∀ {s w c key}, (∀ m, s = some m → Uses config m ∧
      ¬ (S3Client.new config.s3).fullKey (m.generation ++ ['/']) <+: key) →
    key ∈ w.bucket.keys → key ≠ objectKey config .latest →
    (roughRuns config host).Lives none (.idle s w) c →
    c.world.bucket.lookup key = w.bucket.lookup key

/-- An object outside of the directory of a manager. -/
structure Outside (key : Str) (data : Bytes) (h : Head) (b : Bucket) : Prop where
  apart : ¬ (S3Client.new config.s3).fullKey (h.generation ++ ['/']) <+: key
  kept : b.lookup key = some data

section
variable {config} {env : Env A} {w w' : World A} {h h' : Head} {b : Bucket} {o : Object}
  {generation key : Str} {data encoded : Bytes}

theorem lookup_store_apart (owner : ownerOf o = some generation)
    (apart : ¬ (S3Client.new config.s3).fullKey (generation ++ ['/']) <+: key) :
    (store config b o encoded).lookup key = b.lookup key := by
  refine AList.lookup_insert_ne ?_
  rintro rfl
  exact apart (objectKey_inside owner)

theorem lookup_erase_apart (owner : ownerOf o = some generation)
    (apart : ¬ (S3Client.new config.s3).fullKey (generation ++ ['/']) <+: key) :
    (b.erase (objectKey config o)).lookup key = b.lookup key := by
  refine AList.lookup_erase_ne ?_
  rintro rfl
  exact apart (objectKey_inside owner)

theorem lookup_storeSegments_apart
    (apart : ¬ (S3Client.new config.s3).fullKey (generation ++ ['/']) <+: key)
    (pairs : List (SegmentMeta × Bytes)) :
    (storeSegments config generation pairs b).lookup key = b.lookup key := by
  induction pairs generalizing b with
  | nil => rfl
  | cons p rest ih =>
    rw [storeSegments, ih]
    exact lookup_store_apart rfl apart

theorem lookup_eraseSegments_apart
    (apart : ¬ (S3Client.new config.s3).fullKey (generation ++ ['/']) <+: key)
    (segments : List SegmentMeta) :
    (eraseSegments config generation segments b).lookup key = b.lookup key := by
  induction segments generalizing b with
  | nil => rfl
  | cons s rest ih =>
    rw [eraseSegments, ih]
    exact lookup_erase_apart (o := .segment generation s.index) rfl apart

/-- A generation that is drawn has nothing in the bucket. -/
theorem Fresh.apart (fresh : Fresh b generation) (present : b.lookup key = some data) :
    ¬ (S3Client.new config.s3).fullKey (generation ++ ['/']) <+: key := by
  intro inside
  have tidy : Tidy config b generation := tidy_of_fresh fresh
  have there : key ∈ b.keys :=
    AList.mem_keys.mp (AList.lookup_isSome.mp (Option.isSome_iff_exists.mpr ⟨data, present⟩))
  obtain ⟨o, rfl, owner⟩ := tidy.2 key there inside
  have absent : object config b o = none := fresh.absent owner
  rw [object, present] at absent
  cases absent

variable (unmarked : key ≠ objectKey config .latest)

theorem Outside.segment (outside : Outside config key data h b) :
    (withSegment config b h encoded).lookup key = some data :=
  (lookup_store_apart rfl outside.apart).trans outside.kept

theorem Outside.listing (outside : Outside config key data h b) {manifest : Bytes} :
    (withListing config b h encoded manifest).lookup key = some data :=
  (lookup_store_apart rfl outside.apart).trans outside.segment

theorem Outside.chunks (outside : Outside config key data h b)
    (pairs : List (SegmentMeta × Bytes)) : (withChunks config b h pairs).lookup key = some data :=
  (lookup_storeSegments_apart outside.apart pairs).trans outside.kept

theorem Outside.chunkList (outside : Outside config key data h b)
    (pairs : List (SegmentMeta × Bytes)) {manifest : Bytes} :
    (withChunkList config b h pairs manifest).lookup key = some data :=
  (lookup_store_apart rfl outside.apart).trans (outside.chunks pairs)

theorem Outside.saved (outside : Outside config key data h b) :
    (withSnapshot config b h.generation encoded).lookup key = some data :=
  (lookup_store_apart rfl outside.apart).trans outside.kept

include unmarked

theorem Outside.marked (outside : Outside config key data h b) :
    (withLatest config b h.generation encoded).lookup key = some data :=
  (AList.lookup_insert_ne unmarked).trans outside.saved

theorem Outside.listed (outside : Outside config key data h b) {manifest : Bytes} :
    (withManifest config b h.generation encoded manifest).lookup key = some data :=
  (lookup_store_apart rfl outside.apart).trans (outside.marked unmarked)

/-! The exits leave the object where it is. -/

theorem SnapshotExit.outside {r : Except Error Unit} (exit : SnapshotExit config env w h r h' w')
    (outside : Outside config key data h w.bucket) : Outside config key data h' w'.bucket := by
  cases exit with
  | unread => exact outside
  | unpublished read moved failed partly =>
    obtain rfl | ⟨encoded, -, rfl | rfl⟩ := partly
    · exact outside
    · exact ⟨outside.apart, outside.saved⟩
    · exact ⟨outside.apart, outside.marked unmarked⟩
  | unlisted read moved sent ticks failed partly =>
    obtain rfl | ⟨manifest, -, rfl⟩ := partly
    · exact ⟨outside.apart, outside.marked unmarked⟩
    · exact ⟨outside.apart, outside.listed unmarked⟩
  | done => exact ⟨outside.apart, outside.listed unmarked⟩

theorem Regenerated.outside {r : Except Error Unit} (exit : Regenerated config env w h r h' w')
    (outside : Outside config key data h w.bucket) : Outside config key data h' w'.bucket := by
  cases exit with
  | mk moved fresh ticks exit =>
    have apart : ¬ (S3Client.new config.s3).fullKey (_ ++ ['/']) <+: key :=
      fresh.apart outside.kept
    have snapped := exit.outside unmarked ⟨apart, outside.kept⟩
    exact snapped

omit unmarked in
theorem UploadExit.outside {walData : Bytes} {r : Except Error Unit}
    (exit : UploadExit config env w h walData r h' w')
    (outside : Outside config key data h w.bucket) : Outside config key data h' w'.bucket := by
  cases exit with
  | unsaved moved failed partly =>
    obtain rfl | ⟨encoded, -, rfl⟩ := partly
    · exact outside
    · exact ⟨outside.apart, outside.segment⟩
  | unlisted moved sent ticks failed partly =>
    obtain rfl | ⟨manifest, -, rfl⟩ := partly
    · exact ⟨outside.apart, outside.segment⟩
    · exact ⟨outside.apart, outside.listing⟩
  | done => exact ⟨outside.apart, outside.listing⟩

omit unmarked in
theorem Outside.captured (outside : Outside config key data h b) (walData : Bytes) :
    Outside config key data (h.captured walData) b :=
  ⟨by simpa using outside.apart, outside.kept⟩

theorem SyncExit.outside {r : Except Error Bool} (exit : SyncExit config env w h r h' w')
    (outside : Outside config key data h w.bucket) : Outside config key data h' w'.bucket := by
  cases exit with
  | absent => exact outside
  | unread => exact outside
  | short => exact outside
  | recovered read long broken exit => exact exit.outside unmarked outside
  | unrecovered read long broken exit => exact exit.outside unmarked outside
  | covered => exact outside.captured _
  | uploaded read long continuous frames new exit => exact exit.outside (outside.captured _)
  | unsent read long continuous frames new exit => exact exit.outside (outside.captured _)

theorem CheckpointExit.outside {r : Except Error Unit}
    (exit : CheckpointExit config env w h r h' w')
    (outside : Outside config key data h w.bucket) : Outside config key data h' w'.bucket := by
  cases exit with
  | unsynced sync => exact sync.outside unmarked outside
  | unmoved sync moved cut failed =>
    have synced := sync.outside unmarked outside
    exact synced
  | regenerated sync moved cut exit =>
    have synced := sync.outside unmarked outside
    exact exit.outside unmarked synced

theorem IntervalExit.outside {r : Except Error Bool} (exit : IntervalExit config env w h r h' w')
    (outside : Outside config key data h w.bucket) : Outside config key data h' w'.bucket := by
  cases exit with
  | skipped => exact outside
  | taken moved exit => exact exit.outside unmarked outside
  | failed moved exit => exact exit.outside unmarked outside

theorem ShutdownExit.outside (exit : ShutdownExit config env w h h' w')
    (outside : Outside config key data h w.bucket) : Outside config key data h' w'.bucket := by
  cases exit with
  | already => exact outside
  | closed sync =>
    have synced := sync.outside unmarked outside
    exact synced

omit unmarked in
theorem CompactExit.outside {maxSize : Nat} {r : Except Error Unit}
    (exit : CompactExit config env w h maxSize r h' w')
    (outside : Outside config key data h w.bucket) : Outside config key data h' w'.bucket := by
  cases exit with
  | few => exact outside
  | undownloaded => exact outside
  | unchunked several downloaded chunked failed partly =>
    obtain rfl | ⟨encoded, -, rfl⟩ := partly
    · exact ⟨outside.apart, outside.chunks _⟩
    · exact ⟨outside.apart, (lookup_store_apart rfl outside.apart).trans (outside.chunks _)⟩
  | unlisted recut failed partly =>
    obtain rfl | ⟨manifest, -, rfl⟩ := partly
    · exact ⟨outside.apart, outside.chunks _⟩
    · exact ⟨outside.apart, outside.chunkList _⟩
  | undeleted =>
    exact ⟨outside.apart,
      (lookup_eraseSegments_apart outside.apart _).trans (outside.chunkList _)⟩
  | done =>
    exact ⟨outside.apart,
      (lookup_eraseSegments_apart outside.apart _).trans (outside.chunkList _)⟩

theorem OpeningExit.outside (exit : OpeningExit config env w (.ok h') w')
    (kept : w.bucket.lookup key = some data) : Outside config key data h' w'.bucket := by
  obtain ⟨generation, now, a, a', w₁, -, fresh, -, taken, -, rfl⟩ := exit.of_ok
  have snapped := taken.outside unmarked ⟨fresh.apart kept, kept⟩
  exact snapped

/-- One case for each operation of these runs. -/
theorem Performed.outside {q : Request} {s s' : Manager pf} {r : Except Error Answer}
    (performed : Performed config env w q s r s' w') (allowed : q ≠ .enforceRetention)
    (kept : w.bucket.lookup key = some data)
    (idle : Holding config (fun h w => Outside config key data h w.bucket) s w) :
    Holding config (fun h w => Outside config key data h w.bucket) s' w' := by
  cases performed with
  | opened uses exit => exact .some uses (exit.outside unmarked kept)
  | unopened => exact .none _
  | synced uses exit => exact .some uses (exit.outside unmarked (idle _ rfl).2)
  | snapped uses exit => exact .some uses (exit.outside unmarked (idle _ rfl).2)
  | checkpointed uses exit => exact .some uses (exit.outside unmarked (idle _ rfl).2)
  | considered uses exit => exact .some uses (exit.outside unmarked (idle _ rfl).2)
  | compacted uses exit => exact .some uses (exit.outside (idle _ rfl).2)
  | retained => exact absurd rfl allowed
  | closed uses exit => exact .some uses (exit.outside unmarked (idle _ rfl).2)

/-! So does every call on the way. -/

theorem Outside.watch_snapshot (outside : Outside config key data h w.bucket) :
    SnapshotWatched config env (fun _ b' => b'.lookup key = some data) w h where
  start := outside.kept
  published _ _ _ _ _ :=
    ⟨outside.kept, outside.saved, outside.saved, outside.marked unmarked, outside.marked unmarked⟩
  listed _ _ _ _ _ _ _ _ :=
    ⟨outside.marked unmarked, outside.listed unmarked, outside.listed unmarked⟩

theorem watch_regeneration (kept : w.bucket.lookup key = some data) :
    RegenerationWatched config env (fun _ b' => b'.lookup key = some data) w h :=
  ⟨kept, fun _ _ _ _ fresh _ =>
    Outside.watch_snapshot unmarked ⟨fresh.apart kept, kept⟩⟩

theorem Outside.watch_sync (outside : Outside config key data h w.bucket) :
    SyncWatched config env (fun _ b' => b'.lookup key = some data) w h where
  start := outside.kept
  recovers _ _ _ _ := watch_regeneration unmarked outside.kept
  uploads _ walData _ _ _ _ := by
    have captured := outside.captured walData
    exact
      { start := outside.kept
        saved := fun _ _ => ⟨outside.kept, captured.segment, captured.segment⟩
        listed := fun _ _ _ _ _ =>
          ⟨captured.segment, captured.listing, captured.listing⟩ }

theorem Outside.watch_checkpoint (outside : Outside config key data h w.bucket) :
    CheckpointWatched config env (fun _ b' => b'.lookup key = some data) w h where
  sync := outside.watch_sync unmarked
  regenerates _ _ _ _ _ exit _ _ :=
    watch_regeneration unmarked (exit.outside unmarked outside).kept
  stays _ _ _ exit := (exit.outside unmarked outside).kept

omit unmarked in
theorem Outside.watch_compact (outside : Outside config key data h w.bucket) (maxSize : Nat) :
    CompactWatched config env (fun _ b' => b'.lookup key = some data) w h maxSize where
  start := outside.kept
  chunks _ _ _ := by
    refine ⟨fun _ => outside.chunks _, fun _ _ _ => ⟨outside.chunks _, ?_, ?_⟩⟩
    · exact (lookup_store_apart rfl outside.apart).trans (outside.chunks _)
    · exact (lookup_store_apart rfl outside.apart).trans (outside.chunks _)
  listed _ _ _ _ _ _ _ :=
    ⟨outside.chunks _, outside.chunkList _, outside.chunkList _⟩
  deleted _ _ _ _ _ _ _ :=
    along_eraseTrail fun _ _ _ =>
      (lookup_eraseSegments_apart outside.apart _).trans (outside.chunkList _)

theorem watch_request {q : Request} {s : Manager pf} (allowed : q ≠ .enforceRetention)
    (kept : w.bucket.lookup key = some data)
    (idle : Holding config (fun h w => Outside config key data h w.bucket) s w) :
    RequestWatched config env (fun _ b' => b'.lookup key = some data) w q s := by
  have opens : OpeningWatched config env (fun _ b' => b'.lookup key = some data) w :=
    ⟨kept, fun _ _ _ _ fresh _ =>
      Outside.watch_snapshot unmarked ⟨fresh.apart kept, kept⟩⟩
  cases s with
  | none =>
    cases q with
    | new => exact opens
    | _ => trivial
  | some m =>
    have outside := (idle m rfl).2
    cases q with
    | new => exact opens
    | syncWal => exact outside.watch_sync unmarked
    | snapshot => exact outside.watch_snapshot unmarked
    | checkpoint => exact outside.watch_checkpoint unmarked
    | maybeSnapshot => exact fun _ _ => Outside.watch_checkpoint unmarked outside
    | compact => exact outside.watch_compact _
    | enforceRetention => exact absurd rfl allowed
    | shutdown =>
      exact ⟨outside.watch_sync unmarked, fun _ _ _ exit => (exit.outside unmarked outside).kept⟩

end

/-- An object that no operation of the manager touches. -/
def untouched (key : Str) (data : Bytes) :
    Setting.Invariant (C := process config) (W := World A) where
  idle s w := w.bucket.lookup key = some data ∧
    Holding config (fun h w => Outside config key data h w.bucket) s w
  always _ _ _ w := w.bucket.lookup key = some data
  guard _ _ _ := watch fun _ b' => b'.lookup key = some data

section
variable {config} {key : Str} {data : Bytes}

theorem untouched_kept (unmarked : key ≠ objectKey config .latest) (host : Host A) :
    (untouched config key data).Kept (roughRuns config host) where
  entered _ idle := idle.1
  stays _ _ kept := kept
  drift := by
    rintro s w _ ⟨kept, idle⟩ ⟨a, t, rfl⟩
    exact ⟨kept, idle⟩
  body := by
    intro q s w allowed ⟨kept, idle⟩
    refine Prog.wp_mono (fun _ _ _ _ h => h) (fun _ _ _ _ h => h) ?_ _ _
      (wp_process rfl (fun m hs => (idle m hs).1) (watch_request unmarked allowed kept idle))
    rintro ⟨result, s'⟩ w' performed kept'
    exact ⟨trivial, kept', performed.outside unmarked allowed kept idle⟩

theorem untouched_survives : (untouched config key data : Setting.Invariant
    (C := process config) (W := World A)).Survives none where
  idle idle := ⟨idle.1, .none _⟩
  running kept := ⟨kept, .none _⟩

/-- A manager leaves everything alone but the marker and the generation it is in, whatever
fails and wherever it is stopped. -/
theorem leaves_rest (host : Host A) : LeavesRest config host where
  kept := by
    intro s w c key open' present unmarked life
    obtain ⟨data, found⟩ := Option.isSome_iff_exists.mp
      (AList.lookup_isSome.mpr (AList.mem_keys.mpr present))
    have idle : (untouched config key data).Holds (roughRuns config host) (.idle s w) :=
      ⟨found, fun m hs => ⟨(open' m hs).1, (open' m hs).2, found⟩⟩
    have holds := (untouched_kept unmarked host).lives untouched_survives life idle
    rw [found]
    cases c with
    | idle s' w' => exact holds.1
    | running q s' start p w' => exact holds.1

end

end Waloy.Spec
