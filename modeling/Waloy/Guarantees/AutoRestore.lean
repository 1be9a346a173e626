import Waloy.Guarantees.FailedReads
import Waloy.Guarantees.LocalFiles
import Waloy.Spec.Confined

/-!
# Opening a backup that was lost locally

With `auto_restore`, `new` restores when there is no database file. The restore writes the
file before it has fetched the segments, so a `new` that fails in between leaves a file
that the next one takes for the database.
-/
namespace Waloy.Spec
open Waloy.Effect Waloy.Source Waloy.Source.BackupManager

variable {pf : Platform} (config : BackupConfig pf.build)

/-- The local files and the bucket, with the reads that were denied and the database file
at each upload, newest first. -/
structure Disk where
  bucket : Bucket
  io : Local
  uploads : List (Option Bytes)
  deriving DecidableEq

def Disk.file (d : Disk) (path : Str) : Option Bytes := d.io.files.lookup path

/-- A `new` starts with no read denied. -/
def Disk.cleared (d : Disk) : Disk := { d with io := { d.io with denied := [] } }

def Disk.upload (d : Disk) : Disk := { d with uploads := d.file config.dbPath :: d.uploads }

/-- A checkpoint moves the WAL file into the database file. -/
def Disk.settle (replay : Bytes → Bytes → Bytes) (d : Disk) : Disk :=
  { d with
    io := (d.io.write config.dbPath (replay ((d.file config.dbPath).getD [])
      (walOf config.dbPath d.io.files))).write (config.dbPath ++ ['-', 'w', 'a', 'l']) [] }

/-- The answers to `new` when every call of the bucket may fail. -/
def disk (replay : Bytes → Bytes → Bytes) : Server Calls Disk := fun d c reply d' =>
  match c, reply with
  | .putObject key data, .ok _ => d' = { d.upload config with bucket := d.bucket.insert key data }
  | .putObject key data, .error _ =>
    d' = d.upload config ∨ d' = { d.upload config with bucket := d.bucket.insert key data }
  | .tryExists path, .ok found => found = (d.file path).isSome ∧ d' = d
  | .readFile path, .ok data => d.file path = some data ∧ d' = d
  | .executeBatch _ .walCheckpointTruncate, .ok _ => d' = d.settle config replay
  | .systemTime, _ => d' = d
  | .instantNow, _ => d' = d
  | .newUuid, generation => Fresh d.bucket generation ∧ d' = d
  | .fillBytes n, bytes => bytes.length = n ∧ d' = d
  | .queryMaster _, _ => d' = d
  | c, reply => ∃ io, unreliable d.bucket d.io c reply io ∧ d' = { d with io := io }

/-- A bucket whose newest generation can be restored in full. -/
structure CompleteBackup (b : Bucket) (generation : Str) (backup : Restored) : Prop where
  latest : (object config b .latest).bind fromUtf8 = some generation
  snapshot : content config b (.snapshot generation) = some backup.snapshot
  segments : ∃ manifest, manifestAt config b generation = some manifest ∧
    segmentsData config b generation manifest.segments = some backup.wal

/-- The disks after some calls of `new` that failed, each of them a fine one. -/
inductive FailedOpenings (replay : Bytes → Bytes → Bytes) (fine : Disk → Disk → Prop)
    (start : Disk) : Disk → Prop where
  | none : FailedOpenings replay fine start start
  | again {d d' : Disk} {e : Error} (before : FailedOpenings replay fine start d)
      (failed : Op.Runs (disk config replay) (new pf config) () d.cleared (.error e) () d')
      (allowed : fine d d') : FailedOpenings replay fine start d'

/-- The next `new`: when it fails inside its restore there is no database file, when it goes
on the database is the one of the backup, and it uploads nothing with another one. -/
structure NotAdopted (replay : Bytes → Bytes → Bytes) (fine : Disk → Disk → Prop)
    (backup : Restored) (d : Disk) : Prop where
  unfilled : ∀ e d', Op.Runs (disk config replay) (restoreFirst config) () d.cleared (.error e) ()
    d' → fine d d' → d'.file config.dbPath = none
  rebuilt : ∀ d', Op.Runs (disk config replay) (restoreFirst config) () d.cleared (.ok ()) () d' →
    fine d d' → d'.file config.dbPath = some (replay backup.snapshot backup.wal)
  uploads : ∀ r d', Op.Runs (disk config replay) (new pf config) () d.cleared r () d' →
    fine d d' → ∀ db ∈ d'.uploads, db = some (replay backup.snapshot backup.wal)

/-- A failed automatic restore is retried, not adopted. -/
def RestoreRetried (replay : Bytes → Bytes → Bytes) (fine : Disk → Disk → Prop) : Prop :=
  ∀ start generation backup, CompleteBackup config start.bucket generation backup →
    start.file config.dbPath = none → start.uploads = [] →
    ∀ d, FailedOpenings config replay fine start d → NotAdopted config replay fine backup d

/-- Where there is no database file, no segment to replay is given up, what stands in for a
manifest that is given up holds the same bytes, and without a segment to replay there is no
WAL file with frames. -/
def Unharmed (d d' : Disk) : Prop :=
  d.file config.dbPath = none → ∀ generation,
    (object config d.bucket .latest).bind fromUtf8 = some generation →
    (∀ key ∈ standIn config d.bucket d'.io.denied generation,
      ¬ GaveUp d'.io.denied (getCall config key)) ∧
    keysData config d.bucket (standIn config d.bucket d'.io.denied generation) =
      keysData config d.bucket (replayed config d.bucket generation) ∧
    (standIn config d.bucket d'.io.denied generation = [] →
      Frameless (walOf config.dbPath d.io.files))

/-- The answers of a disk that denies certain reads. -/
def diskAnswer (replay : Bytes → Bytes → Bytes) (deny : Call → Bool) (d : Disk) :
    (c : Call) → Option (c.Reply × Disk)
  | .tryExists path => some (.ok (d.file path).isSome, d)
  | .executeBatch _ .walCheckpointTruncate => some (.ok (), d.settle config replay)
  | .getObject key =>
    (grudging d.bucket deny d.io (.getObject key)).map fun out => (out.1, { d with io := out.2 })
  | .list keyPrefix =>
    (grudging d.bucket deny d.io (.list keyPrefix)).map fun out => (out.1, { d with io := out.2 })
  | .sleep _ => some ((), d)
  | .writeFile path data => some (.ok (), { d with io := d.io.write path data })
  | _ => none

theorem diskAnswer_served {replay : Bytes → Bytes → Bytes} {deny : Call → Bool} {d d' : Disk}
    {c : Call} {reply : c.Reply} (h : diskAnswer config replay deny d c = some (reply, d')) :
    disk config replay d c reply d' := by
  cases c with
  | tryExists =>
    cases h
    exact ⟨rfl, rfl⟩
  | getObject | list =>
    obtain ⟨out, answered, same⟩ := Option.map_eq_some_iff.mp h
    cases same
    exact ⟨out.2, grudging_served answered, rfl⟩
  | sleep =>
    cases h
    exact ⟨_, rfl, rfl⟩
  | writeFile =>
    cases h
    exact ⟨_, rfl, rfl⟩
  | executeBatch conn batch => cases batch with
    | walCheckpointTruncate =>
      cases h
      rfl
    | _ => cases h
  | _ => cases h

/-- A frame writes its page over the database file. -/
def applyFrame (page : Nat) (db frame : Bytes) : Bytes :=
  let start := (fromBeBytes (frame.take 4) - 1) * page
  db.take start ++ List.replicate (start - db.length) 0 ++ frame.drop walFrameHeaderSize ++
    db.drop (start + page)

/-- The frames of a WAL file, written over the database file one after the other. -/
def applyFrames (db wal : Bytes) : Bytes :=
  let frameSize := walFrameHeaderSize + pageSize wal
  (List.range ((walAlignedLen wal - walHeaderSize) / frameSize)).foldl (fun db i =>
    applyFrame (pageSize wal) db ((wal.drop (walHeaderSize + i * frameSize)).take frameSize)) db

/-- A plain configuration that restores automatically. -/
def restoringConfig : BackupConfig plain.build := { plainConfig with autoRestore := true }

/-- A backup with a snapshot and one segment. -/
def oneSegmentBackup : Bucket :=
  store plainConfig (store plainConfig (store plainConfig (store plainConfig ∅ .latest
    (asBytes (uuid 0))) (.snapshot (uuid 0)) [1]) (.segment (uuid 0) 0) (walHeader 7 ++ walFrame 1))
    (.manifest (uuid 0)) (asBytes (manifestText ⟨uuid 0, 5, 5, [⟨0, 6, 0, 568⟩]⟩))

/-- The segment cannot be fetched: the snapshot is left behind as the database. -/
theorem not_restoreRetried :
    ¬ RestoreRetried restoringConfig applyFrames fun _ _ => True := by
  intro claim
  let start : Disk := ⟨oneSegmentBackup, ⟨[], []⟩, []⟩
  have complete : CompleteBackup restoringConfig oneSegmentBackup (uuid 0)
      ⟨[1], walHeader 7 ++ walFrame 1⟩ := by
    refine ⟨by decide +kernel, by decide +kernel, ⟨uuid 0, 5, 5, [⟨0, 6, 0, 568⟩]⟩, ?_, ?_⟩
    · decide +kernel
    · decide +kernel
  have fails : (Op.interp (diskAnswer restoringConfig applyFrames
      (denies (.segment (uuid 0) 0))) (restoreFirst restoringConfig) () start).any
        (fun out => match out.1.1 with
          | .error _ => out.2.file restoringConfig.dbPath ≠ none
          | .ok _ => false) = true := by decide +kernel
  obtain ⟨⟨⟨result, _⟩, d'⟩, computed, checked⟩ := (Option.any_eq_true _ _).mp fails
  cases result with
  | ok => cases checked
  | error e =>
    have run := Steps.of_interp (fun _ _ _ _ answered => diskAnswer_served restoringConfig answered)
      _ _ computed
    exact of_decide_eq_true checked
      ((claim start _ _ complete rfl rfl start .none).unfilled e d' run trivial)

/-- No restore has written anything yet. -/
structure Unrestored (start : Disk) (d : Disk) : Prop where
  bucket : d.bucket = start.bucket
  absent : d.file config.dbPath = none
  uploads : d.uploads = []

/-- The database is the one of the backup, and so it was at every upload. -/
structure Refilled (replay : Bytes → Bytes → Bytes) (backup : Restored) (d : Disk) : Prop where
  rebuilt : d.file config.dbPath = some (replay backup.snapshot backup.wal)
  uploads : ∀ db ∈ d.uploads, db = some (replay backup.snapshot backup.wal)

section
variable {config} {replay : Bytes → Bytes → Bytes} {d d' : Disk} {α : Type}

theorem disk_fetch {c : Call} {reply : c.Reply} (fetch : isFetchCall c = true)
    (served : disk config replay d c reply d') :
    ∃ io, unreliable d.bucket d.io c reply io ∧ d' = { d with io := io } := by
  cases c with
  | getObject | list | sleep | writeFile | syncFile => exact served
  | _ => cases fetch

/-- What fetches a backup runs as it does beside a bucket at rest. -/
theorem runs_fetch {x : M Unit α} {r : Except Error α}
    (uses : Op.Uses (fun c => isFetchCall c = true) x)
    (run : Op.Runs (disk config replay) x () d r () d') :
    ∃ io, Op.Runs (unreliable d.bucket) x () d.io r () io ∧ d' = { d with io := io } := by
  refine Prog.Runs.simulate (R := fun d₁ io => d₁ = { d with io := io }) run (uses ()) ?_ rfl
  rintro _ io c reply d₁ rfl fetch served
  exact disk_fetch fetch served

theorem disk_replay {c : Call} {reply : c.Reply} (replays : isReplayCall c = true)
    (other : ∀ conn, c ≠ .executeBatch conn .walCheckpointTruncate)
    (served : disk config replay d c reply d') : d' = d ∧ ¬ Failure c reply := by
  have served' : ∃ io, unreliable d.bucket d.io c reply io ∧ d' = { d with io := io } := by
    cases c with
    | syncFile | openConn | closeConn => exact served
    | executeBatch conn batch => cases batch with
      | walCheckpointTruncate => exact absurd rfl (other conn)
      | _ => exact served
    | _ => cases replays
  obtain ⟨io, answered, rfl⟩ := served'
  obtain rfl := unreliable_replay replays answered
  refine ⟨rfl, fun failed => ?_⟩
  cases c with
  | syncFile | openConn | executeBatch => cases reply with
    | ok => exact failed
    | error => exact answered
  | closeConn => exact failed
  | _ => cases replays

/-- The end of a restore moves the WAL file into the database file. -/
theorem runs_settle {r : Except Error Unit}
    (run : Op.Runs (disk config replay) (do
      orFail .io (call (.syncFile config.dbPath))
      let conn ← orFail .sqlite (call (.openConn config.dbPath))
      orFail .sqlite (call (.executeBatch conn .journalModeWal))
      orFail .sqlite (call (.executeBatch conn .walCheckpointTruncate))
      call (.closeConn conn)) () d r () d') : r = .ok () ∧ d' = d.settle config replay := by
  obtain ⟨_, _, synced, opens⟩ | ⟨e, failed, -⟩ := (runs_orFail_bind Op.runs_call).mp run
  swap
  · exact absurd trivial (disk_replay rfl (by simp) failed).2
  obtain ⟨rfl, -⟩ := disk_replay rfl (by simp) synced
  obtain ⟨conn, _, opened, configures⟩ | ⟨e, failed, -⟩ := (runs_orFail_bind Op.runs_call).mp opens
  swap
  · exact absurd trivial (disk_replay rfl (by simp) failed).2
  obtain ⟨rfl, -⟩ := disk_replay rfl (by simp) opened
  obtain ⟨_, _, configured, cuts⟩ | ⟨e, failed, -⟩ := (runs_orFail_bind Op.runs_call).mp configures
  swap
  · exact absurd trivial (disk_replay rfl (by simp) failed).2
  obtain ⟨rfl, -⟩ := disk_replay rfl (by simp) configured
  obtain ⟨_, _, cut, closes⟩ | ⟨e, failed, -⟩ := (runs_orFail_bind Op.runs_call).mp cuts
  swap
  · obtain ⟨io, answered, -⟩ := failed
    cases answered
  obtain ⟨_, closed, rfl, -⟩ := Op.runs_call.mp closes
  obtain ⟨rfl, -⟩ := disk_replay rfl (by simp) closed
  exact ⟨rfl, cut⟩

@[simp] theorem file_settle : (d.settle config replay).file config.dbPath =
    some (replay ((d.file config.dbPath).getD []) (walOf config.dbPath d.io.files)) := by
  have other : (config.dbPath == config.dbPath ++ ['-', 'w', 'a', 'l']) = false := by simp
  simp [Disk.settle, Disk.file, Local.write, List.lookup_cons, other]

/-- SQLite replays nothing from a WAL file without a complete frame. -/
def SkipsFrameless (replay : Bytes → Bytes → Bytes) : Prop :=
  ∀ db wal, Frameless wal → replay db wal = replay db []

variable {generation : Str} {backup : Restored} {r : Except Error Unit}

/-- The second half of a restore on a disk. -/
theorem runs_replayed {keys : List Str} (skips : SkipsFrameless replay)
    (run : Op.Runs (disk config replay) (replaySegments pf (S3Client.new config.s3) config
      config.dbPath keys) () d r () d') :
    GetsOnly config keys d.io d'.io ∧ ∀ wal, keysData config d.bucket keys = some wal →
      (∀ key ∈ keys, ¬ GaveUp d'.io.denied (getCall config key)) →
      (keys = [] → Frameless (walOf config.dbPath d.io.files)) →
      r = .ok () ∧ d'.file config.dbPath = some (replay ((d.file config.dbPath).getD []) wal) ∧
        d'.bucket = d.bucket ∧ d'.uploads = d.uploads := by
  unfold replaySegments at run
  by_cases empty : keys = []
  · subst empty
    rw [if_neg (by simp)] at run
    obtain ⟨rfl, rfl⟩ := runs_settle run
    refine ⟨fun _ _ => rfl, ?_⟩
    rintro wal ⟨⟩ _ bare
    exact ⟨rfl, file_settle.trans (by rw [skips _ _ (bare rfl)]), rfl, rfl⟩
  rw [if_pos empty] at run
  obtain ⟨data, _, d₁, reading, writes⟩ | ⟨e, failing, rfl⟩ := Op.runs_bind.mp run
  swap
  · obtain ⟨io, failed, rfl⟩ := runs_fetch (uses_readSegments config (fun _ h => h) _ keys) failing
    obtain ⟨-, only, missed⟩ := runs_readSegments_error failed
    refine ⟨only, fun wal held granted _ => ?_⟩
    obtain missing | ⟨key, member, gave⟩ := missed
    · cases missing.symm.trans held
    · exact absurd gave (granted key member)
  obtain ⟨io, read, rfl⟩ := runs_fetch (uses_readSegments config (fun _ h => h) _ keys) reading
  obtain ⟨held, kept, only⟩ := runs_readSegments read
  obtain ⟨_, d₂, written, syncs⟩ | ⟨e, unwritten, -⟩ := (runs_orFail_bind Op.runs_call).mp writes
  swap
  · obtain ⟨_, answered, -⟩ := unwritten
    cases answered
  obtain ⟨_, answered, rfl⟩ := written
  cases answered
  obtain ⟨_, d₃, synced, settles⟩ | ⟨e, unsynced, -⟩ := (runs_orFail_bind Op.runs_call).mp syncs
  swap
  · exact absurd trivial (disk_replay rfl (by simp) unsynced).2
  obtain ⟨rfl, -⟩ := disk_replay rfl (by simp) synced
  obtain ⟨rfl, rfl⟩ := runs_settle settles
  have other : (config.dbPath == config.dbPath ++ ['-', 'w', 'a', 'l']) = false := by simp
  refine ⟨only, fun wal held' _ _ => ⟨rfl, file_settle.trans ?_, rfl, rfl⟩⟩
  cases held.symm.trans held'
  simp [Disk.file, Local.write, walOf, List.lookup_cons, other, kept]

/-- A restore in which nothing is missed leaves no database file or the one of the backup. -/
theorem runs_restored (skips : SkipsFrameless replay)
    (complete : CompleteBackup config d.bucket generation backup) (fresh : d.io.denied = [])
    (absent : d.file config.dbPath = none) (unharmed : Unharmed config d d')
    (run : Op.Runs (disk config replay) (restoreWithConfig pf config config.dbPath) () d r () d') :
    d'.bucket = d.bucket ∧ d'.uploads = d.uploads ∧
      ((∃ e, r = .error e) ∧ d'.io.files = d.io.files ∨
        r = .ok () ∧ d'.file config.dbPath = some (replay backup.snapshot backup.wal)) := by
  have count : ∀ c, d.io.denied.count c = 0 := by simp [fresh]
  obtain ⟨granted, same, bare⟩ := unharmed absent generation complete.latest
  obtain ⟨result, _, d₁, getting, rest⟩ := Op.runs_bind_attempt.mp run
  obtain ⟨io₁, got, rfl⟩ := runs_fetch (uses_getObject (fun _ h => h) _ _) getting
  obtain ⟨times, tried, ⟨e, rfl⟩ | ⟨genBytes, rfl, marked⟩⟩ := runs_getObject config got
  · obtain ⟨rfl, -, rfl⟩ := Op.runs_throw.mp rest
    exact ⟨rfl, rfl, .inl ⟨⟨_, rfl⟩, tried.files⟩⟩
  have named : fromUtf8 genBytes = some generation := by
    have latest := complete.latest
    have marked' : object config d.bucket .latest = some genBytes := marked
    rwa [marked', Option.bind_some] at latest
  simp only [named] at rest
  obtain ⟨_, _, d₂, writing, selects⟩ | ⟨e, failing, rfl⟩ := Op.runs_bind.mp rest
  swap
  · obtain ⟨io₂, failed, rfl⟩ := runs_fetch (uses_writeSnapshot config (fun _ h => h) _ _ _) failing
    have files := runs_writeSnapshot_error failed
    exact ⟨rfl, rfl, .inl ⟨⟨e, rfl⟩, files.trans tried.files⟩⟩
  obtain ⟨io₂, wrote, rfl⟩ := runs_fetch (uses_writeSnapshot config (fun _ h => h) _ _ _) writing
  obtain ⟨snapshot, snap, files₂, only₂⟩ := runs_writeSnapshot wrote
  cases snap.symm.trans complete.snapshot
  have other : ∀ {o o' : Object}, o ≠ o' → getCall config o.key ≠ getCall config o'.key :=
    fun differ same => differ (Object.key_injective (getCall_inj.mp same))
  have freshGet : io₂.denied.count (getCall config (Object.manifest generation).key) = 0 := by
    rw [only₂ _ (by simpa using other (by simp)), tried.others (other (by simp)), count]
  have freshList : io₂.denied.count (listCall config (walDirectory generation)) = 0 := by
    rw [only₂ _ (by simp [listCall, getCall]), tried.others (by simp [listCall, getCall]), count]
  have picked : ∀ {keys : Except Error (List Str)} {d₃ : Disk},
      Op.Runs (disk config replay) (segmentKeysFromManifest pf (S3Client.new config.s3) config
        generation) () { d with io := io₂ } keys () d₃ →
      ∃ io₃, d₃ = { d with io := io₃ } ∧
        keys = .ok (standIn config d.bucket io₃.denied generation) ∧ io₃.files = io₂.files := by
    intro keys d₃ picking
    obtain ⟨io₃, picks, rfl⟩ :=
      runs_fetch (uses_segmentKeysFromManifest config (fun _ h => h) _ _) picking
    exact ⟨io₃, rfl, runs_segmentKeys freshGet freshList picks⟩
  obtain ⟨keys, _, d₃, picks, replays⟩ | ⟨e, failed, -⟩ := Op.runs_bind.mp selects
  swap
  · obtain ⟨_, -, same, -⟩ := picked failed
    cases same
  obtain ⟨io₃, rfl, ok, files₃⟩ := picked picks
  obtain rfl := Except.ok.inj ok
  obtain ⟨only₄, outcome⟩ := runs_replayed skips replays
  have lasting : standIn config d.bucket d'.io.denied generation =
      standIn config d.bucket io₃.denied generation := standIn_lasting only₄
  rw [lasting] at granted same bare
  have held : keysData config d.bucket (standIn config d.bucket io₃.denied generation) =
      some backup.wal := by
    obtain ⟨manifest, listed, held⟩ := complete.segments
    rw [same, replayed, listed, keysData_segments, held]
  have before : io₃.files = (config.dbPath, backup.snapshot) :: d.io.files := by
    rw [files₃, files₂, tried.files]
  have leftover : walOf config.dbPath io₃.files = walOf config.dbPath d.io.files := by
    have apart : (config.dbPath ++ ['-', 'w', 'a', 'l'] == config.dbPath) = false := by simp
    simp [walOf, before, List.lookup_cons, apart]
  obtain ⟨rfl, restored, bucket, uploads⟩ :=
    outcome backup.wal held granted fun empty => leftover ▸ bare empty
  refine ⟨bucket, uploads, .inr ⟨rfl, restored.trans ?_⟩⟩
  simp [Disk.file, before]

/-- The calls of `connect`. -/
def isUpload (c : Call) : Prop :=
  isLocalCall c = true ∨ (∃ conn batch, batch ≠ .walCheckpointTruncate ∧ c = .executeBatch conn batch) ∨
    c = .systemTime ∨ c = .newUuid ∨ ∃ key data, c = .putObject key data

theorem permits_isUpload : PermitsUploads config isUpload where
  quiet _ quiet := .inl quiet
  batch _ _ other := .inr (.inl ⟨_, _, other, rfl⟩)
  time := .inr (.inr (.inl rfl))
  id := .inr (.inr (.inr (.inl rfl)))
  put _ _ := .inr (.inr (.inr (.inr ⟨_, _, rfl⟩)))

theorem disk_local {c : Call} {reply : c.Reply} (local_call : isLocalCall c = true)
    (served : disk config replay d c reply d') : d' = d := by
  cases c with
  | syncFile | openConn | closeConn => exact (disk_replay rfl (by simp) served).1
  | sleep =>
    obtain ⟨io, rfl, same⟩ := served
    exact same
  | instantNow => exact served
  | queryMaster => exact served
  | fillBytes => exact served.2
  | tryExists | readFile => cases reply with
    | ok => exact served.2
    | error =>
      obtain ⟨io, impossible, -⟩ := served
      cases impossible
  | _ => cases local_call

/-- An upload takes place with the database file as it is. -/
theorem disk_upload {c : Call} {reply : c.Reply} (upload : isUpload c)
    (served : disk config replay d c reply d') :
    d'.io = d.io ∧ ∀ db ∈ d'.uploads, db ∈ d.uploads ∨ db = d.file config.dbPath := by
  have still : d' = d → d'.io = d.io ∧
      ∀ db ∈ d'.uploads, db ∈ d.uploads ∨ db = d.file config.dbPath := by
    rintro rfl
    exact ⟨rfl, fun _ member => .inl member⟩
  obtain local_call | ⟨conn, batch, other, rfl⟩ | rfl | rfl | ⟨key, data, rfl⟩ := upload
  · exact still (disk_local local_call served)
  · exact still (disk_replay rfl (by simpa using other) served).1
  · exact still served
  · exact still served.2
  · have uploads : ∀ db ∈ (d.upload config).uploads, db ∈ d.uploads ∨ db = d.file config.dbPath := by
      intro db member
      exact (List.mem_cons.mp member).symm
    cases reply with
    | ok =>
      cases served
      exact ⟨rfl, uploads⟩
    | error =>
      obtain rfl | rfl := served
      · exact ⟨rfl, uploads⟩
      · exact ⟨rfl, uploads⟩

/-- The rest of `new` leaves the local files and uploads with the database file it found. -/
theorem runs_connect {s : Except Error (BackupManager pf.build)}
    (run : Op.Runs (disk config replay) (connect config) () d s () d') :
    d'.io = d.io ∧ ∀ db ∈ d'.uploads, db ∈ d.uploads ∨ db = d.file config.dbPath := by
  refine (Op.Within.runs (J := fun d₁ : Disk => d₁.io = d.io ∧
    ∀ db ∈ d₁.uploads, db ∈ d.uploads ∨ db = d.file config.dbPath) ?_ (within_connect permits_isUpload) trivial
      ⟨rfl, fun _ member => .inl member⟩ run).2
  rintro d₁ c reply d₂ ⟨same, uploads⟩ upload served
  obtain ⟨same', uploads'⟩ := disk_upload upload served
  refine ⟨same'.trans same, fun db member => ?_⟩
  obtain before | now := uploads' db member
  · exact uploads db before
  · rw [now, Disk.file, same]
    exact .inr rfl

/-- With a database file, `new` does not restore. -/
theorem runs_restoreFirst_present (auto : config.autoRestore = true)
    (present : (d.file config.dbPath).isSome = true)
    (run : Op.Runs (disk config replay) (restoreFirst config) () d r () d') : r = .ok () ∧ d' = d := by
  unfold restoreFirst at run
  rw [if_pos auto] at run
  obtain ⟨reply, d₁, found, rest⟩ := Op.runs_bind_call.mp run
  cases reply with
  | error e =>
    obtain ⟨io, impossible, -⟩ := found
    cases impossible
  | ok found' =>
    obtain ⟨rfl, rfl⟩ := found
    rw [present, if_neg (by simp)] at rest
    obtain ⟨rfl, -, rfl⟩ := Op.runs_pure.mp rest
    exact ⟨rfl, rfl⟩

/-- Without one, it does. -/
theorem runs_restoreFirst_absent (auto : config.autoRestore = true)
    (absent : d.file config.dbPath = none)
    (run : Op.Runs (disk config replay) (restoreFirst config) () d r () d') :
    Op.Runs (disk config replay) (restoreWithConfig pf config config.dbPath) () d r () d' := by
  unfold restoreFirst at run
  rw [if_pos auto] at run
  obtain ⟨reply, d₁, found, rest⟩ := Op.runs_bind_call.mp run
  cases reply with
  | error e =>
    obtain ⟨io, impossible, -⟩ := found
    cases impossible
  | ok found' =>
    obtain ⟨rfl, rfl⟩ := found
    rw [absent, if_pos (by simp)] at rest
    exact rest

variable {start : Disk} (auto : config.autoRestore = true) (skips : SkipsFrameless replay)
  (complete : CompleteBackup config start.bucket generation backup)
include auto skips complete

/-- The restore of a `new` that misses nothing. -/
theorem restoreFirst_outcome
    (state : Unrestored config start d ∨ Refilled config replay backup d)
    (unharmed : Unharmed config d d')
    (run : Op.Runs (disk config replay) (restoreFirst config) () d.cleared r () d') :
    (∃ e, r = .error e) ∧ Unrestored config start d' ∨
      r = .ok () ∧ Refilled config replay backup d' := by
  obtain ⟨bucket, absent, uploads⟩ | ⟨rebuilt, uploads⟩ := state
  · have complete' : CompleteBackup config d.cleared.bucket generation backup := bucket ▸ complete
    have absent' : d.cleared.file config.dbPath = none := absent
    obtain ⟨bucket', uploads', ⟨failed, files⟩ | ⟨rfl, restored⟩⟩ := runs_restored skips complete'
      rfl absent' unharmed (runs_restoreFirst_absent auto absent' run)
    · refine .inl ⟨failed, bucket'.trans bucket, ?_, uploads'.trans uploads⟩
      rw [Disk.file, files]
      exact absent
    · refine .inr ⟨rfl, restored, fun db member => ?_⟩
      rw [uploads', show d.cleared.uploads = [] from uploads] at member
      cases member
  · have present : (d.cleared.file config.dbPath).isSome = true := by
      rw [show d.cleared.file config.dbPath = some _ from rebuilt]
      rfl
    obtain ⟨rfl, rfl⟩ := runs_restoreFirst_present auto present run
    exact .inr ⟨rfl, rebuilt, uploads⟩

/-- A `new` that misses nothing. -/
theorem new_outcome {s : Except Error (BackupManager pf.build)}
    (state : Unrestored config start d ∨ Refilled config replay backup d)
    (unharmed : Unharmed config d d')
    (run : Op.Runs (disk config replay) (new pf config) () d.cleared s () d') :
    Unrestored config start d' ∨ Refilled config replay backup d' := by
  rw [new_eq, Op.runs_bind] at run
  obtain ⟨_, _, d₁, restores, connects⟩ | ⟨e, restores, -⟩ := run
  · obtain ⟨io, uploads⟩ := runs_connect connects
    have unharmed₁ : Unharmed config d d₁ := by
      unfold Unharmed at unharmed ⊢
      rwa [← io]
    obtain ⟨⟨_, impossible⟩, -⟩ | ⟨-, refilled⟩ :=
      restoreFirst_outcome auto skips complete state unharmed₁ restores
    · cases impossible
    refine .inr ⟨?_, fun db member => ?_⟩
    · rw [Disk.file, io]
      exact refilled.rebuilt
    · obtain before | now := uploads db member
      · exact refilled.uploads db before
      · rw [now, refilled.rebuilt]
  · obtain ⟨-, unrestored⟩ | ⟨impossible, -⟩ :=
      restoreFirst_outcome auto skips complete state unharmed restores
    · exact .inl unrestored
    · cases impossible

theorem failedOpenings_state (absent : start.file config.dbPath = none) (uploads : start.uploads = [])
    (failures : FailedOpenings config replay (Unharmed config) start d) :
    Unrestored config start d ∨ Refilled config replay backup d := by
  induction failures with
  | none => exact .inl ⟨rfl, absent, uploads⟩
  | again before failed allowed ih => exact new_outcome auto skips complete ih allowed failed

end

/-- Where no call of `new` misses a read after it has written the snapshot, a failed automatic
restore is retried, not adopted. -/
theorem restore_retried {replay : Bytes → Bytes → Bytes} (auto : config.autoRestore = true)
    (skips : SkipsFrameless replay) : RestoreRetried config replay (Unharmed config) := by
  intro start generation backup complete absent uploads d failures
  have state := failedOpenings_state auto skips complete absent uploads failures
  constructor
  case unfilled =>
    intro e d' run unharmed
    obtain ⟨-, unrestored⟩ | ⟨impossible, -⟩ :=
      restoreFirst_outcome auto skips complete state unharmed run
    · exact unrestored.absent
    · cases impossible
  case rebuilt =>
    intro d' run unharmed
    obtain ⟨⟨_, impossible⟩, -⟩ | ⟨-, refilled⟩ :=
      restoreFirst_outcome auto skips complete state unharmed run
    · cases impossible
    · exact refilled.rebuilt
  case uploads =>
    intro r d' run unharmed db member
    obtain unrestored | refilled := new_outcome auto skips complete state unharmed run
    · rw [unrestored.uploads] at member
      cases member
    · exact refilled.uploads db member

theorem applyFrames_frameless : SkipsFrameless applyFrames := by
  intro db wal frameless
  have none_left : walAlignedLen wal - walHeaderSize = 0 := Nat.sub_eq_zero_of_le frameless
  have none_empty : walAlignedLen [] - walHeaderSize = 0 := rfl
  simp only [applyFrames, none_left, none_empty, Nat.zero_div, List.range_zero, List.foldl_nil]

theorem restore_retried_plain :
    RestoreRetried restoringConfig applyFrames (Unharmed restoringConfig) :=
  restore_retried restoringConfig rfl applyFrames_frameless

end Waloy.Spec
