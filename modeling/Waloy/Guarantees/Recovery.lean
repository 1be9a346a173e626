import Waloy.Guarantees.AutoRestore
import Waloy.Guarantees.Healing

/-!
# A database that outlives its disks

A process backs up its database and loses all its files between two operations. The next one
restores them when it opens, which fails only where a call does, and goes on from there, and so
on, any number of times. What is handed on is the database file with the synced part of the WAL
file replayed, and every one of these processes has its own files in the bucket, in the runs of the
round trip. How SQLite replays a WAL file is left open.
-/
namespace Waloy.Spec
open Waloy.Effect Waloy.Source Waloy.Source.BackupManager

variable {pf : Platform} (config : BackupConfig pf.build) (replay : Bytes → Bytes → Bytes)

/-- A host with a disk: what is written is there, and a checkpoint moves the WAL file into the
database file. -/
structure DiskBacked (host : Host Local) : Prop where
  db : ∀ io, host.db io = io.files.lookup config.dbPath
  wal : ∀ io, host.wal io = io.files.lookup (config.dbPath ++ ['-', 'w', 'a', 'l'])
  installed : ∀ {io path data io'}, host.installed io path data io' → io' = io.write path data
  truncated : ∀ {io io'}, host.truncated io io' →
    io' = (Disk.settle config replay ⟨∅, io, []⟩).io

/-- No call fails but a get of what is not there. -/
def missesOnly {A : Type} (w : World A) (c : Call) (reply : c.Reply) : Prop :=
  Failure c reply → ∃ key, c = .getObject key ∧ w.bucket.lookup key = none

/-- The host while the application has not started. -/
def Host.unused {A : Type} (host : Host A) : Host A :=
  { host with
    during := (· = ·)
    during_refl := fun _ => rfl
    during_trans := Eq.trans }

/-- The answers to a `new` that comes before the application. -/
def opener (host : Host Local) : Env Local :=
  ⟨{ host.unused with dbPath := config.dbPath },
    fun w c reply => missesOnly w c reply ∧ decodesWell config c⟩

/-- A process that opens the backup with a disk that holds nothing. -/
def Reopens (host : Host Local) (b : Bucket) (m : BackupManager pf.build) (w : World Local) :
    Prop :=
  ∃ t, Op.Runs (opener config host).serve (new pf config) () ⟨b, ⟨[], []⟩, t, []⟩ (.ok m) () w

/-- Processes that follow each other, each with what the one before has left in the bucket. -/
inductive Lineage (host : Host Local) : BackupManager pf.build → World Local → Prop where
  | first {b : Bucket} {io : Local} {t streak : Nat} {m : BackupManager pf.build} {w : World Local}
      (run : (sharedRuns config host).Reach (.idle none (⟨b, io, t, []⟩, 0))
        (.idle (some m) (w, streak))) : Lineage host m w
  | next {m m₁ m' : BackupManager pf.build} {w w₁ w' : World Local} {streak : Nat}
      (before : Lineage host m w) (reopens : Reopens config host w.bucket m₁ w₁)
      (run : (sharedRuns config host).Reach (.idle (some m₁) (w₁, 0))
        (.idle (some m') (w', streak))) : Lineage host m' w'

/-- What every process of a lineage has backed up, and what the next one makes of it. -/
structure OutlivesDisks (host : Host Local) : Prop where
  backed : ∀ {m w} (path : Str), Lineage config host m w →
    ∃ db, host.db w.app = some db ∧ restoredLatest config w.bucket path =
      some ⟨db, (host.walBytes w.app).take m.walOffset⟩
  handed : ∀ {m w t r w'}, Lineage config host m w →
    Op.Runs (opener config host).serve (new pf config) () ⟨w.bucket, ⟨[], []⟩, t, []⟩ r () w' →
    ∃ m' db, r = .ok m' ∧ host.db w.app = some db ∧
      host.db w'.app = some (replay db ((host.walBytes w.app).take m.walOffset))

section
variable {config} {replay} {host : Host Local} {b : Bucket} {w w' : World Local} {d : Disk}
  {m : BackupManager pf.build}

/-! Opening the backup after a loss. -/

theorem Reopens.mends (codec : Codec config) (reopens : Reopens config host b m w) :
    (saving config host.undisturbed.appending).idle (some m) w := by
  obtain ⟨t, run⟩ := reopens
  let any : Env Local := ⟨{ host.undisturbed with dbPath := config.dbPath },
    fun _ c _ => decodesWell config c⟩
  have more : ∀ v c reply v', (opener config host).serve v c reply v' → any.serve v c reply v' := by
    rintro v c reply v' ⟨_, rfl, allowed, acts⟩
    exact ⟨_, any.host.during_refl _, allowed.2, acts⟩
  have opens : Prog.Runs any.serve (opening config) ⟨b, ⟨[], []⟩, t, []⟩ (.ok .unit, some m) w :=
    Prog.runs_bind.mpr ⟨_, _, Prog.Runs.mono more run, Prog.runs_pure.mpr ⟨rfl, rfl⟩⟩
  have steps : Steps ((wreckedRuns config host).serve .new none)
      ((process config).body .new none, ⟨b, ⟨[], []⟩, t, []⟩) (.pure (.ok .unit, some m), w) :=
    opens
  have run : (wreckedRuns config host).Reach (.idle none ⟨b, ⟨[], []⟩, t, []⟩)
      (.running .new none ⟨b, ⟨[], []⟩, t, []⟩ (.pure (.ok .unit, some m)) w) :=
    .head (.issue trivial) (Setting.Reach.of_steps steps)
  exact wrecked_mends codec run.lives rfl

/-- The disk of a world. -/
structure DiskOf (w : World Local) (d : Disk) : Prop where
  bucket : d.bucket = w.bucket
  io : d.io = w.app
  denied : d.io.denied = []

/-- What is answered to a restore in the world is answered on its disk. -/
theorem opener_served (disk : DiskBacked config replay host) {c : Call} {reply : c.Reply}
    (calls : isFetchCall c = true ∨ isReplayCall c = true) (same : DiskOf w d)
    (served : (opener config host).serve w c reply w') :
    ∃ d', Waloy.Spec.disk config replay d c reply d' ∧ DiskOf w' d' := by
  obtain ⟨_, rfl, ⟨sound, -⟩, acts⟩ := served
  obtain ⟨bucket, io, uploads⟩ := d
  obtain ⟨rfl, rfl, denied⟩ := same
  cases c with
  | getObject key =>
    cases reply with
    | ok =>
      obtain ⟨found, rfl⟩ := acts
      exact ⟨_, ⟨_, ⟨found, rfl⟩, rfl⟩, rfl, rfl, denied⟩
    | error =>
      obtain ⟨_, ⟨⟩, missing⟩ := sound trivial
      obtain rfl := acts
      exact ⟨_, ⟨_, .inl ⟨missing, rfl⟩, rfl⟩, rfl, rfl, denied⟩
  | list =>
    cases reply with
    | ok =>
      obtain ⟨pages, rfl⟩ := acts
      exact ⟨_, ⟨_, ⟨pages, rfl⟩, rfl⟩, rfl, rfl, denied⟩
    | error =>
      obtain ⟨_, ⟨⟩, -⟩ := sound trivial
  | sleep | closeConn =>
    obtain rfl := acts
    exact ⟨_, ⟨_, rfl, rfl⟩, rfl, rfl, denied⟩
  | writeFile path data =>
    cases reply with
    | ok =>
      obtain ⟨_, installed, rfl⟩ := acts
      obtain rfl := disk.installed installed
      exact ⟨_, ⟨_, rfl, rfl⟩, rfl, rfl, denied⟩
    | error =>
      obtain ⟨_, ⟨⟩, -⟩ := sound trivial
  | syncFile | openConn =>
    cases reply with
    | ok =>
      obtain rfl := acts
      exact ⟨_, ⟨_, rfl, rfl⟩, rfl, rfl, denied⟩
    | error =>
      obtain ⟨_, ⟨⟩, -⟩ := sound trivial
  | executeBatch conn batch =>
    cases reply with
    | error =>
      obtain ⟨_, ⟨⟩, -⟩ := sound trivial
    | ok =>
      cases batch with
      | walCheckpointTruncate =>
        obtain ⟨_, truncated, rfl⟩ := acts
        obtain rfl := disk.truncated truncated
        exact ⟨_, rfl, rfl, rfl, denied⟩
      | _ =>
        obtain rfl := acts
        exact ⟨_, ⟨_, rfl, rfl⟩, rfl, rfl, denied⟩
  | _ => simp [isFetchCall, isReplayCall] at calls

/-- What comes after the restore leaves the local files alone. -/
theorem connect_leaves {r : Except Error (BackupManager pf.build)}
    (run : Op.Runs (opener config host).serve (connect config) () w r () w') : w'.app = w.app := by
  refine (Op.Within.runs (J := fun v : World Local => v.app = w.app) ?_
    (within_connect permits_isUpload) trivial rfl run).2
  rintro v c reply v' same upload ⟨_, rfl, -, acts⟩
  have still : isQuiet c = true → v'.app = w.app := by
    intro quiet
    rw [acts.quiet quiet]
    exact same
  obtain localCall | ⟨conn, batch, other, rfl⟩ | rfl | rfl | ⟨key, data, rfl⟩ := upload
  · refine still ?_
    cases c with
    | putObject | getObject | deleteObject | list | newUuid | systemTime => cases localCall
    | writeFile | executeBatch => cases localCall
    | _ => rfl
  · exact still (by simpa [isQuiet] using other)
  · obtain ⟨-, rfl⟩ := acts
    exact same
  · obtain ⟨-, rfl⟩ := acts
    exact same
  · cases reply with
    | ok =>
      obtain rfl := acts
      exact same
    | error => obtain rfl | rfl := acts <;> exact same

/-- Where no read was denied, a restore reads what is listed. -/
theorem standIn_granted (generation : Str) :
    standIn config b [] generation = replayed config b generation := by
  have granted : ∀ c, ¬ GaveUp [] c := by simp [GaveUp]
  unfold standIn replayed
  rw [if_neg (granted _), if_neg (granted _)]
  rfl

theorem unharmed_of_lost {d₀ : Disk} (lost : d₀.io.files = []) (granted : d.io.denied = []) :
    Unharmed config d₀ d := by
  intro _ generation _
  rw [granted, standIn_granted, lost]
  refine ⟨?_, rfl, ?_⟩
  · intro key _ gaveUp
    simp [GaveUp] at gaveUp
  · intro _
    change walAlignedLen [] ≤ walHeaderSize
    decide

/-- A process that opens the backup after a loss has the database of the backup. -/
theorem Reopens.hands {generation : Str} {backup : Restored} (auto : config.autoRestore = true)
    (skips : SkipsFrameless replay) (disk : DiskBacked config replay host)
    (complete : CompleteBackup config b generation backup) (reopens : Reopens config host b m w) :
    host.db w.app = some (replay backup.snapshot backup.wal) := by
  obtain ⟨t, run⟩ := reopens
  rw [new_eq] at run
  obtain ⟨_, _, w₁, restores, connects⟩ | ⟨e, -, impossible⟩ := Op.runs_bind.mp run
  swap
  · cases impossible
  unfold restoreFirst at restores
  rw [if_pos auto] at restores
  obtain ⟨reply, w₂, ⟨_, rfl, ⟨sound, -⟩, acts⟩, rest⟩ := Op.runs_bind_call.mp restores
  obtain e | found := reply
  · obtain ⟨_, ⟨⟩, -⟩ := sound trivial
  obtain ⟨exists', -, rfl⟩ := acts
  -- There is no database file, so `new` restores.
  have missing : found = false := (exists' rfl).trans (congrArg Option.isSome (disk.db _))
  subst missing
  rw [if_pos (by simp)] at rest
  have uses : Op.Uses (fun c => isFetchCall c = true ∨ isReplayCall c = true)
      (restoreWithConfig pf config config.dbPath) :=
    uses_restoreLatest config (fun _ h => .inl h) (fun _ h => .inr h) _ _
  -- The same restore on a disk without the rest of the world, which denies nothing.
  let lost : Disk := ⟨b, ⟨[], []⟩, []⟩
  obtain ⟨d₁, ran, bucket, io, granted⟩ := Prog.Runs.simulate rest (uses ())
    (fun _ _ _ _ _ same calls served => opener_served disk calls same served)
    (⟨rfl, rfl, rfl⟩ : DiskOf ⟨b, ⟨[], []⟩, t, []⟩ lost)
  have unharmed : Unharmed config lost d₁ := unharmed_of_lost rfl granted
  obtain ⟨-, -, ⟨⟨_, ⟨⟩⟩, -⟩ | ⟨-, restored⟩⟩ :=
    runs_restored skips complete rfl rfl unharmed ran
  rw [connect_leaves connects, disk.db, ← io]
  exact restored

/-! A process that opens a complete backup does not fail. -/

/-- An operation that leaves the bucket alone and does not fail. -/
abbrev Succeeds (config : BackupConfig pf.build) (host : Host Local) (b : Bucket) {α : Type}
    (x : M Unit α) (P : α → Prop) : Prop :=
  ∀ w : World Local, w.bucket = b → Op.wp (opener config host).serve (watch anyChange) x
    (fun value _ w' => P value ∧ w'.bucket = b) (fun _ _ _ => False) () w

section
variable {α β : Type} {x : M Unit α} {P : α → Prop} {Q : β → Prop} {value : α}

theorem Succeeds.bind {f : α → M Unit β} (hx : Succeeds config host b x P)
    (hf : ∀ value, P value → Succeeds config host b (f value) Q) :
    Succeeds config host b (x >>= f) Q := by
  intro w same
  refine (Op.wp_bind x f).mpr (Op.wp_mono (hx w same) ?_ fun _ _ _ => id)
  rintro value _ w' ⟨good, same'⟩
  exact hf value good w' same'

theorem Succeeds.attempt (hx : Succeeds config host b x P) :
    Succeeds config host b (Op.attempt x) fun r => ∃ value, r = .ok value ∧ P value := by
  intro w same
  refine (Op.wp_attempt _).mpr (Op.wp_mono (hx w same) ?_ fun _ _ _ => False.elim)
  rintro value _ w' ⟨good, same'⟩
  exact ⟨⟨value, rfl, good⟩, same'⟩

theorem succeeds_pure (good : P value) : Succeeds config host b (pure value) P :=
  fun _ same => ⟨good, same⟩

theorem succeeds_ofExcept {r : Except Error α} (h : r.toOption = some value) :
    Succeeds config host b (Op.ofExcept r) (· = value) := by
  cases r with
  | error e => cases h
  | ok other => exact succeeds_pure (Option.some.inj h)

theorem succeeds_getObject {key : Str} {data : Bytes}
    (found : b.lookup ((S3Client.new config.s3).fullKey key) = some data) :
    Succeeds config host b ((S3Client.new config.s3).getObject key) (· = data) := by
  rintro w rfl
  refine wp_getObject _ _ trivial ?_ ?_
  · intro a data' _ found'
    exact ⟨Option.some.inj (found'.symm.trans found), rfl⟩
  · rintro ⟨v, e, same, sound, -⟩
    obtain ⟨_, ⟨⟩, missing⟩ := sound trivial
    rw [same, found] at missing
    cases missing

theorem sure_of_missesOnly {A : Type} {w : World A} {c : Call} {reply : c.Reply}
    (other : ∀ key, c ≠ .getObject key) (sound : missesOnly w c reply) : ¬ Failure c reply := by
  intro failure
  obtain ⟨key, rfl, -⟩ := sound failure
  exact other key rfl

theorem succeeds_call {c : Call} (other : ∀ key, c ≠ .getObject key)
    (still : ∀ b₁ reply b₂, Bucketed b₁ c reply b₂ → b₂ = b₁) :
    Succeeds config host b (call c) fun reply => ¬ Failure c reply := by
  intro w same
  refine Op.wp_call.mpr ?_
  rintro reply w' ⟨a, -, ⟨sound, -⟩, acts⟩
  exact ⟨trivial, sure_of_missesOnly other sound, (still _ _ _ acts.bucketed).trans same⟩

theorem succeeds_orFail {wrap : String → Error} {y : M Unit (Except String α)}
    {P : Except String α → Prop} (hy : Succeeds config host b y P)
    (never : ∀ e, ¬ P (.error e)) :
    Succeeds config host b (orFail wrap y) fun _ => True := by
  refine hy.bind ?_
  rintro (e | value) good
  · exact absurd good (never e)
  · exact succeeds_pure trivial

end

theorem succeeds_writeFile (path : Str) (data : Bytes) :
    Succeeds config host b (orFail .io (call (.writeFile path data))) fun _ => True :=
  succeeds_orFail (succeeds_call (fun _ => Call.noConfusion) fun _ _ _ => id)
    fun _ sure => sure trivial

theorem succeeds_syncFile (path : Str) :
    Succeeds config host b (orFail .io (call (.syncFile path))) fun _ => True :=
  succeeds_orFail (succeeds_call (fun _ => Call.noConfusion) fun _ _ _ => id)
    fun _ sure => sure trivial

theorem succeeds_openConn (path : Str) :
    Succeeds config host b (orFail .sqlite (call (.openConn path))) fun _ => True :=
  succeeds_orFail (succeeds_call (fun _ => Call.noConfusion) fun _ _ _ => id)
    fun _ sure => sure trivial

theorem succeeds_executeBatch (conn : Conn) (batch : Batch) :
    Succeeds config host b (orFail .sqlite (call (.executeBatch conn batch))) fun _ => True :=
  succeeds_orFail (succeeds_call (fun _ => Call.noConfusion) fun _ _ _ => id)
    fun _ sure => sure trivial

theorem succeeds_writeSnapshot {generation path : Str} {snapshot : Bytes}
    (held : content config b (.snapshot generation) = some snapshot) :
    Succeeds config host b (writeSnapshot pf (S3Client.new config.s3) config path generation)
      fun _ => True := by
  obtain ⟨raw, found, decodes⟩ := Option.bind_eq_some_iff.mp held
  refine (succeeds_getObject found).bind ?_
  rintro _ rfl
  exact (succeeds_ofExcept decodes).bind fun _ _ => succeeds_writeFile _ _

theorem succeeds_segmentKeys {generation : Str} {manifest : GenerationManifest}
    (listed : manifestAt config b generation = some manifest) :
    Succeeds config host b (segmentKeysFromManifest pf (S3Client.new config.s3) config generation)
      (· = manifest.segments.map fun s => (Object.segment generation s.index).key) := by
  obtain ⟨raw, found, decodes⟩ := Option.bind_eq_some_iff.mp listed
  refine (succeeds_getObject found).attempt.bind ?_
  rintro _ ⟨_, rfl, rfl⟩
  simp only [eq_ok_of_toOption decodes]
  exact succeeds_pure rfl

theorem succeeds_readSegments {keys : List Str} {data : Bytes}
    (held : keysData config b keys = some data) :
    Succeeds config host b (readSegments pf (S3Client.new config.s3) config keys)
      fun _ => True := by
  induction keys generalizing data with
  | nil => exact succeeds_pure trivial
  | cons key keys ih =>
    obtain ⟨raw, found, later⟩ := Option.bind_eq_some_iff.mp held
    obtain ⟨decoded, decodes, rest⟩ := Option.bind_eq_some_iff.mp later
    obtain ⟨others, held', -⟩ := Option.bind_eq_some_iff.mp rest
    refine (succeeds_getObject found).bind ?_
    rintro _ rfl
    refine (succeeds_ofExcept decodes).bind fun _ _ => ?_
    exact (ih held').bind fun _ _ => succeeds_pure trivial

theorem succeeds_replaySegments {keys : List Str} {path : Str} {data : Bytes}
    (held : keysData config b keys = some data) :
    Succeeds config host b (replaySegments pf (S3Client.new config.s3) config path keys)
      fun _ => True := by
  have replays : Succeeds config host b (do
      orFail .io (call (.syncFile path))
      let conn ← orFail .sqlite (call (.openConn path))
      orFail .sqlite (call (.executeBatch conn .journalModeWal))
      orFail .sqlite (call (.executeBatch conn .walCheckpointTruncate))
      call (.closeConn conn)) fun _ => True := by
    refine (succeeds_syncFile path).bind fun _ _ => (succeeds_openConn path).bind fun conn _ => ?_
    refine (succeeds_executeBatch conn _).bind fun _ _ => ?_
    refine (succeeds_executeBatch conn _).bind fun _ _ => ?_
    intro w same
    exact Op.wp_mono (succeeds_call (fun _ => Call.noConfusion) (fun _ _ _ => id) w same)
      (fun _ _ _ h => ⟨trivial, h.2⟩) fun _ _ _ => id
  unfold replaySegments
  split
  · refine (succeeds_readSegments held).bind fun _ _ => ?_
    exact (succeeds_writeFile _ _).bind fun _ _ => (succeeds_syncFile _).bind fun _ _ => replays
  · exact replays

theorem succeeds_restore {generation path : Str} {backup : Restored}
    (complete : CompleteBackup config b generation backup) :
    Succeeds config host b (restoreWithConfig pf config path) fun _ => True := by
  obtain ⟨latest, snapshot, manifest, listed, segments⟩ := complete
  obtain ⟨raw, found, named⟩ := Option.bind_eq_some_iff.mp latest
  refine (succeeds_getObject found).attempt.bind ?_
  rintro _ ⟨_, rfl, rfl⟩
  simp only [named]
  refine (succeeds_writeSnapshot snapshot).bind fun _ _ => (succeeds_segmentKeys listed).bind ?_
  rintro _ rfl
  exact succeeds_replaySegments ((keysData_segments generation manifest.segments).trans segments)

theorem succeeds_restoreFirst {generation : Str} {backup : Restored}
    (complete : CompleteBackup config b generation backup) :
    Succeeds config host b (restoreFirst config) fun _ => True := by
  unfold restoreFirst
  split
  · refine (succeeds_call (fun _ => Call.noConfusion) fun _ _ _ => id).bind fun found _ => ?_
    split
    · exact succeeds_restore complete
    · exact succeeds_pure trivial
  · exact succeeds_pure trivial

theorem opener_faultless : (opener config host).Faultless := by
  refine Env.Faultless.of_allows ?_
  rintro w c reply ⟨sound, -⟩
  cases c with
  | getObject key =>
    cases reply with
    | ok => trivial
    | error =>
      obtain ⟨_, ⟨⟩, missing⟩ := sound trivial
      exact missing
  | putObject | deleteObject | list | readFile | openConn | executeBatch | queryMaster =>
    cases reply with
    | ok => trivial
    | error => exact absurd trivial (sure_of_missesOnly (fun _ => Call.noConfusion) sound)
  | _ => trivial

theorem connects_surely (codec : Codec config) (w : World Local) :
    Op.wp (opener config host).serve (watch anyChange) (connect config) (fun _ _ _ => True)
      (fun _ _ _ => False) () w := by
  have sure : ∀ {v : World Local} {c : Call} {reply : c.Reply},
      (opener config host).allows v c reply → (∀ key, c ≠ .getObject key) → ¬ Failure c reply :=
    fun allowed other => sure_of_missesOnly other allowed.1
  unfold connect
  simp only [Op.wp_bind, wp_orFail, Op.wp_runOn, Op.wp_pure]
  refine wp_quiet rfl trivial fun a₁ reply _ allowed _ => ?_
  cases reply with
  | error e => exact sure allowed (fun _ => Call.noConfusion) trivial
  | ok readConn =>
  refine wp_quiet rfl trivial fun a₂ reply _ allowed _ => ?_
  cases reply with
  | error e => exact sure allowed (fun _ => Call.noConfusion) trivial
  | ok =>
  refine wp_quiet rfl trivial fun a₃ reply _ allowed _ => ?_
  cases reply with
  | error e => exact sure allowed (fun _ => Call.noConfusion) trivial
  | ok =>
  refine wp_quiet rfl trivial fun a₄ reply _ allowed _ => ?_
  cases reply with
  | error e => exact sure allowed (fun _ => Call.noConfusion) trivial
  | ok =>
  refine wp_newUuid trivial fun a₅ generation _ _ => wp_nowMs trivial fun a₆ ts _ _ => ?_
  refine wp_quiet rfl trivial fun a₇ now _ _ _ => ?_
  simp only [firstSnapshot, Op.wp_bind, Op.wp_attempt]
  refine Op.wp_mono (wp_snapshot ⟨rfl, rfl⟩ rfl snapshot_any) (fun _ _ _ _ => trivial) ?_
  rintro e m' w' ⟨-, exit⟩
  cases exit.faultless opener_faultless codec

/-- With a complete backup and an empty disk, `new` ends well. -/
theorem reopens_surely (codec : Codec config) {generation : Str} {backup : Restored}
    (complete : CompleteBackup config b generation backup) {io : Local} {t : Nat}
    {r : Except Error (BackupManager pf.build)}
    (run : Op.Runs (opener config host).serve (new pf config) () ⟨b, io, t, []⟩ r () w) :
    ∃ m, r = .ok m := by
  have opens : Op.wp (opener config host).serve (watch anyChange) (new pf config)
      (fun _ _ _ => True) (fun _ _ _ => False) () ⟨b, io, t, []⟩ := by
    rw [new_eq, Op.wp_bind]
    exact Op.wp_mono (succeeds_restoreFirst complete _ rfl)
      (fun _ _ w' _ => connects_surely codec w') fun _ _ _ => id
  cases r with
  | ok m => exact ⟨m, rfl⟩
  | error e => exact (Prog.wp_iff_runs.mp opens _ _ run).elim

/-! What a lineage keeps. -/

theorem saving_complete (idle : (saving config host.undisturbed.appending).idle (some m) w) :
    ∃ db, host.db w.app = some db ∧
      CompleteBackup config w.bucket m.generation
        ⟨db, (host.walBytes w.app).take m.walOffset⟩ := by
  obtain ⟨⟨-, mirrored⟩, -, saved⟩ := idle
  obtain ⟨-, mirrored⟩ := mirrored m rfl
  obtain ⟨-, db, held, stored⟩ := saved m rfl
  refine ⟨db, held, ?_, stored, m.manifest, mirrored.listed, mirrored.backed.held⟩
  have latest : object config w.bucket .latest = some (asBytes m.generation) :=
    mirrored.published.latest
  rw [latest, Option.bind_some, fromUtf8_asBytes]

theorem Lineage.saving (codec : Codec config) (lineage : Lineage config host m w) :
    (saving config host.undisturbed.appending).idle (some m) w := by
  have absorbed := unsteadyRuns_absorbed config (fun _ => True) host.undisturbed.appending
  have kept := saving_kept codec host
  induction lineage with
  | first run =>
    obtain ⟨-, steady⟩ := absorbed.idle rfl run
    exact kept.reach steady (beside_start config host.undisturbed.appending trivial)
  | next _ reopens run _ =>
    obtain ⟨-, steady⟩ := absorbed.idle rfl run
    exact kept.reach steady (reopens.mends codec)

/-- A database outlives any number of disks. -/
theorem outlives_disks (codec : Codec config) (auto : config.autoRestore = true)
    (skips : SkipsFrameless replay) (disk : DiskBacked config replay host) :
    OutlivesDisks config replay host where
  backed := by
    intro m w path lineage
    have idle := lineage.saving codec
    obtain ⟨⟨-, mirrored⟩, -, saved⟩ := idle
    obtain ⟨db, held, stored⟩ := (saved m rfl).2
    exact ⟨db, held, (mirrored m rfl).2.rebuilds stored path⟩
  handed := by
    intro m w t r w' lineage run
    obtain ⟨db, held, complete⟩ := saving_complete (lineage.saving codec)
    obtain ⟨m', rfl⟩ := reopens_surely codec complete run
    exact ⟨m', db, rfl, held, Reopens.hands auto skips disk complete ⟨t, run⟩⟩

end

/-- A disk under an application that does anything to its files. -/
def diskHost : Host Local where
  dbPath := restoringConfig.dbPath
  during _ _ := True
  during_refl _ := trivial
  during_trans _ _ := trivial
  db io := io.files.lookup restoringConfig.dbPath
  wal io := io.files.lookup (restoringConfig.dbPath ++ ['-', 'w', 'a', 'l'])
  truncated io io' := io' = (Disk.settle restoringConfig applyFrames ⟨∅, io, []⟩).io
  installed io path data io' := io' = io.write path data
  tick t t' := t ≤ t'

theorem outlives_disks_applying : OutlivesDisks restoringConfig applyFrames diskHost := by
  refine outlives_disks ?_ rfl applyFrames_frameless ?_
  · exact ⟨plain_codec.serializes, plain_codec.parses, plain_codec.encodes⟩
  · exact ⟨fun _ => rfl, fun _ => rfl, id, id⟩

end Waloy.Spec
