import Waloy.Effect.Interleaving
import Waloy.Spec.Lifecycle

/-!
# The calls of the operations

Which calls each operation of a manager asks for, whatever it is answered: its writes and
deletes are under the prefix of its configuration, and only a restore writes a local file.
-/
namespace Waloy.Spec
open Waloy.Effect Waloy.Source Waloy.Source.BackupManager

variable {pf : Platform} (config : BackupConfig pf.build)

/-- The calls that read nothing of the bucket, change nothing and execute nothing. -/
def isLocalCall : Call → Bool
  | .sleep _ | .instantNow | .fillBytes _ | .tryExists _ | .readFile _ | .syncFile _ | .openConn _
  | .queryMaster _ | .closeConn _ => true
  | _ => false

/-- The calls that leave the bucket and the database alone. -/
structure PermitsLocal (allowed : Call → Prop) : Prop where
  quiet : ∀ c, isLocalCall c = true → allowed c
  time : allowed .systemTime

/-- The calls of an operation that reads and deletes objects. -/
structure PermitsDeletes (allowed : Call → Prop) : Prop extends PermitsLocal allowed where
  get : ∀ key, allowed (.getObject key)
  list : ∀ keyPrefix, allowed (.list keyPrefix)
  delete : ∀ key, allowed (.deleteObject ((S3Client.new config.s3).fullKey key))

/-- The calls of an upload. -/
structure Permits (allowed : Call → Prop) : Prop where
  quiet : ∀ c, isLocalCall c = true → allowed c
  time : allowed .systemTime
  id : allowed .newUuid
  put : ∀ key data, allowed (.putObject ((S3Client.new config.s3).fullKey key) data)

/-- The calls of the operations that upload. -/
structure PermitsUploads (allowed : Call → Prop) : Prop extends Permits config allowed where
  batch : ∀ conn batch, batch ≠ .walCheckpointTruncate → allowed (.executeBatch conn batch)

/-- The calls of the operations that rearrange the bucket. -/
structure PermitsCleaning (allowed : Call → Prop) : Prop extends Permits config allowed where
  get : ∀ key, allowed (.getObject key)
  list : ∀ keyPrefix, allowed (.list keyPrefix)
  delete : ∀ key, allowed (.deleteObject ((S3Client.new config.s3).fullKey key))

/-- The calls of all operations. -/
structure PermitsAll (allowed : Call → Prop) : Prop extends PermitsUploads config allowed,
    PermitsCleaning config allowed where
  truncate : ∀ conn, allowed (.executeBatch conn .walCheckpointTruncate)
  write : ∀ path data, allowed (.writeFile path data)

theorem Permits.toLocal {config : BackupConfig pf.build} {allowed : Call → Prop}
    (permits : Permits config allowed) : PermitsLocal allowed := { permits with }

theorem PermitsCleaning.toDeletes {config : BackupConfig pf.build} {allowed : Call → Prop}
    (permits : PermitsCleaning config allowed) : PermitsDeletes config allowed := { permits with }

theorem permits_any : PermitsAll config fun _ => True where
  quiet _ _ := trivial
  batch _ _ _ := trivial
  time := trivial
  id := trivial
  put _ _ := trivial
  get _ := trivial
  list _ := trivial
  delete _ := trivial
  truncate _ := trivial
  write _ _ := trivial

/-- An invariant of the manager that the uploads keep: they leave its configuration, its
connection and its read transaction alone. -/
structure Steady (I : BackupManager pf.build → Prop) : Prop where
  uses : ∀ {m}, I m → Uses config m
  keeps : ∀ {m m' : BackupManager pf.build}, I m → m'.config = m.config → m'.s3 = m.s3 →
    m'.hasReadTransaction = m.hasReadTransaction → I m'

theorem steady_uses : Steady config (Uses config) where
  uses hm := hm
  keeps hm hconfig hs3 _ := ⟨hconfig.trans hm.1, hs3.trans hm.2⟩

theorem steady_pin (held : Bool) :
    Steady config fun m : BackupManager pf.build => Uses config m ∧ m.hasReadTransaction = held where
  uses hm := hm.1
  keeps hm hconfig hs3 same := ⟨⟨hconfig.trans hm.1.1, hs3.trans hm.1.2⟩, same.trans hm.2⟩

section
variable {config} {allowed : Call → Prop} {σ α : Type} {I : σ → Prop}

theorem within_orFail {wrap : String → Error} {x : M σ (Except String α)}
    (hx : Op.Within allowed I x) : Op.Within allowed I (orFail wrap x) := by
  refine hx.bind ?_
  rintro (_ | _)
  · exact Op.within_throw _
  · exact Op.within_pure _

section
variable (permits : PermitsLocal allowed)
include permits

theorem within_retry {f : M σ α} (hf : Op.Within allowed I f) :
    Op.Within allowed I (S3Client.retry f) := by
  suffices ∀ left attempt, Op.Within allowed I (S3Client.retryFrom f left attempt) from this _ _
  intro left
  induction left with
  | zero => exact fun _ => hf
  | succ left ih =>
    intro attempt
    refine hf.attempt.bind ?_
    rintro (_ | _)
    · exact (Op.within_call (permits.quiet _ rfl)).bind fun _ => ih _
    · exact Op.within_pure _

theorem within_nowMs : Op.Within allowed I (nowMs : M σ Nat) := by
  refine (Op.within_call permits.time).bind ?_
  rintro (_ | _)
  · exact Op.within_pure _
  · exact Op.within_pure _

theorem within_pipelineEncode (data : Bytes) :
    Op.Within allowed I (pipelineEncode pf config data : M σ Bytes) := by
  unfold pipelineEncode
  refine (Op.within_ofExcept _).bind fun compressed => ?_
  refine Op.Within.ite (fun _ => ?_) fun _ => Op.within_pure _
  cases config.encryptionKey with
  | none => exact Op.within_pure _
  | some key =>
    refine (Op.within_call (permits.quiet _ rfl)).bind fun salt => ?_
    refine (Op.within_call (permits.quiet _ rfl)).bind fun nonce => ?_
    exact Op.within_ofExcept _

end

theorem within_putObject (permits : Permits config allowed) (key : Str) (data : Bytes) :
    Op.Within allowed I ((S3Client.new config.s3).putObject key data : M σ Unit) :=
  within_retry permits.toLocal (within_orFail (Op.within_call (permits.put key data)))

section
variable (permits : PermitsDeletes config allowed)
include permits

theorem within_deleteObjects (keys : List Str) :
    Op.Within allowed I ((S3Client.new config.s3).deleteObjects keys : M σ Unit) := by
  induction keys with
  | nil => exact Op.within_pure _
  | cons key keys ih =>
    refine Op.Within.bind ?_ fun _ => ih
    exact within_retry permits.toPermitsLocal (within_orFail (Op.within_call (permits.delete key)))

theorem within_getObject (s3 : S3Client) (key : Str) :
    Op.Within allowed I (s3.getObject key : M σ Bytes) :=
  within_retry permits.toPermitsLocal (within_orFail (Op.within_call (permits.get _)))

theorem within_listKeys (s3 : S3Client) (keyPrefix : Str) :
    Op.Within allowed I (s3.listKeys keyPrefix : M σ (List Str)) := by
  refine within_retry permits.toPermitsLocal (Op.Within.bind ?_ fun _ => Op.within_pure _)
  exact within_orFail (Op.within_call (permits.list _))

end

end

section
variable {config} {allowed : Call → Prop} {I : BackupManager pf.build → Prop}

section
variable (permits : PermitsDeletes config allowed)
include permits

theorem within_readManifests {self : BackupManager pf.build} (keys : List Str) :
    Op.Within allowed I (readManifests pf self keys) := by
  induction keys with
  | nil => exact Op.within_pure _
  | cons key keys ih =>
    unfold readManifests
    refine Op.Within.ite (fun _ => ?_) fun _ => ih
    refine (within_getObject permits _ _).attempt.bind ?_
    rintro (_ | data)
    · exact ih
    · dsimp only
      split
      · exact ih.bind fun _ => Op.within_pure _
      · exact ih

theorem within_downloadSegments {self : BackupManager pf.build} (keys : List Str) :
    Op.Within allowed I (downloadSegments pf self keys) := by
  induction keys with
  | nil => exact Op.within_pure _
  | cons key keys ih =>
    refine (within_getObject permits _ _).bind fun _ => ?_
    exact (Op.within_ofExcept _).bind fun _ => ih.bind fun _ => Op.within_pure _

variable (uses : ∀ {m}, I m → Uses config m)
include uses

theorem within_deleteExpired (cutoffMs : Nat) (found : List (Str × GenerationManifest))
    (deleted : Nat) : Op.Within allowed I (deleteExpired pf cutoffMs found deleted) := by
  induction found generalizing deleted with
  | nil => exact Op.within_pure _
  | cons entry rest ih =>
    unfold deleteExpired
    refine Op.within_get fun self hself => Op.Within.ite (fun _ => ih _) fun _ => ?_
    refine Op.Within.ite (fun _ => ?_) fun _ => ih _
    refine Op.Within.bind ?_ fun _ => (Op.within_ofOption _).bind fun _ => ih _
    refine Op.within_get fun self hself => ?_
    rw [(uses hself).2]
    exact (within_listKeys permits _ _).bind fun keys => within_deleteObjects permits keys

theorem within_enforceRetention : Op.Within allowed I (enforceRetention pf) := by
  refine Op.within_get fun self hself => ?_
  cases self.config.retentionDuration with
  | none => exact Op.within_pure _
  | some duration =>
    refine (within_nowMs permits.toPermitsLocal).bind fun now => ?_
    refine Op.Within.bind ?_ fun found => within_deleteExpired permits uses _ found 0
    refine Op.within_get fun self hself => ?_
    exact (within_listKeys permits _ _).bind fun keys => within_readManifests permits keys

end

variable (steady : Steady config I)

section
variable (permits : Permits config allowed)
include permits steady

theorem within_uploadManifest : Op.Within allowed I (uploadManifest pf) := by
  refine Op.within_get fun self hself => ?_
  refine (Op.within_ofExcept _).bind fun json => ?_
  rw [(steady.uses hself).1, (steady.uses hself).2]
  exact (within_pipelineEncode permits.toLocal json).bind fun encoded => within_putObject permits _ _

theorem within_snapshot : Op.Within allowed I (snapshot pf) := by
  refine Op.within_get fun self hself => ?_
  rw [(steady.uses hself).1, (steady.uses hself).2]
  refine (within_orFail (Op.within_call (permits.quiet _ rfl))).bind fun rawData => ?_
  refine (within_pipelineEncode permits.toLocal rawData).bind fun data => ?_
  refine (within_putObject permits _ _).bind fun _ => ?_
  refine (within_putObject permits _ _).bind fun _ => ?_
  refine Op.Within.bind (Op.within_modify fun _ h => steady.keeps h rfl rfl rfl) fun _ => ?_
  refine (Op.within_call (permits.quiet _ rfl)).bind fun _ => ?_
  refine Op.Within.bind (Op.within_modify fun _ h => steady.keeps h rfl rfl rfl) fun _ => ?_
  refine (Op.within_call (permits.quiet _ rfl)).bind fun _ => ?_
  refine Op.Within.bind (Op.within_modify fun _ h => steady.keeps h rfl rfl rfl) fun _ => ?_
  refine (within_nowMs permits.toLocal).bind fun now => ?_
  refine Op.Within.bind (Op.within_modify fun _ h => steady.keeps h rfl rfl rfl) fun _ => ?_
  exact within_uploadManifest steady permits

theorem within_startGeneration : Op.Within allowed I (startGeneration pf) := by
  refine (Op.within_call permits.id).bind fun generation => ?_
  refine Op.Within.bind (Op.within_modify fun _ h => steady.keeps h rfl rfl rfl) fun _ => ?_
  refine (within_nowMs permits.toLocal).bind fun now => ?_
  exact Op.within_modify fun _ h => steady.keeps h rfl rfl rfl

theorem within_uploadSegment (walData : Bytes) (alignedLen : Nat) :
    Op.Within allowed I (uploadSegment pf walData alignedLen) := by
  refine Op.within_get fun self hself => ?_
  rw [(steady.uses hself).1, (steady.uses hself).2]
  refine (Op.within_ofOption _).bind fun newData => ?_
  refine (within_pipelineEncode permits.toLocal newData).bind fun encoded => ?_
  refine (within_putObject permits _ _).bind fun _ => ?_
  refine (within_nowMs permits.toLocal).bind fun now => ?_
  refine Op.Within.bind (Op.within_modify fun _ h => steady.keeps h rfl rfl rfl) fun _ => ?_
  refine (within_uploadManifest steady permits).bind fun _ => ?_
  refine (Op.within_call (permits.quiet _ rfl)).bind fun _ => ?_
  refine Op.Within.bind (Op.within_modify fun _ h => steady.keeps h rfl rfl rfl) fun _ => ?_
  refine (Op.within_ofOption _).bind fun _ => ?_
  exact Op.within_modify fun _ h => steady.keeps h rfl rfl rfl

end

section
variable (permits : PermitsCleaning config allowed)
include permits

omit steady in
theorem within_uploadChunks {self : BackupManager pf.build} (hself : Uses config self)
    (allData : Bytes) (maxSize fuel offset newIndex : Nat) :
    Op.Within allowed I (uploadChunks pf self allData maxSize fuel offset newIndex) := by
  induction fuel generalizing offset newIndex with
  | zero =>
    unfold uploadChunks
    exact Op.Within.ite (fun _ => Op.within_halt) fun _ => Op.within_pure _
  | succ fuel ih =>
    unfold uploadChunks
    refine Op.Within.ite (fun _ => ?_) fun _ => Op.within_pure _
    rw [hself.1, hself.2]
    refine (within_pipelineEncode permits.toPermits.toLocal _).bind fun encoded => ?_
    refine (within_putObject permits.toPermits _ _).bind fun _ => ?_
    refine (within_nowMs permits.toPermits.toLocal).bind fun now => ?_
    refine (Op.within_ofOption _).bind fun next => ?_
    exact (ih _ _).bind fun _ => Op.within_pure _

include steady

theorem within_compact (maxSegmentSize : Option Nat) (fuel : Nat) :
    Op.Within allowed I (compact pf maxSegmentSize fuel) := by
  refine Op.within_get fun self hself => Op.Within.ite (fun _ => Op.within_pure _) fun _ => ?_
  refine (within_downloadSegments permits.toDeletes _).bind fun allData => ?_
  refine (within_uploadChunks permits (steady.uses hself) allData _ _ _ _).bind fun chunks => ?_
  refine Op.Within.bind (Op.within_modify fun _ h => steady.keeps h rfl rfl rfl) fun _ => ?_
  refine (within_uploadManifest steady permits.toPermits).bind fun _ => ?_
  refine Op.Within.bind (Op.within_modify fun _ h => steady.keeps h rfl rfl rfl) fun _ => ?_
  rw [(steady.uses hself).2]
  exact (within_deleteObjects permits.toDeletes _).bind fun _ => Op.within_pure _

end

end

section
variable {config} {allowed : Call → Prop} (permits : PermitsUploads config allowed)
include permits

theorem within_beginReadTransaction :
    Op.Within allowed (Uses config) (beginReadTransaction pf) := by
  refine Op.within_get fun self _ => Op.Within.ite (fun _ => Op.within_pure _) fun _ => ?_
  refine (within_orFail (Op.within_call (permits.batch _ .begin (by decide)))).bind fun _ => ?_
  refine (within_orFail (Op.within_call (permits.quiet _ rfl))).bind fun _ => ?_
  exact Op.within_modify fun _ h => h

theorem within_endReadTransaction : Op.Within allowed (Uses config) (endReadTransaction pf) := by
  refine Op.within_get fun self hself => Op.Within.ite (fun _ => ?_) fun _ => Op.within_pure _
  refine (Op.within_call (permits.batch _ .commit (by decide))).bind fun _ => ?_
  exact Op.within_modify fun _ h => h

theorem within_recover : Op.Within allowed (Uses config) (recover pf) := by
  have steady := steady_uses config
  refine (within_endReadTransaction permits).bind fun _ => ?_
  refine (within_startGeneration steady permits.toPermits).bind fun _ => ?_
  refine (within_snapshot steady permits.toPermits).bind fun _ => ?_
  exact within_beginReadTransaction permits

theorem within_syncWal : Op.Within allowed (Uses config) (syncWal pf) := by
  refine Op.within_get fun self hself => ?_
  refine (Op.within_call (permits.quiet _ rfl)).bind fun found => ?_
  refine Op.Within.ite (fun _ => Op.within_pure _) fun _ => ?_
  refine (within_orFail (Op.within_call (permits.quiet _ rfl))).bind fun walData => ?_
  refine Op.Within.ite (fun _ => Op.within_pure _) fun _ => Op.Within.ite (fun _ => ?_) fun _ => ?_
  · exact (within_recover permits).bind fun _ => Op.within_pure _
  · refine Op.Within.bind (Op.within_modify fun m hm => hm.captureSalt walData) fun _ => ?_
    refine Op.Within.ite (fun _ => Op.within_pure _) fun _ => ?_
    refine (within_uploadSegment (steady_uses config) permits.toPermits walData _).bind fun _ => ?_
    exact Op.within_pure _

theorem within_firstSnapshot : Op.Within allowed (Uses config) (firstSnapshot pf) := by
  refine (within_snapshot (steady_uses config) permits.toPermits).attempt.bind ?_
  rintro (e | _)
  · exact (within_endReadTransaction permits).bind fun _ => Op.within_throw _
  · exact Op.within_pure _

theorem within_connect : Op.Within allowed (fun _ => True) (connect config) := by
  refine (within_orFail (Op.within_call (permits.quiet _ rfl))).bind fun readConn => ?_
  refine (within_orFail (Op.within_call (permits.batch _ .configure (by decide)))).bind fun _ => ?_
  refine (within_orFail (Op.within_call (permits.batch _ .begin (by decide)))).bind fun _ => ?_
  refine (within_orFail (Op.within_call (permits.quiet _ rfl))).bind fun _ => ?_
  refine (Op.within_call permits.id).bind fun generation => ?_
  refine (within_nowMs permits.toPermits.toLocal).bind fun ts => ?_
  refine (Op.within_call (permits.quiet _ rfl)).bind fun now => ?_
  exact (Op.Within.runOn ⟨rfl, rfl⟩ (within_firstSnapshot permits)).bind fun _ => Op.within_pure _

/-- The manager that is opened uses the configuration. -/
theorem connect_uses : Op.wp (fun (_ : Unit) _ _ _ => True) (fun _ c _ _ => allowed c)
    (connect config) (fun m _ _ => Uses config m) (fun _ _ _ => True) () () := by
  have quiet : ∀ {c : Call}, isLocalCall c = true →
      Op.Within allowed (fun _ : Unit => True) (call c) := fun h => Op.within_call (permits.quiet _ h)
  have batch : ∀ {conn : Conn} {b : Batch}, b ≠ .walCheckpointTruncate →
      Op.Within allowed (fun _ : Unit => True) (call (.executeBatch conn b)) :=
    fun h => Op.within_call (permits.batch _ _ h)
  have fails : ∀ (_ : Error) (_ : Unit), True → True := fun _ _ h => h
  refine (within_orFail (quiet rfl)).next trivial (fun readConn _ _ => ?_) fails
  refine (within_orFail (batch (b := .configure) (by decide))).next trivial (fun _ _ _ => ?_) fails
  refine (within_orFail (batch (b := .begin) (by decide))).next trivial (fun _ _ _ => ?_) fails
  refine (within_orFail (quiet rfl)).next trivial (fun _ _ _ => ?_) fails
  refine (Op.within_call permits.id).next trivial (fun generation _ _ => ?_) fails
  refine (within_nowMs permits.toPermits.toLocal).next trivial (fun ts _ _ => ?_) fails
  refine (quiet rfl).next trivial (fun now _ _ => ?_) fails
  rw [Op.wp_bind, Op.wp_runOn]
  exact Op.wp_mono (within_firstSnapshot permits _ ⟨rfl, rfl⟩) (fun _ _ _ h => h) fun _ _ _ _ => trivial

end

section
variable {config} {allowed : Call → Prop} (permits : PermitsAll config allowed)
include permits

theorem within_checkpoint : Op.Within allowed (Uses config) (checkpoint pf) := by
  refine (within_syncWal permits.toPermitsUploads).bind fun _ => ?_
  refine (within_endReadTransaction permits.toPermitsUploads).bind fun _ => ?_
  refine Op.within_get fun self hself => ?_
  refine (within_orFail (Op.within_call (permits.truncate _))).bind fun _ => ?_
  refine (within_startGeneration (steady_uses config) permits.toPermits).bind fun _ => ?_
  refine (within_snapshot (steady_uses config) permits.toPermits).attempt.bind fun _ => ?_
  exact (within_beginReadTransaction permits.toPermitsUploads).bind fun _ => Op.within_ofExcept _

theorem within_maybeSnapshot : Op.Within allowed (Uses config) (maybeSnapshot pf) := by
  refine Op.within_get fun self hself => ?_
  cases self.config.snapshotInterval with
  | none => exact Op.within_pure _
  | some interval =>
    refine (Op.within_call (permits.quiet _ rfl)).bind fun now => ?_
    refine Op.Within.ite (fun _ => ?_) fun _ => Op.within_pure _
    exact (within_checkpoint permits).bind fun _ => Op.within_pure _

theorem within_shutdown : Op.Within allowed (Uses config) (shutdown pf) := by
  refine Op.within_get fun self _ => Op.Within.ite (fun _ => Op.within_pure _) fun _ => ?_
  refine (within_syncWal permits.toPermitsUploads).attempt.bind fun result => ?_
  have ends : Op.Within allowed (Uses config) (do
      endReadTransaction pf
      modify fun self => { self with shutdownComplete := true }) :=
    (within_endReadTransaction permits.toPermitsUploads).bind fun _ => Op.within_modify fun _ h => h
  cases result with
  | ok => exact ends
  | error e => exact Op.Within.bind (Op.within_modify fun _ h => h) fun _ => ends

theorem within_restoreFirst : Op.Within allowed (fun _ => True) (restoreFirst config) := by
  have fetches : ∀ c, isFetchCall c = true → allowed c := by
    intro c fetch
    cases c with
    | getObject key => exact permits.get key
    | list keyPrefix => exact permits.list keyPrefix
    | writeFile path data => exact permits.write path data
    | sleep | syncFile => exact permits.quiet _ rfl
    | _ => cases fetch
  have replays : ∀ c, isReplayCall c = true → allowed c := by
    intro c replay
    cases c with
    | executeBatch conn batch => cases batch with
      | walCheckpointTruncate => exact permits.truncate conn
      | configure => exact permits.batch conn .configure (by decide)
      | begin => exact permits.batch conn .begin (by decide)
      | commit => exact permits.batch conn .commit (by decide)
      | journalModeWal => exact permits.batch conn .journalModeWal (by decide)
    | syncFile | openConn | closeConn => exact permits.quiet _ rfl
    | _ => cases replay
  refine Op.Within.ite (fun _ => ?_) fun _ => Op.within_pure _
  refine (Op.within_call (permits.quiet _ rfl)).bind fun found => ?_
  refine Op.Within.ite (fun _ => ?_) fun _ => Op.within_pure _
  exact (uses_restoreLatest config fetches replays _ _).within

omit permits in
theorem within_method {α : Type} {x : Method pf α} (answer : α → Answer)
    (hx : Op.Within allowed (Uses config) x) {m : BackupManager pf.build} (hm : Uses config m) :
    (method answer x m).wp (fun (_ : Unit) _ _ _ => True) (fun _ c _ _ => allowed c)
      (fun out _ => ∀ m, out.2 = some m → Uses config m) () := by
  unfold method
  rw [Prog.wp_bind]
  refine Prog.wp_mono (fun _ _ _ _ h => h) (fun _ _ _ _ h => h) ?_ _ _ (hx m hm)
  rintro ⟨_ | _, m'⟩ _ hm' _ ⟨⟩ <;> exact hm'

theorem within_opening :
    (opening config).wp (fun (_ : Unit) _ _ _ => True) (fun _ c _ _ => allowed c)
      (fun out _ => ∀ m, out.2 = some m → Uses config m) () := by
  have opens : Op.wp (fun (_ : Unit) _ _ _ => True) (fun _ c _ _ => allowed c) (new pf config)
      (fun m _ _ => Uses config m) (fun _ _ _ => True) () () := by
    rw [new_eq]
    exact (within_restoreFirst permits).next trivial
      (fun _ _ _ => connect_uses permits.toPermitsUploads) fun _ _ _ => trivial
  unfold opening
  rw [Prog.wp_bind]
  refine Prog.wp_mono (fun _ _ _ _ h => h) (fun _ _ _ _ h => h) ?_ _ _ opens
  rintro ⟨e | m, _⟩ _ uses _ ⟨⟩
  exact uses

/-- A process keeps within these calls, whatever it is answered. -/
theorem within_process :
    (process config).Within allowed fun s => ∀ m, s = some m → Uses config m := by
  intro q s hs
  cases s with
  | none =>
    cases q with
    | new => exact within_opening permits
    | _ => trivial
  | some m =>
    have hm := hs m rfl
    cases q with
    | new => exact within_opening permits
    | syncWal => exact within_method _ (within_syncWal permits.toPermitsUploads) hm
    | snapshot => exact within_method _ (within_snapshot (steady_uses config) permits.toPermits) hm
    | checkpoint => exact within_method _ (within_checkpoint permits) hm
    | maybeSnapshot => exact within_method _ (within_maybeSnapshot permits) hm
    | compact =>
      exact within_method _ (within_compact (steady_uses config) permits.toPermitsCleaning _ _) hm
    | enforceRetention =>
      exact within_method _ (within_enforceRetention permits.toPermitsCleaning.toDeletes fun h => h) hm
    | shutdown => exact within_method _ (within_shutdown permits) hm

end

end Waloy.Spec
