import Waloy.Effect.Keeping
import Waloy.Spec.Lifecycle
import Waloy.Spec.Opening

/-!
# The transactions of SQLite and the flag of a manager

SQLite keeps for each connection whether it is in a transaction. A manager keeps a flag
instead of asking, and sets it after a `BEGIN` and its `SELECT`, so the two part ways when
the `SELECT` or a `COMMIT` fails.
-/
namespace Waloy.Spec
open Waloy.Effect Waloy.Source Waloy.Source.BackupManager

/-- Which connections are in a transaction, and whether a `COMMIT` or the `SELECT` has
failed since the last one was opened. -/
structure Sqlite where
  inTransaction : Conn → Bool
  slipped : Bool

/-- A `BEGIN` succeeds outside a transaction only. Whether a call fails is open. -/
def sqlite : Server Calls Sqlite
  | db, .openConn _, .ok conn, db' => db' = ⟨Function.update db.inTransaction conn false, false⟩
  | db, .closeConn conn, _, db' =>
    db' = { db with inTransaction := Function.update db.inTransaction conn false }
  | db, .executeBatch conn .begin, .ok _, db' =>
    db.inTransaction conn = false ∧
      db' = { db with inTransaction := Function.update db.inTransaction conn true }
  | db, .executeBatch conn .commit, .ok _, db' =>
    db' = { db with inTransaction := Function.update db.inTransaction conn false }
  | db, .executeBatch _ .commit, .error _, db' => db' = { db with slipped := true }
  | db, .queryMaster _, .error _, db' => db' = { db with slipped := true }
  | db, _, _, db' => db' = db

/-- The calls that leave every transaction as it is. -/
def isCalm : Call → Bool
  | .openConn _ | .closeConn _ | .queryMaster _ => false
  | .executeBatch _ batch => batch ≠ .begin ∧ batch ≠ .commit
  | _ => true

theorem sqlite_calm {db db' : Sqlite} {c : Call} {reply : c.Reply} (calm : isCalm c = true)
    (served : sqlite db c reply db') : db' = db := by
  cases c with
  | openConn | closeConn | queryMaster => cases calm
  | executeBatch conn batch =>
    cases batch with
    | begin | commit => cases calm
    | configure | walCheckpointTruncate | journalModeWal => exact served
  | _ => exact served

variable {pf : Platform}

/-- An invariant that neither a calm call nor an assignment to the rest of a manager can
break. -/
structure Undisturbed {W : Type} (serve : Server Calls W) (I : BackupManager pf.build → W → Prop) :
    Prop where
  calls : ∀ {c m w reply w'}, isCalm c = true → I m w → serve w c reply w' → I m w'
  assigns : ∀ {m m' : BackupManager pf.build} {w}, I m w → m'.readConn = m.readConn →
    m'.hasReadTransaction = m.hasReadTransaction → I m' w

section
variable {W : Type} {serve : Server Calls W} {I : BackupManager pf.build → W → Prop}
  (undisturbed : Undisturbed serve I)
include undisturbed

theorem keeps_calm {c : Call} (calm : isCalm c = true) : Op.Keeps serve I (call c) :=
  Op.keeps_call fun _ _ _ _ h served => undisturbed.calls calm h served

theorem keeps_aside {f : BackupManager pf.build → BackupManager pf.build}
    (conn : ∀ m, (f m).readConn = m.readConn)
    (flag : ∀ m, (f m).hasReadTransaction = m.hasReadTransaction) :
    Op.Keeps serve I (modify f : Method pf PUnit) :=
  Op.keeps_modify fun m _ h => undisturbed.assigns h (conn m) (flag m)

theorem keeps_nowMs_calm : Op.Keeps serve I nowMs := by
  refine (keeps_calm undisturbed rfl).bind ?_
  rintro (_ | _)
  · exact Op.keeps_pure _
  · exact Op.keeps_pure _

theorem keeps_retry_calm {α : Type} {f : Method pf α} (hf : Op.Keeps serve I f) :
    Op.Keeps serve I (S3Client.retry f) :=
  keeps_retry (fun _ => keeps_calm undisturbed rfl) hf

theorem keeps_pipelineEncode_calm (config : BackupConfig pf.build) (data : Bytes) :
    Op.Keeps serve I (pipelineEncode pf config data) := by
  unfold pipelineEncode
  refine (Op.keeps_ofExcept _).bind fun compressed => ?_
  refine Op.Keeps.ite (fun _ => ?_) fun _ => Op.keeps_pure _
  cases config.encryptionKey with
  | none => exact Op.keeps_pure _
  | some key =>
    refine (keeps_calm undisturbed rfl).bind fun salt => ?_
    exact (keeps_calm undisturbed rfl).bind fun nonce => Op.keeps_ofExcept _

theorem keeps_putObject_calm (s3 : S3Client) (key : Str) (data : Bytes) :
    Op.Keeps serve I (s3.putObject key data) :=
  keeps_retry_calm undisturbed (keeps_orFail (keeps_calm undisturbed rfl))

theorem keeps_getObject_calm (s3 : S3Client) (key : Str) :
    Op.Keeps serve I (s3.getObject key) :=
  keeps_retry_calm undisturbed (keeps_orFail (keeps_calm undisturbed rfl))

theorem keeps_listKeys_calm (s3 : S3Client) (keyPrefix : Str) :
    Op.Keeps serve I (s3.listKeys keyPrefix) := by
  refine keeps_retry_calm undisturbed (Op.Keeps.bind ?_ fun _ => Op.keeps_pure _)
  exact keeps_orFail (keeps_calm undisturbed rfl)

theorem keeps_deleteObjects_calm (s3 : S3Client) (keys : List Str) :
    Op.Keeps serve I (s3.deleteObjects keys) := by
  induction keys with
  | nil => exact Op.keeps_pure _
  | cons key keys ih =>
    refine Op.Keeps.bind ?_ fun _ => ih
    exact keeps_retry_calm undisturbed (keeps_orFail (keeps_calm undisturbed rfl))

theorem keeps_uploadManifest_calm : Op.Keeps serve I (uploadManifest pf) := by
  refine Op.keeps_get fun self _ _ => (Op.keeps_ofExcept _).bind fun json => ?_
  refine (keeps_pipelineEncode_calm undisturbed _ _).bind fun encoded => ?_
  exact keeps_putObject_calm undisturbed _ _ _

theorem keeps_snapshot_calm : Op.Keeps serve I (snapshot pf) := by
  refine Op.keeps_get fun self _ _ => ?_
  refine (keeps_orFail (keeps_calm undisturbed rfl)).bind fun rawData => ?_
  refine (keeps_pipelineEncode_calm undisturbed _ _).bind fun data => ?_
  refine (keeps_putObject_calm undisturbed _ _ _).bind fun _ => ?_
  refine (keeps_putObject_calm undisturbed _ _ _).bind fun _ => ?_
  refine Op.Keeps.bind (keeps_aside undisturbed (fun _ => rfl) fun _ => rfl) fun _ => ?_
  refine (keeps_calm undisturbed rfl).bind fun _ => ?_
  refine Op.Keeps.bind (keeps_aside undisturbed (fun _ => rfl) fun _ => rfl) fun _ => ?_
  refine (keeps_calm undisturbed rfl).bind fun _ => ?_
  refine Op.Keeps.bind (keeps_aside undisturbed (fun _ => rfl) fun _ => rfl) fun _ => ?_
  refine (keeps_nowMs_calm undisturbed).bind fun now => ?_
  refine Op.Keeps.bind (keeps_aside undisturbed (fun _ => rfl) fun _ => rfl) fun _ => ?_
  exact keeps_uploadManifest_calm undisturbed

theorem keeps_startGeneration_calm : Op.Keeps serve I (startGeneration pf) := by
  refine (keeps_calm undisturbed rfl).bind fun generation => ?_
  refine Op.Keeps.bind (keeps_aside undisturbed (fun _ => rfl) fun _ => rfl) fun _ => ?_
  refine (keeps_nowMs_calm undisturbed).bind fun now => ?_
  exact keeps_aside undisturbed (fun _ => rfl) fun _ => rfl

theorem keeps_uploadSegment_calm (walData : Bytes) (alignedLen : Nat) :
    Op.Keeps serve I (uploadSegment pf walData alignedLen) := by
  refine Op.keeps_get fun self _ _ => (Op.keeps_ofOption _).bind fun newData => ?_
  refine (keeps_pipelineEncode_calm undisturbed _ _).bind fun encoded => ?_
  refine (keeps_putObject_calm undisturbed _ _ _).bind fun _ => ?_
  refine (keeps_nowMs_calm undisturbed).bind fun now => ?_
  refine Op.Keeps.bind (keeps_aside undisturbed (fun _ => rfl) fun _ => rfl) fun _ => ?_
  refine (keeps_uploadManifest_calm undisturbed).bind fun _ => ?_
  refine (keeps_calm undisturbed rfl).bind fun _ => ?_
  refine Op.Keeps.bind (keeps_aside undisturbed (fun _ => rfl) fun _ => rfl) fun _ => ?_
  refine (Op.keeps_ofOption _).bind fun _ => ?_
  exact keeps_aside undisturbed (fun _ => rfl) fun _ => rfl

theorem keeps_downloadSegments_calm (self : BackupManager pf.build) (keys : List Str) :
    Op.Keeps serve I (downloadSegments pf self keys) := by
  induction keys with
  | nil => exact Op.keeps_pure _
  | cons key keys ih =>
    refine (keeps_getObject_calm undisturbed _ _).bind fun _ => ?_
    exact (Op.keeps_ofExcept _).bind fun _ => ih.bind fun _ => Op.keeps_pure _

theorem keeps_uploadChunks_calm (self : BackupManager pf.build) (allData : Bytes)
    (maxSize fuel offset newIndex : Nat) :
    Op.Keeps serve I (uploadChunks pf self allData maxSize fuel offset newIndex) := by
  induction fuel generalizing offset newIndex with
  | zero =>
    unfold uploadChunks
    exact Op.Keeps.ite (fun _ => Op.keeps_halt) fun _ => Op.keeps_pure _
  | succ fuel ih =>
    unfold uploadChunks
    refine Op.Keeps.ite (fun _ => ?_) fun _ => Op.keeps_pure _
    refine (keeps_pipelineEncode_calm undisturbed _ _).bind fun encoded => ?_
    refine (keeps_putObject_calm undisturbed _ _ _).bind fun _ => ?_
    refine (keeps_nowMs_calm undisturbed).bind fun now => ?_
    refine (Op.keeps_ofOption _).bind fun next => ?_
    exact (ih _ _).bind fun _ => Op.keeps_pure _

theorem keeps_compact_calm (maxSegmentSize : Option Nat) (fuel : Nat) :
    Op.Keeps serve I (compact pf maxSegmentSize fuel) := by
  refine Op.keeps_get fun self _ _ => Op.Keeps.ite (fun _ => Op.keeps_pure _) fun _ => ?_
  refine (keeps_downloadSegments_calm undisturbed _ _).bind fun allData => ?_
  refine (keeps_uploadChunks_calm undisturbed _ _ _ _ _ _).bind fun chunks => ?_
  refine Op.Keeps.bind (keeps_aside undisturbed (fun _ => rfl) fun _ => rfl) fun _ => ?_
  refine (keeps_uploadManifest_calm undisturbed).bind fun _ => ?_
  refine Op.Keeps.bind (keeps_aside undisturbed (fun _ => rfl) fun _ => rfl) fun _ => ?_
  exact (keeps_deleteObjects_calm undisturbed _ _).bind fun _ => Op.keeps_pure _

theorem keeps_readManifests_calm (self : BackupManager pf.build) (keys : List Str) :
    Op.Keeps serve I (readManifests pf self keys) := by
  induction keys with
  | nil => exact Op.keeps_pure _
  | cons key keys ih =>
    unfold readManifests
    refine Op.Keeps.ite (fun _ => ?_) fun _ => ih
    refine (keeps_getObject_calm undisturbed _ _).attempt.bind ?_
    rintro (_ | data)
    · exact ih
    · dsimp only
      split
      · exact ih.bind fun _ => Op.keeps_pure _
      · exact ih

theorem keeps_deleteExpired_calm (cutoffMs : Nat) (found : List (Str × GenerationManifest))
    (deleted : Nat) : Op.Keeps serve I (deleteExpired pf cutoffMs found deleted) := by
  induction found generalizing deleted with
  | nil => exact Op.keeps_pure _
  | cons entry rest ih =>
    unfold deleteExpired
    refine Op.keeps_get fun self _ _ => Op.Keeps.ite (fun _ => ih _) fun _ => ?_
    refine Op.Keeps.ite (fun _ => ?_) fun _ => ih _
    refine Op.Keeps.bind ?_ fun _ => (Op.keeps_ofOption _).bind fun _ => ih _
    refine Op.keeps_get fun self _ _ => (keeps_listKeys_calm undisturbed _ _).bind fun keys => ?_
    exact keeps_deleteObjects_calm undisturbed _ keys

theorem keeps_enforceRetention_calm : Op.Keeps serve I (enforceRetention pf) := by
  refine Op.keeps_get fun self _ _ => ?_
  cases self.config.retentionDuration with
  | none => exact Op.keeps_pure _
  | some duration =>
    refine (keeps_nowMs_calm undisturbed).bind fun now => ?_
    refine Op.Keeps.bind ?_ fun found => keeps_deleteExpired_calm undisturbed _ found 0
    refine Op.keeps_get fun self _ _ => (keeps_listKeys_calm undisturbed _ _).bind fun keys => ?_
    exact keeps_readManifests_calm undisturbed self keys

end

/-- Where nothing slipped, the flag tells whether the connection is in a transaction. After
a slip the connection is in one that the manager has forgotten. -/
structure Agrees (m : BackupManager pf.build) (db : Sqlite) : Prop where
  told : db.slipped = false → m.hasReadTransaction = db.inTransaction m.readConn
  forgotten : db.slipped = true →
    m.hasReadTransaction = false ∧ db.inTransaction m.readConn = true

section
variable {m : BackupManager pf.build} {db : Sqlite}

theorem undisturbed_agrees :
    Undisturbed sqlite (Agrees : BackupManager pf.build → Sqlite → Prop) where
  calls calm agrees served := sqlite_calm calm served ▸ agrees
  assigns agrees conn flag := by
    refine ⟨fun sound => ?_, fun slipped => ?_⟩
    · rw [flag, conn]
      exact agrees.told sound
    · rw [flag, conn]
      exact agrees.forgotten slipped

theorem Agrees.sound_of_flag (agrees : Agrees m db) (flag : m.hasReadTransaction = true) :
    db.slipped = false ∧ db.inTransaction m.readConn = true := by
  cases slipped : db.slipped with
  | false => exact ⟨rfl, agrees.told slipped ▸ flag⟩
  | true =>
    rw [(agrees.forgotten slipped).1] at flag
    cases flag

theorem Agrees.sound_of_outside (agrees : Agrees m db) (outside : db.inTransaction m.readConn = false) :
    db.slipped = false := by
  cases slipped : db.slipped with
  | false => rfl
  | true =>
    rw [(agrees.forgotten slipped).2] at outside
    cases outside

theorem keeps_beginReadTransaction_agrees : Op.Keeps sqlite Agrees (beginReadTransaction pf) := by
  intro m db agrees
  refine (Op.wp_bind _ _).mpr (Op.wp_get.mpr (Op.wp_ite (fun _ => agrees) fun flag => ?_))
  simp only [Op.wp_bind, wp_orFail]
  refine Op.wp_call.mpr fun reply db' served => ⟨trivial, ?_⟩
  cases reply with
  | error e => exact served ▸ agrees
  | ok =>
    obtain ⟨outside, rfl⟩ := served
    refine Op.wp_call.mpr fun reply db' served => ⟨trivial, ?_⟩
    cases reply with
    | error e =>
      cases served
      refine ⟨fun sound => ?_, fun _ => ⟨Bool.eq_false_of_not_eq_true flag, ?_⟩⟩
      · cases sound
      · exact Function.update_self ..
    | ok =>
      cases served
      refine ⟨fun _ => ?_, fun slipped => ?_⟩
      · change true = Function.update db.inTransaction m.readConn true m.readConn
        rw [Function.update_self]
      · cases slipped.symm.trans (agrees.sound_of_outside outside)

theorem keeps_endReadTransaction_agrees : Op.Keeps sqlite Agrees (endReadTransaction pf) := by
  intro m db agrees
  refine (Op.wp_bind _ _).mpr (Op.wp_get.mpr (Op.wp_ite (fun flag => ?_) fun _ => agrees))
  obtain ⟨sound, inside⟩ := agrees.sound_of_flag flag
  rw [Op.wp_bind]
  refine Op.wp_call.mpr fun reply db' served => ⟨trivial, ?_⟩
  cases reply with
  | error e =>
    cases served
    refine ⟨fun sound => ?_, fun _ => ⟨rfl, inside⟩⟩
    cases sound
  | ok =>
    cases served
    refine ⟨fun _ => ?_, fun slipped => ?_⟩
    · change false = Function.update db.inTransaction m.readConn false m.readConn
      rw [Function.update_self]
    · cases slipped.symm.trans sound

theorem keeps_recover_agrees : Op.Keeps sqlite Agrees (recover pf) := by
  refine keeps_endReadTransaction_agrees.bind fun _ => ?_
  refine (keeps_startGeneration_calm undisturbed_agrees).bind fun _ => ?_
  refine (keeps_snapshot_calm undisturbed_agrees).bind fun _ => ?_
  exact keeps_beginReadTransaction_agrees

theorem keeps_syncWal_agrees : Op.Keeps sqlite Agrees (syncWal pf) := by
  have calm := @keeps_calm pf _ sqlite Agrees undisturbed_agrees
  refine Op.keeps_get fun self _ _ => (calm rfl).bind fun found => ?_
  refine Op.Keeps.ite (fun _ => Op.keeps_pure _) fun _ => ?_
  refine (keeps_orFail (calm rfl)).bind fun walData => ?_
  refine Op.Keeps.ite (fun _ => Op.keeps_pure _) fun _ => ?_
  refine Op.Keeps.ite (fun _ => keeps_recover_agrees.bind fun _ => Op.keeps_pure _) fun _ => ?_
  refine Op.Keeps.bind (keeps_aside undisturbed_agrees (fun m => ?_) fun m => ?_) fun _ => ?_
  · unfold captureSalt
    split <;> rfl
  · unfold captureSalt
    split <;> rfl
  · refine Op.Keeps.ite (fun _ => Op.keeps_pure _) fun _ => ?_
    exact (keeps_uploadSegment_calm undisturbed_agrees _ _).bind fun _ => Op.keeps_pure _

theorem keeps_checkpoint_agrees : Op.Keeps sqlite Agrees (checkpoint pf) := by
  refine keeps_syncWal_agrees.bind fun _ => keeps_endReadTransaction_agrees.bind fun _ => ?_
  refine Op.keeps_get fun self _ _ => ?_
  refine (keeps_orFail (keeps_calm undisturbed_agrees rfl)).bind fun _ => ?_
  refine (keeps_startGeneration_calm undisturbed_agrees).bind fun _ => ?_
  refine (keeps_snapshot_calm undisturbed_agrees).attempt.bind fun _ => ?_
  exact keeps_beginReadTransaction_agrees.bind fun _ => Op.keeps_ofExcept _

theorem keeps_maybeSnapshot_agrees : Op.Keeps sqlite Agrees (maybeSnapshot pf) := by
  refine Op.keeps_get fun self _ _ => ?_
  cases self.config.snapshotInterval with
  | none => exact Op.keeps_pure _
  | some interval =>
    refine (keeps_calm undisturbed_agrees rfl).bind fun now => ?_
    refine Op.Keeps.ite (fun _ => ?_) fun _ => Op.keeps_pure _
    exact keeps_checkpoint_agrees.bind fun _ => Op.keeps_pure _

theorem keeps_shutdown_agrees : Op.Keeps sqlite Agrees (shutdown pf) := by
  refine Op.keeps_get fun self _ _ => Op.Keeps.ite (fun _ => Op.keeps_pure _) fun _ => ?_
  refine keeps_syncWal_agrees.attempt.bind fun result => ?_
  have ends : Op.Keeps sqlite Agrees (do
      endReadTransaction pf
      modify fun self => { self with shutdownComplete := true }) :=
    keeps_endReadTransaction_agrees.bind fun _ =>
      keeps_aside undisturbed_agrees (fun _ => rfl) fun _ => rfl
  cases result with
  | ok => exact ends
  | error e =>
    exact Op.Keeps.bind (keeps_aside undisturbed_agrees (fun _ => rfl) fun _ => rfl) fun _ => ends

theorem wp_calm {σ : Type} {s : σ} {c : Call} {ok : c.Reply → σ → Sqlite → Prop}
    {err : Error → σ → Sqlite → Prop} (calm : isCalm c = true) (hok : ∀ reply, ok reply s db) :
    Op.wp sqlite anyCall (call c) ok err s db := by
  refine Op.wp_call.mpr fun reply db' served => ⟨trivial, ?_⟩
  cases sqlite_calm calm served
  exact hok reply

theorem wp_nowMs_calm {σ : Type} {s : σ} {ok : Nat → σ → Sqlite → Prop}
    {err : Error → σ → Sqlite → Prop} (hok : ∀ now, ok now s db) :
    Op.wp sqlite anyCall nowMs ok err s db := by
  refine (Op.wp_bind _ _).mpr (wp_calm rfl fun reply => ?_)
  cases reply with
  | ok ms => exact hok _
  | error e => exact hok _

/-- A manager that is opened is in the transaction of its own `BEGIN`. -/
theorem wp_connect_agrees (config : BackupConfig pf.build) :
    Op.wp sqlite anyCall (connect config) (fun m _ db' => Agrees m db') (fun _ _ _ => True) () db := by
  unfold connect
  simp only [Op.wp_bind, wp_orFail, Op.wp_runOn, Op.wp_pure]
  refine Op.wp_call.mpr fun reply db₁ opened => ⟨trivial, ?_⟩
  cases reply with
  | error e => trivial
  | ok readConn =>
  cases opened
  refine wp_calm rfl fun reply => ?_
  cases reply with
  | error e => trivial
  | ok =>
  refine Op.wp_call.mpr fun reply db₂ begun => ⟨trivial, ?_⟩
  cases reply with
  | error e => trivial
  | ok =>
  obtain ⟨-, rfl⟩ := begun
  refine Op.wp_call.mpr fun reply db₃ selected => ⟨trivial, ?_⟩
  cases reply with
  | error e => trivial
  | ok =>
  cases selected
  refine wp_calm rfl fun generation => ?_
  refine wp_nowMs_calm fun ts => ?_
  refine wp_calm rfl fun now => ?_
  have snapshots : ∀ m : BackupManager pf.build, m.readConn = readConn → m.hasReadTransaction = true →
      Op.wp sqlite anyCall (firstSnapshot pf) (fun _ m' db' => Agrees m' db') (fun _ _ _ => True) m
        ⟨Function.update (Function.update db.inTransaction readConn false) readConn true, false⟩ := by
    intro m conn flag
    have agrees : Agrees m
        ⟨Function.update (Function.update db.inTransaction readConn false) readConn true, false⟩ := by
      refine ⟨fun _ => ?_, fun slipped => ?_⟩
      · simp [conn, flag]
      · cases slipped
    have keeps : Op.Keeps sqlite Agrees (firstSnapshot pf) := by
      refine (keeps_snapshot_calm undisturbed_agrees).attempt.bind ?_
      rintro (e | _)
      · exact keeps_endReadTransaction_agrees.bind fun _ => Op.keeps_throw e
      · exact Op.keeps_pure _
    exact Op.wp_mono (keeps m _ agrees) (fun _ _ _ h => h) fun _ _ _ _ => trivial
  exact snapshots _ rfl rfl

theorem wp_new_agrees (config : BackupConfig pf.build) :
    Op.wp sqlite anyCall (new pf config) (fun m _ db' => Agrees m db') (fun _ _ _ => True) () db := by
  rw [new_eq, Op.wp_bind]
  refine Prog.wp_mono (fun _ _ _ _ h => h) (fun _ _ _ _ h => h) ?_ _ _ (Prog.wp_trivial _ db)
  rintro ⟨_ | _, _⟩ db' -
  · trivial
  · exact wp_connect_agrees config

end

end Waloy.Spec
