import Waloy.Spec.Sync

/-!
# What a checkpoint may do

The exits of `checkpoint`, `maybe_snapshot`, `shutdown` and `new`, from those of the
operations they call.
-/
namespace Waloy.Spec
open Waloy.Effect Waloy.Source Waloy.Source.BackupManager

variable {pf : Platform} (config : BackupConfig pf.build) {A : Type} (env : Env A)

/-- The ways out of `checkpoint`. -/
inductive CheckpointExit (w : World A) (h : Head) : Except Error Unit → Head → World A → Prop where
  | unsynced {e : Error} {h' : Head} {w' : World A}
      (sync : SyncExit config env w h (.error e) h' w') : CheckpointExit w h (.error e) h' w'
  | unmoved {found : Bool} {e : Error} {h₁ : Head} {w₁ : World A} {a a' : A} {conn : Conn}
      (sync : SyncExit config env w h (.ok found) h₁ w₁) (moved : env.host.during w₁.app a)
      (cut : env.host.truncated a a')
      (failed : env.Denies (.executeBatch conn .walCheckpointTruncate)) :
      CheckpointExit w h (.error e) h₁ { w₁ with app := a' }
  | regenerated {found : Bool} {r : Except Error Unit} {h₁ h' : Head} {w₁ w' : World A} {a a' : A}
      (sync : SyncExit config env w h (.ok found) h₁ w₁) (moved : env.host.during w₁.app a)
      (cut : env.host.truncated a a')
      (exit : Regenerated config env { w₁ with app := a' } h₁ r h' w') :
      CheckpointExit w h r h' w'

structure CheckpointWatched (change : Bucket → Bucket → Prop) (w : World A) (h : Head) : Prop where
  sync : SyncWatched config env change w h
  regenerates : ∀ found h₁ w₁ a a', SyncExit config env w h (.ok found) h₁ w₁ →
    env.host.during w₁.app a → env.host.truncated a a' →
    RegenerationWatched config env change { w₁ with app := a' } h₁
  stays : ∀ found h₁ w₁, SyncExit config env w h (.ok found) h₁ w₁ → change w₁.bucket w₁.bucket

/-- The ways out of `maybe_snapshot`. -/
inductive IntervalExit (w : World A) (h : Head) : Except Error Bool → Head → World A → Prop where
  | skipped {a : A} (moved : env.host.during w.app a) :
      IntervalExit w h (.ok false) h { w with app := a }
  | taken {a : A} {h' : Head} {w' : World A} (moved : env.host.during w.app a)
      (exit : CheckpointExit config env { w with app := a } h (.ok ()) h' w') :
      IntervalExit w h (.ok true) h' w'
  | failed {e : Error} {a : A} {h' : Head} {w' : World A} (moved : env.host.during w.app a)
      (exit : CheckpointExit config env { w with app := a } h (.error e) h' w') :
      IntervalExit w h (.error e) h' w'

/-- The ways out of `shutdown`, which reports no error of its sync. -/
inductive ShutdownExit (w : World A) (h : Head) : Head → World A → Prop where
  | already : ShutdownExit w h h w
  | closed {r : Except Error Bool} {a : A} {h' : Head} {w' : World A}
      (sync : SyncExit config env w h r h' w') (moved : env.host.during w'.app a) :
      ShutdownExit w h h' { w' with app := a }

section
variable {config env} {change : Bucket → Bucket → Prop} {m : BackupManager pf.build} {w : World A}

theorem wp_checkpoint (hm : Uses config m) (hdb : config.dbPath = env.host.dbPath)
    (watched : CheckpointWatched config env change w (head m)) :
    Op.wp env.serve (watch change) (checkpoint pf)
      (fun _ m' w' => Uses config m' ∧ CheckpointExit config env w (head m) (.ok ()) (head m') w')
      (fun e m' w' => Uses config m' ∧
        CheckpointExit config env w (head m) (.error e) (head m') w')
      m w := by
  simp only [checkpoint, Op.wp_bind]
  refine Op.wp_mono (wp_syncWal hm hdb watched.sync) ?_ ?_
  swap
  · rintro e m' w' ⟨hm', exit⟩
    exact ⟨hm', .unsynced exit⟩
  rintro found m₁ w₁ ⟨hm₁, synced⟩
  have stays := watched.stays _ _ _ synced
  refine wp_endReadTransaction stays fun a₁ moved₁ => ?_
  rw [Op.wp_get, wp_orFail]
  refine wp_walCheckpointTruncate _ stays fun a₂ a₂' reply moved₂ cut allowed => ?_
  have moved := env.host.during_trans moved₁ moved₂
  cases reply with
  | error e =>
    have failed : env.Denies (.executeBatch m₁.readConn .walCheckpointTruncate) :=
      ⟨_, .error e, trivial, allowed⟩
    have exit : CheckpointExit config env w (head m) (.error (.sqlite e)) (head m₁)
        { w₁ with app := a₂' } := .unmoved synced moved cut failed
    exact ⟨hm₁, exit⟩
  | ok =>
    have regenerates := watched.regenerates _ _ _ _ _ synced moved cut
    refine wp_startGeneration (m := { m₁ with hasReadTransaction := false }) hm₁ stays ?_
    intro a₃ generation now m₃ moved₃ fresh ticks hm₃ begun
    have snapshots := regenerates.2 generation now a₃ moved₃ fresh ticks
    replace begun : head m₃ = (head m₁).begun generation now := begun
    rw [Op.wp_attempt]
    have finish : ∀ r h' m' w', h' = head m' → Uses config m' →
        SnapshotExit config env
          { w₁ with app := a₃, clock := now, log := .drew generation :: w₁.log } (head m₃) r h' w' →
        Op.wp env.serve (watch change) (beginReadTransaction pf)
          (fun _ m'' w'' => Op.wp env.serve (watch change) (Op.ofExcept r)
            (fun _ m' w' => Uses config m' ∧
              CheckpointExit config env w (head m) (.ok ()) (head m') w')
            (fun e m' w' => Uses config m' ∧
              CheckpointExit config env w (head m) (.error e) (head m') w') m'' w'')
          (fun e m' w' => Uses config m' ∧
            CheckpointExit config env w (head m) (.error e) (head m') w') m' w' := by
      rintro r _ m' w' rfl hm' exit
      rw [begun] at exit
      refine wp_beginReadTransaction (exit.stays snapshots) ?_ ?_
      · intro a' pinned moved'
        rw [Op.wp_ofExcept]
        have regenerated := Regenerated.mk moved₃ fresh ticks exit (.inl rfl) moved'
        cases r with
        | ok => exact ⟨hm', .regenerated synced moved cut regenerated⟩
        | error e => exact ⟨hm', .regenerated synced moved cut regenerated⟩
      · intro failed e a' moved'
        exact ⟨hm', .regenerated synced moved cut
          (.mk moved₃ fresh ticks exit (.inr ⟨failed, e, rfl⟩) moved')⟩
    refine Op.wp_mono (wp_snapshot hm₃ hdb (begun ▸ snapshots)) ?_ ?_
    · rintro ⟨⟩ m' w' ⟨hm', exit⟩
      exact finish (.ok ()) _ m' w' rfl hm' exit
    · rintro e m' w' ⟨hm', exit⟩
      exact finish (.error e) _ m' w' rfl hm' exit

theorem wp_maybeSnapshot (hm : Uses config m) (hdb : config.dbPath = env.host.dbPath)
    (watched : ∀ a, env.host.during w.app a →
      CheckpointWatched config env change { w with app := a } (head m)) :
    Op.wp env.serve (watch change) (maybeSnapshot pf)
      (fun taken m' w' => Uses config m' ∧
        IntervalExit config env w (head m) (.ok taken) (head m') w')
      (fun e m' w' => Uses config m' ∧ IntervalExit config env w (head m) (.error e) (head m') w')
      m w := by
  have still := env.host.during_refl w.app
  simp only [maybeSnapshot, Op.wp_bind, Op.wp_get]
  cases m.config.snapshotInterval with
  | none => exact ⟨hm, .skipped still⟩
  | some interval =>
    simp only [Op.wp_bind]
    refine wp_quiet rfl (watched w.app still).sync.start fun a now moved _ _ => ?_
    refine Op.wp_ite (fun _ => ?_) fun _ => ⟨hm, .skipped moved⟩
    rw [Op.wp_bind]
    refine Op.wp_mono (wp_checkpoint hm hdb (watched a moved)) ?_ ?_
    · rintro ⟨⟩ m' w' ⟨hm', exit⟩
      exact ⟨hm', .taken moved exit⟩
    · rintro e m' w' ⟨hm', exit⟩
      exact ⟨hm', .failed moved exit⟩

theorem wp_shutdown (hm : Uses config m) (hdb : config.dbPath = env.host.dbPath)
    (watched : SyncWatched config env change w (head m))
    (stays : ∀ r h' w', SyncExit config env w (head m) r h' w' → change w'.bucket w'.bucket) :
    Op.wp env.serve (watch change) (shutdown pf)
      (fun _ m' w' => Uses config m' ∧ ShutdownExit config env w (head m) (head m') w')
      (fun _ _ _ => False) m w := by
  simp only [shutdown, Op.wp_bind, Op.wp_get]
  refine Op.wp_ite (fun _ => ⟨hm, .already⟩) fun _ => ?_
  rw [Op.wp_bind, Op.wp_attempt]
  have finish : ∀ (r : Except Error Bool) m₁ m' w', Uses config m₁ → head m' = head m₁ →
      m'.config = m₁.config → m'.s3 = m₁.s3 → SyncExit config env w (head m) r (head m₁) w' →
      Op.wp env.serve (watch change) (endReadTransaction pf)
        (fun _ m' w' => Uses config { m' with shutdownComplete := true } ∧
          ShutdownExit config env w (head m) (head { m' with shutdownComplete := true }) w')
        (fun _ _ _ => False) m' w' := by
    intro r m₁ m' w' hm₁ same sameConfig sameS3 exit
    refine wp_endReadTransaction (stays _ _ _ exit) fun a moved => ?_
    rw [← same] at exit
    exact ⟨⟨sameConfig.trans hm₁.1, sameS3.trans hm₁.2⟩, .closed exit moved⟩
  refine Op.wp_mono (wp_syncWal hm hdb watched) ?_ ?_
  · rintro found m₁ w₁ ⟨hm₁, exit⟩
    simp only [Op.wp_bind, Op.wp_modify]
    exact finish _ m₁ m₁ w₁ hm₁ rfl rfl rfl exit
  · rintro e m₁ w₁ ⟨hm₁, exit⟩
    simp only [Op.wp_bind, Op.wp_modify]
    exact finish _ m₁ _ w₁ hm₁ rfl rfl rfl exit

end

end Waloy.Spec
