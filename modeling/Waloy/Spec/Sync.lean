import Waloy.Spec.Snapshot

/-!
# What a sync may do

The exits of `recover` and of `sync_wal`. A sync that reads a WAL file which is not
the one of the last sync starts a generation; otherwise it uploads what is new.
-/
namespace Waloy.Spec
open Waloy.Effect Waloy.Source Waloy.Source.BackupManager

variable {pf : Platform} (config : BackupConfig pf.build) {A : Type} (env : Env A)

/-- A generation is drawn and its first snapshot taken. The read transaction that
follows may turn the result into an error. -/
inductive Regenerated (w : World A) (h : Head) : Except Error Unit → Head → World A → Prop where
  | mk {generation : Str} {now : Nat} {a a' : A} {r r' : Except Error Unit} {h' : Head}
      {w' : World A} (moved : env.host.during w.app a) (fresh : Fresh w.bucket generation)
      (ticks : env.host.tick w.clock now)
      (exit : SnapshotExit config env
        { w with app := a, clock := now, log := .drew generation :: w.log }
        (h.begun generation now) r h' w')
      (pinned : r' = r ∨ PinFails env ∧ ∃ e, r' = .error e) (moved' : env.host.during w'.app a') :
      Regenerated w h r' h' { w' with app := a' }

def RegenerationWatched (change : Bucket → Bucket → Prop) (w : World A) (h : Head) : Prop :=
  change w.bucket w.bucket ∧ ∀ generation now a, env.host.during w.app a →
    Fresh w.bucket generation → env.host.tick w.clock now →
    SnapshotWatched config env change
      { w with app := a, clock := now, log := .drew generation :: w.log } (h.begun generation now)

section
variable {config env} {change : Bucket → Bucket → Prop} {m : BackupManager pf.build} {w : World A}

theorem SnapshotExit.stays {h h' : Head} {r : Except Error Unit} {w' : World A}
    (exit : SnapshotExit config env w h r h' w') (watched : SnapshotWatched config env change w h) :
    change w'.bucket w'.bucket := by
  cases exit with
  | unread => exact watched.start
  | unpublished read moved failed partly =>
    obtain rfl | ⟨encoded, sent, rfl | rfl⟩ := partly
    · exact watched.start
    · exact (watched.published _ _ _ read sent).2.2.1
    · exact (watched.published _ _ _ read sent).2.2.2.2
  | unlisted read moved sent ticks failed partly =>
    obtain rfl | ⟨manifest, listed, rfl⟩ := partly
    · exact (watched.published _ _ _ read sent).2.2.2.2
    · exact (watched.listed _ _ _ _ _ read sent listed).2.2
  | done read moved sent ticks listed => exact (watched.listed _ _ _ _ _ read sent listed).2.2

theorem wp_startGeneration {ok : Unit → BackupManager pf.build → World A → Prop}
    {err : Error → BackupManager pf.build → World A → Prop} (hm : Uses config m)
    (hstay : change w.bucket w.bucket)
    (hok : ∀ a generation now m', env.host.during w.app a → Fresh w.bucket generation →
      env.host.tick w.clock now → Uses config m' → head m' = (head m).begun generation now →
      ok () m' { w with app := a, clock := now, log := .drew generation :: w.log }) :
    Op.wp env.serve (watch change) (startGeneration pf) ok err m w := by
  simp only [startGeneration, Op.wp_bind, Op.wp_modify]
  refine wp_newUuid hstay fun a₁ generation moved₁ fresh => ?_
  refine wp_nowMs hstay fun a₂ now moved₂ ticks => ?_
  exact hok a₂ generation now _ (env.host.during_trans moved₁ moved₂) fresh ticks hm rfl

theorem wp_recover (hm : Uses config m) (hdb : config.dbPath = env.host.dbPath)
    (watched : RegenerationWatched config env change w (head m)) :
    Op.wp env.serve (watch change) (recover pf)
      (fun _ m' w' => Uses config m' ∧ Regenerated config env w (head m) (.ok ()) (head m') w')
      (fun e m' w' => Uses config m' ∧ Regenerated config env w (head m) (.error e) (head m') w')
      m w := by
  simp only [recover, Op.wp_bind]
  refine wp_endReadTransaction watched.1 fun a₁ moved₁ => ?_
  refine wp_startGeneration (m := { m with hasReadTransaction := false }) hm watched.1 ?_
  intro a₂ generation now m₂ moved₂ fresh ticks hm₂ begun
  have moved := env.host.during_trans moved₁ moved₂
  have snapshots := watched.2 generation now a₂ moved fresh ticks
  replace begun : head m₂ = (head m).begun generation now := begun
  refine Op.wp_mono (wp_snapshot hm₂ hdb (begun ▸ snapshots)) ?_ ?_
  · rintro ⟨⟩ m' w' ⟨hm', exit⟩
    rw [begun] at exit
    refine wp_beginReadTransaction (exit.stays snapshots) ?_ ?_
    · intro a' pinned moved'
      exact ⟨hm', .mk moved fresh ticks exit (.inl rfl) moved'⟩
    · intro failed e a' moved'
      exact ⟨hm', .mk moved fresh ticks exit (.inr ⟨failed, e, rfl⟩) moved'⟩
  · rintro e m' w' ⟨hm', exit⟩
    rw [begun] at exit
    exact ⟨hm', .mk moved fresh ticks exit (.inl rfl) (env.host.during_refl _)⟩

end

/-- The WAL file is read when the application has moved to `a`. -/
structure ReadsWal (w : World A) (a : A) (walData : Bytes) : Prop where
  moved : env.host.during w.app a
  held : env.host.wal a = some walData
  allowed : env.allows { w with app := a } (.readFile (env.host.dbPath ++ ['-', 'w', 'a', 'l']))
    (.ok walData)

/-- The manager after it captures the salt of a WAL file. -/
def Head.captured (h : Head) (walData : Bytes) : Head :=
  if h.walHeaderSalt.isNone ∧ walSaltOffset + walSaltLen ≤ walData.length then
    { h with walHeaderSalt := some (walSalt walData) }
  else h

@[simp] theorem Head.captured_generation (h : Head) (walData : Bytes) :
    (h.captured walData).generation = h.generation := by
  unfold Head.captured
  split <;> rfl

@[simp] theorem Head.captured_walOffset (h : Head) (walData : Bytes) :
    (h.captured walData).walOffset = h.walOffset := by
  unfold Head.captured
  split <;> rfl

@[simp] theorem Head.captured_walIndex (h : Head) (walData : Bytes) :
    (h.captured walData).walIndex = h.walIndex := by
  unfold Head.captured
  split <;> rfl

@[simp] theorem Head.captured_manifest (h : Head) (walData : Bytes) :
    (h.captured walData).manifest = h.manifest := by
  unfold Head.captured
  split <;> rfl

/-- The bytes of a WAL file that a sync uploads. -/
def Head.unsynced (h : Head) (walData : Bytes) : Bytes :=
  (walData.drop h.walOffset).take (walAlignedLen walData - h.walOffset)

/-- The WAL file is another one than at the last sync. -/
def Head.discontinuous (h : Head) (walData : Bytes) : Bool :=
  checkWalDiscontinuity h.walOffset h.walHeaderSalt walData walData.length

/-- The manager once its manifest lists the segment of a sync. -/
def Head.listed (h : Head) (walData : Bytes) (now : Nat) : Head :=
  { h with
    manifest :=
      h.manifest.addSegment h.walIndex now h.walOffset (h.unsynced walData).length }

/-- The manager after a sync. -/
def Head.advanced (h : Head) (walData : Bytes) (now nextIndex : Nat) : Head :=
  { h.listed walData now with walOffset := walAlignedLen walData, walIndex := nextIndex }

def withSegment (b : Bucket) (h : Head) (encoded : Bytes) : Bucket :=
  store config b (.segment h.generation h.walIndex) encoded

def withListing (b : Bucket) (h : Head) (encoded manifest : Bytes) : Bucket :=
  store config (withSegment config b h encoded) (.manifest h.generation) manifest

/-- The ways out of the upload at the end of `sync_wal`. -/
inductive UploadExit (w : World A) (h : Head) (walData : Bytes) :
    Except Error Unit → Head → World A → Prop where
  | unsaved {e : Error} {a : A} {b : Bucket} (moved : env.host.during w.app a)
      (failed : StoreFails config env (.segment h.generation h.walIndex) (h.unsynced walData))
      (partly : b = w.bucket ∨ ∃ encoded,
        Sends config env (.segment h.generation h.walIndex) (h.unsynced walData) encoded ∧
          b = withSegment config w.bucket h encoded) :
      UploadExit w h walData (.error e) h { w with app := a, bucket := b }
  | unlisted {e : Error} {a : A} {b : Bucket} {encoded : Bytes} {now : Nat}
      (moved : env.host.during w.app a)
      (sent : Sends config env (.segment h.generation h.walIndex) (h.unsynced walData) encoded)
      (ticks : env.host.tick w.clock now)
      (failed : ListingFails config env h.generation (h.listed walData now).manifest)
      (partly : b = withSegment config w.bucket h encoded ∨
        ∃ manifest,
          SendsManifest config env h.generation (h.listed walData now).manifest manifest ∧
          b = withListing config w.bucket h encoded manifest) :
      UploadExit w h walData (.error e) (h.listed walData now)
        { w with
          app := a
          bucket := b
          clock := now
          log := .stored (objectKey config (.segment h.generation h.walIndex)) :: w.log }
  | done {a : A} {encoded manifest : Bytes} {now nextIndex : Nat}
      (moved : env.host.during w.app a)
      (sent : Sends config env (.segment h.generation h.walIndex) (h.unsynced walData) encoded)
      (ticks : env.host.tick w.clock now)
      (listed : SendsManifest config env h.generation (h.listed walData now).manifest manifest)
      (next : incrementU32 pf.build h.walIndex = some nextIndex) :
      UploadExit w h walData (.ok ()) (h.advanced walData now nextIndex)
        { w with
          app := a
          bucket := withListing config w.bucket h encoded manifest
          clock := now
          log := .stored (objectKey config (.manifest h.generation)) ::
            .stored (objectKey config (.segment h.generation h.walIndex)) :: w.log }

structure UploadWatched (change : Bucket → Bucket → Prop) (w : World A) (h : Head)
    (walData : Bytes) : Prop where
  start : change w.bucket w.bucket
  saved : ∀ encoded,
    Sends config env (.segment h.generation h.walIndex) (h.unsynced walData) encoded →
    Along change w.bucket [withSegment config w.bucket h encoded]
  listed : ∀ encoded now manifest,
    Sends config env (.segment h.generation h.walIndex) (h.unsynced walData) encoded →
    SendsManifest config env h.generation (h.listed walData now).manifest manifest →
    Along change (withSegment config w.bucket h encoded)
      [withListing config w.bucket h encoded manifest]

section
variable {config env} {change : Bucket → Bucket → Prop} {m : BackupManager pf.build} {w : World A}

theorem wp_uploadSegment {walData : Bytes} (hm : Uses config m)
    (hnew : m.walOffset < walAlignedLen walData)
    (watched : UploadWatched config env change w (head m) walData) :
    Op.wp env.serve (watch change) (uploadSegment pf walData (walAlignedLen walData))
      (fun _ m' w' => Uses config m' ∧
        UploadExit config env w (head m) walData (.ok ()) (head m') w')
      (fun e m' w' => Uses config m' ∧
        UploadExit config env w (head m) walData (.error e) (head m') w')
      m w := by
  simp only [uploadSegment, Op.wp_bind, Op.wp_get, hm.1, hm.2, Op.wp_modify, Op.wp_ofOption,
    slice_aligned walData hnew, Option.some.injEq]
  rintro _ rfl
  refine wp_pipelineEncode config _ watched.start ?_ ?_
  swap
  · exact fun e a moved failed => ⟨hm, .unsaved moved (.inl ⟨e, failed⟩) (.inl rfl)⟩
  intro a₁ encoded moved₁ encodes
  refine wp_putObject _ _ _ watched.start (fun taken => ?_) (fun taken a₂ moved₂ => ?_) ?_
  · exact (watched.saved encoded ⟨encodes, taken⟩).2
  swap
  · rintro ⟨v, reply, bad, allowed⟩ e a b moved hb
    refine ⟨hm, .unsaved (env.host.during_trans moved₁ moved)
      (.inr ⟨encoded, encodes, v, reply, bad, allowed⟩) ?_⟩
    exact hb.imp_right fun h => ⟨encoded, ⟨encodes, v, reply, allowed⟩, h⟩
  have sent : Sends config env (.segment m.generation m.walIndex) ((head m).unsynced walData) encoded :=
    ⟨encodes, taken⟩
  have again := (watched.saved encoded sent).2.2
  refine wp_nowMs again fun a₃ now moved₃ ticks => ?_
  have moved := env.host.during_trans moved₁ (env.host.during_trans moved₂ moved₃)
  refine wp_uploadManifest hm again (fun manifest listed =>
    watched.listed encoded now manifest sent listed) ?_ ?_
  · intro a manifest moved' listed
    refine wp_quiet rfl (watched.listed encoded now manifest sent listed).2.2 ?_
    rintro a' t moved'' - - nextIndex next
    exact ⟨hm, .done (env.host.during_trans moved (env.host.during_trans moved' moved'')) sent
      ticks listed next⟩
  · intro failed e a b moved' hb
    exact ⟨hm, .unlisted (env.host.during_trans moved moved') sent ticks failed hb⟩

end

/-- The ways out of `sync_wal`. -/
inductive SyncExit (w : World A) (h : Head) : Except Error Bool → Head → World A → Prop where
  | absent {reply : Except String Bool} {a : A} (moved : env.host.during w.app a)
      (missing : reply ≠ .ok true)
      (allowed : env.allows { w with app := a }
        (.tryExists (env.host.dbPath ++ ['-', 'w', 'a', 'l'])) reply)
      (found : ∀ found, reply = .ok found → found = (env.host.wal a).isSome) :
      SyncExit w h (.ok false) h { w with app := a }
  | unread {e : Error} {a : A} (moved : env.host.during w.app a)
      (failed : env.Denies (.readFile (env.host.dbPath ++ ['-', 'w', 'a', 'l']))) :
      SyncExit w h (.error e) h { w with app := a }
  | short {walData : Bytes} {a : A} (read : ReadsWal env w a walData)
      (short : walData.length ≤ walHeaderSize) : SyncExit w h (.ok false) h { w with app := a }
  | recovered {walData : Bytes} {a : A} {h' : Head} {w' : World A} (read : ReadsWal env w a walData)
      (long : walHeaderSize < walData.length) (broken : h.discontinuous walData = true)
      (exit : Regenerated config env { w with app := a } h (.ok ()) h' w') :
      SyncExit w h (.ok false) h' w'
  | unrecovered {walData : Bytes} {e : Error} {a : A} {h' : Head} {w' : World A}
      (read : ReadsWal env w a walData) (long : walHeaderSize < walData.length)
      (broken : h.discontinuous walData = true)
      (exit : Regenerated config env { w with app := a } h (.error e) h' w') :
      SyncExit w h (.error e) h' w'
  | covered {walData : Bytes} {a : A} (read : ReadsWal env w a walData)
      (long : walHeaderSize < walData.length) (continuous : h.discontinuous walData = false)
      (covered : walAlignedLen walData ≤ walHeaderSize ∨ walAlignedLen walData ≤ h.walOffset) :
      SyncExit w h (.ok false) (h.captured walData) { w with app := a }
  | uploaded {walData : Bytes} {a : A} {h' : Head} {w' : World A} (read : ReadsWal env w a walData)
      (long : walHeaderSize < walData.length) (continuous : h.discontinuous walData = false)
      (frames : walHeaderSize < walAlignedLen walData) (new : h.walOffset < walAlignedLen walData)
      (exit : UploadExit config env { w with app := a } (h.captured walData) walData (.ok ()) h' w') :
      SyncExit w h (.ok true) h' w'
  | unsent {walData : Bytes} {e : Error} {a : A} {h' : Head} {w' : World A}
      (read : ReadsWal env w a walData)
      (long : walHeaderSize < walData.length) (continuous : h.discontinuous walData = false)
      (frames : walHeaderSize < walAlignedLen walData) (new : h.walOffset < walAlignedLen walData)
      (exit : UploadExit config env { w with app := a } (h.captured walData) walData (.error e)
        h' w') :
      SyncExit w h (.error e) h' w'

structure SyncWatched (change : Bucket → Bucket → Prop) (w : World A) (h : Head) : Prop where
  start : change w.bucket w.bucket
  recovers : ∀ a walData, ReadsWal env w a walData → h.discontinuous walData = true →
    RegenerationWatched config env change { w with app := a } h
  uploads : ∀ a walData, ReadsWal env w a walData → h.discontinuous walData = false →
    walHeaderSize < walAlignedLen walData → h.walOffset < walAlignedLen walData →
    UploadWatched config env change { w with app := a } (h.captured walData) walData

section
variable {config env} {change : Bucket → Bucket → Prop} {m : BackupManager pf.build} {w : World A}

theorem head_captureSalt (m : BackupManager pf.build) (walData : Bytes) :
    head (m.captureSalt pf walData) = (head m).captured walData := by
  unfold BackupManager.captureSalt Head.captured
  split_ifs with h h' h'
  · rfl
  · exact absurd h h'
  · exact absurd h' h
  · rfl

theorem Uses.captureSalt (hm : Uses config m) (walData : Bytes) :
    Uses config (m.captureSalt pf walData) := by
  unfold BackupManager.captureSalt
  split
  · exact hm
  · exact hm

theorem wp_syncWal (hm : Uses config m) (hdb : config.dbPath = env.host.dbPath)
    (watched : SyncWatched config env change w (head m)) :
    Op.wp env.serve (watch change) (syncWal pf)
      (fun found m' w' => Uses config m' ∧
        SyncExit config env w (head m) (.ok found) (head m') w')
      (fun e m' w' => Uses config m' ∧ SyncExit config env w (head m) (.error e) (head m') w')
      m w := by
  have path : m.walPath pf = env.host.dbPath ++ ['-', 'w', 'a', 'l'] := by
    rw [walPath, hm.1, hdb]
  have notDb : m.walPath pf ≠ env.host.dbPath := by simp [path]
  simp only [syncWal, Op.wp_bind, Op.wp_get]
  refine wp_quiet rfl watched.start fun a₁ reply moved₁ allowed acts => ?_
  refine Op.wp_ite (fun missing => ?_) fun _ => ?_
  · refine ⟨hm, .absent moved₁ missing (path ▸ allowed) ?_⟩
    rintro found rfl
    exact acts.2.1 path
  simp only [Op.wp_bind, wp_orFail]
  refine wp_quiet rfl watched.start fun a₂ reply moved₂ allowed acts => ?_
  have moved := env.host.during_trans moved₁ moved₂
  cases reply with
  | error e => exact ⟨hm, .unread moved ⟨_, .error e, trivial, path ▸ allowed⟩⟩
  | ok walData =>
    have read : ReadsWal env w a₂ walData := ⟨moved, acts.2.1 path, path ▸ allowed⟩
    refine Op.wp_ite (fun short => ⟨hm, .short read short⟩) fun long => ?_
    rw [Nat.not_le] at long
    refine Op.wp_ite (fun broken => ?_) fun continuous => ?_
    · simp only [Op.wp_bind]
      refine Op.wp_mono (wp_recover hm hdb (watched.recovers a₂ walData read broken)) ?_ ?_
      · rintro ⟨⟩ m' w' ⟨hm', exit⟩
        exact ⟨hm', .recovered read long broken exit⟩
      · rintro e m' w' ⟨hm', exit⟩
        exact ⟨hm', .unrecovered read long broken exit⟩
    · replace continuous : (head m).discontinuous walData = false := by
        simpa [walNeedsRecovery, Head.discontinuous, head] using continuous
      simp only [Op.wp_bind, Op.wp_modify]
      refine Op.wp_ite (fun covered => ?_) fun new => ?_
      · refine ⟨hm.captureSalt walData, ?_⟩
        rw [head_captureSalt]
        exact .covered read long continuous covered
      · simp only [not_or, Nat.not_le] at new
        have uploads := watched.uploads a₂ walData read continuous new.1 new.2
        rw [← head_captureSalt] at uploads
        have offset : (m.captureSalt pf walData).walOffset = m.walOffset := by
          unfold captureSalt
          split <;> rfl
        simp only [Op.wp_bind]
        refine Op.wp_mono (wp_uploadSegment (hm.captureSalt walData) (offset ▸ new.2) uploads) ?_ ?_
        · rintro ⟨⟩ m' w' ⟨hm', exit⟩
          rw [head_captureSalt] at exit
          exact ⟨hm', .uploaded read long continuous new.1 new.2 exit⟩
        · rintro e m' w' ⟨hm', exit⟩
          rw [head_captureSalt] at exit
          exact ⟨hm', .unsent read long continuous new.1 new.2 exit⟩

end

end Waloy.Spec
