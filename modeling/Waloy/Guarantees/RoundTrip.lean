import Waloy.Guarantees.Representation
import Waloy.Guarantees.TransientFaults
import Waloy.Spec.Aligned
import Waloy.Spec.Lasting
import Waloy.Spec.Restored

/-!
# What is backed up is restored

The bucket holds the database file and the part of the WAL file that the manager has synced,
and `restore_latest` rebuilds exactly these. What was complete in the WAL file when a sync began
that reports an upload is among it. The bucket may fail now and then, no more than three times
in a row.
-/
namespace Waloy.Spec
open Waloy.Effect Waloy.Source

variable {pf : Platform} (config : BackupConfig pf.build) {A : Type}

/-- The moves of a host that leave the database file to the manager: between two checkpoints
the others write to the WAL file only. -/
def Host.undisturbed (host : Host A) : Host A :=
  { host with
    during := fun a a' => host.during a a' ∧ host.db a = host.db a'
    during_refl := fun a => ⟨host.during_refl a, rfl⟩
    during_trans := fun h h' => ⟨host.during_trans h.1 h'.1, h.2.trans h'.2⟩ }

/-- The runs of all operations over a WAL file that only grows and a database file that only
the manager writes, with a bucket that fails now and then. -/
def sharedRuns (host : Host A) : Setting (process config) (World A × Nat) :=
  unsteadyRuns config (fun _ => True) host.undisturbed.appending

/-- What `restore_latest` rebuilds, to any path, after every operation of a run from a certain
point on. -/
structure RestoresBackup (host : Host A) (c : Conf (process config) (World A × Nat)) : Prop where
  rebuilt : ∀ {m w streak} (path : Str),
    (sharedRuns config host).Reach c (.idle (some m) (w, streak)) →
    ∃ db, host.db w.app = some db ∧
      restoredLatest config w.bucket path = some ⟨db, (host.walBytes w.app).take m.walOffset⟩
  /-- The frames that were complete when a sync began which reports an upload. -/
  acknowledged : ∀ {s start s' w streak} (path : Str),
    (sharedRuns config host).Reach c
      (.running .syncWal s start (.pure (.ok (.flag true), s')) (w, streak)) →
    ∃ files, restoredLatest config w.bucket path = some files ∧
      (host.walBytes start.1.app).take (walAlignedLen (host.walBytes start.1.app)) <+: files.wal

/-- The snapshot of the generation is the database file. -/
def Saved (host : Host A) (h : Head) (w : World A) : Prop :=
  ∃ db, host.db w.app = some db ∧ content config w.bucket (.snapshot h.generation) = some db

/-- The environment of an operation in these runs, as the proofs use it. -/
structure Calm (host : Host A) (env : Env A) : Prop extends Smooth config host env where
  db : ∀ a, env.host.db a = host.db a
  rests : ∀ {a a'}, env.host.during a a' → host.db a = host.db a'

section
variable {config} {host : Host A} {env : Env A} {w w' : World A} {h h' : Head}

theorem calm_env (host : Host A) (q : Request) (s : Manager pf) :
    Calm config host.undisturbed.appending
      (Regime.env config (smooth config host.undisturbed) q s) where
  toSmooth := smooth_env host.undisturbed q s
  db _ := rfl
  rests moved := moved.1.2

theorem Saved.moved (saved : Saved config host h w) {a : A} (same : host.db w.app = host.db a)
    {t : Nat} : Saved config host h { w with app := a, clock := t } := by
  obtain ⟨db, held, stored⟩ := saved
  exact ⟨db, same ▸ held, stored⟩

/-- Writes that leave the snapshot alone leave the database saved. -/
theorem Saved.of_object (saved : Saved config host h w) (app : host.db w.app = host.db w'.app)
    (generation : h'.generation = h.generation)
    (same : object config w'.bucket (.snapshot h.generation) =
      object config w.bucket (.snapshot h.generation)) : Saved config host h' w' := by
  obtain ⟨db, held, stored⟩ := saved
  refine ⟨db, app ▸ held, ?_⟩
  rw [generation, content_congr config same]
  exact stored

theorem Saved.snapshot (inverts : env.Inverts config) (reads : ∀ a, env.host.db a = host.db a)
    (rests : ∀ {a a'}, env.host.during a a' → host.db a = host.db a')
    (exit : SnapshotExit config env w h (.ok ()) h' w') : Saved config host h' w' := by
  cases exit with
  | @done raw encoded manifest now a₁ a read moved sent ticks listed =>
    refine ⟨raw, ?_, ?_⟩
    · rw [← rests moved, ← reads]
      exact read.held
    · have decodes : pipelineDecode pf encoded config = .ok raw := sent.decodes inverts (by simp)
      simp [content, Head.restarted, withManifest, withLatest, withSnapshot, decodes,
        Except.toOption]

variable (calm : Calm config host env)
include calm

/-- The database file stays saved. -/
theorem saved_lasts : Lasting config env (fun _ => True) (Saved config host) where
  adrift _ := trivial
  moved saved between := saved.moved (calm.rests between)
  begun _ _ _ exit := ⟨trivial, Saved.snapshot calm.inverts calm.db calm.rests exit⟩
  captured {h w} walData saved := saved.of_object rfl (h.captured_generation walData) rfl
  uploaded {h w walData h' w'} _ saved _ _ exit := by
    refine ⟨trivial, ?_⟩
    cases exit with
    | done moved =>
      refine saved.of_object (calm.rests moved) rfl ?_
      simp [withListing, withSegment]
  compacted {h w maxSize h' w'} _ saved exit := by
    refine ⟨trivial, ?_⟩
    cases exit with
    | few => exact saved
    | done recut listed moved =>
      refine saved.of_object (calm.rests moved) rfl ?_
      simp [withChunkList, withChunks]
  retained {h w w'} _ saved tidy exit _ := by
    refine ⟨trivial, ?_⟩
    cases exit with
    | off => exact saved
    | ran retention read allowed ticks moved expunged =>
      refine saved.of_object ((calm.rests read).trans (calm.rests moved)) rfl ?_
      exact expunged.left tidy (fun other => absurd rfl other)
        (objectKey_inside (o := .snapshot h.generation) rfl)

/-- A sync that reports an upload covers what was complete when it began. -/
theorem SyncExit.covers (exit : SyncExit config env w h (.ok true) h' w') :
    walAlignedLen (host.walBytes w.app) ≤ h'.walOffset ∧
      host.walBytes w.app <+: host.walBytes w'.app := by
  cases exit with
  | @uploaded walData a _ _ read long continuous frames new exit =>
    have grown : host.walBytes w.app <+: walData := by
      have bytes : host.walBytes a = walData := by
        rw [Host.walBytes, ← calm.wal, read.held]
        rfl
      exact bytes ▸ calm.grows read.moved
    cases exit with
    | done moved =>
      exact ⟨walAlignedLen_mono grown, (calm.grows read.moved).trans (calm.grows moved)⟩

theorem Performed.covers {s s' : Manager pf}
    (performed : Performed config env w .syncWal s (.ok (.flag true)) s' w') :
    ∃ m', s' = some m' ∧ walAlignedLen (host.walBytes w.app) ≤ m'.walOffset ∧
      host.walBytes w.app <+: host.walBytes w'.app := by
  generalize hr : (Except.ok (Answer.flag true) : Except Error Answer) = result at performed
  cases performed with
  | @synced _ m' r _ uses exit =>
    obtain rfl : r = .ok true := by
      cases r with
      | error e => cases hr
      | ok found =>
        cases hr
        rfl
    exact ⟨m', rfl, exit.covers calm⟩

end

/-- A sync that reports an upload leaves a manager that covers what was complete. -/
def Covers (host : Host A) (q : Request) (start : World A) (r : Except Error Answer)
    (s' : Manager pf) (w' : World A) : Prop :=
  q = .syncWal → r = .ok (.flag true) →
    ∃ m', s' = some m' ∧ walAlignedLen (host.walBytes start.app) ≤ m'.walOffset ∧
      host.walBytes start.app <+: host.walBytes w'.app

/-- What the manager and the bucket have in common between operations, and what lasts beside. -/
def beside (host : Host A) (Q : World A → Prop) (P : Head → World A → Prop) :
    Setting.Invariant (C := process config) (W := World A) where
  idle s w := (mirroring config host).idle s w ∧ Q w ∧ Holding config P s w
  always _ _ _ w := TidyLog config w
  guard q _ _ := watch (changeOf config q)
  result q _ start := Covers host q start

/-- A property that some operations keep. -/
structure Lasts (ops : Request → Prop) (host : Host A) (Q : World A → Prop)
    (P : Head → World A → Prop) : Prop where
  lasting : ∀ {env}, Calm config host.undisturbed.appending env → Lasting config env Q P
  again : ∀ {env w h h' w'}, Calm config host.undisturbed.appending env → ops .snapshot → Q w →
    P h w → Mirrored config host.undisturbed.appending h w →
    SnapshotExit config env w h (.ok ()) h' w' → Q w' ∧ P h' w'

section
variable {config} {ops : Request → Prop} {host : Host A} {Q : World A → Prop}
  {P : Head → World A → Prop}

theorem Lasts.kept (lasts : Lasts config ops host Q P) (codec : Codec config) :
    (beside config host.undisturbed.appending Q P).Kept
      (Regime.setting config (flawless config ops host.undisturbed.appending)) where
  entered _ idle := idle.1.1
  stays tidy served changed := tidy.call served changed
  drift := by
    rintro s w w' ⟨mirrored, world, here⟩ moved
    have mirrored' := (mirroring_kept codec host.undisturbed).drift mirrored moved
    obtain ⟨a, t, between, -, rfl⟩ := moved
    have calm : Calm config host.undisturbed.appending
        (Regime.env config (smooth config host.undisturbed) .new none) := calm_env host .new none
    have lasting := lasts.lasting calm
    exact ⟨mirrored', lasting.adrift world, fun m hs =>
      ⟨(here m hs).1, lasting.moved (here m hs).2 between⟩⟩
  body := by
    intro q s w enabled ⟨mirrored, world, here⟩
    have calm : Calm config host.undisturbed.appending
        (Regime.env config (smooth config host.undisturbed) q s) := calm_env host q s
    have allowed : (Regime.setting config (smooth config host.undisturbed)).enabled q s w := trivial
    have keeps := (mirroring_kept codec host.undisturbed).body allowed mirrored
    have uses : ∀ m, s = some m → Uses config m := fun m hs => (mirrored.2 m hs).1
    let env := Regime.env config (flawless config ops host.undisturbed.appending) q s
    have performs : ((process config).body q s).wp env.serve (watch anyChange)
        (fun out w' => Performed config env w q s out.1 out.2 w' ∧
          (q = .enforceRetention → ∀ m, s = some m → Cleared config w (head m) w')) w :=
      wp_flawless uses
    refine Prog.wp_mono (fun _ _ _ _ h => h) (fun _ _ _ _ h => h.1) ?_ _ _
      (Prog.wp_and _ _ keeps performs)
    rintro ⟨result, s'⟩ w' ⟨idle', performed, cleared⟩ tidy'
    have both := (lasts.lasting calm).performed calm.sound codec
      (fun chosen m hs _ _ stays exit => lasts.again calm (chosen ▸ enabled) world stays
        (mirrored.2 _ hs).2 exit) cleared
      (fun m hs => mirrored.1 _ (mirrored.2 m hs).2.logged)
      (fun m hs => ⟨_, (mirrored.2 m hs).2.backed.held⟩) world here performed
    refine ⟨?_, (idle' tidy').2, both⟩
    rintro rfl rfl
    exact performed.covers calm

/-- Before the first operation there is no manager and no generation. -/
theorem beside_start (config : BackupConfig pf.build) (host : Host A) {b : Bucket} {a : A} {t : Nat}
    (world : Q ⟨b, a, t, []⟩) : (beside config host Q P).idle none ⟨b, a, t, []⟩ := by
  refine ⟨⟨?_, .none _⟩, world, .none _⟩
  intro generation drawn
  cases drawn

/-- The database file that a snapshot has saved. -/
def saving (config : BackupConfig pf.build) (host : Host A) :
    Setting.Invariant (C := process config) (W := World A) :=
  beside config host (fun _ => True) (Saved config host)

theorem saving_kept (codec : Codec config) (host : Host A) :
    (saving config host.undisturbed.appending).Kept
      (Regime.setting config (smooth config host.undisturbed)) := by
  have lasts : Lasts config (fun _ => True) host (fun _ => True)
      (Saved config host.undisturbed.appending) :=
    ⟨fun calm => saved_lasts calm, fun calm _ _ _ _ exit =>
      ⟨trivial, Saved.snapshot calm.inverts calm.db calm.rests exit⟩⟩
  exact lasts.kept codec

/-- What `restore_latest` rebuilds of a bucket that mirrors the manager. -/
theorem Mirrored.rebuilds {host : Host A} {h : Head} {w : World A} {db : Bytes}
    (mirrored : Mirrored config host h w)
    (stored : content config w.bucket (.snapshot h.generation) = some db) (path : Str) :
    restoredLatest config w.bucket path =
      some ⟨db, (host.walBytes w.app).take h.walOffset⟩ := by
  rw [restoredLatest_eq, mirrored.published.latest]
  simp [rebuilt, stored, replayed, mirrored.listed, keysData_segments, mirrored.backed.held]

/-- From where the manager and the bucket agree, they go on to do so. -/
theorem restores_onwards (codec : Codec config) {host : Host A} {s : Manager pf} {w : World A}
    (idle : (saving config host.undisturbed.appending).idle s w) :
    RestoresBackup config host (.idle s (w, 0)) := by
  have kept := saving_kept codec host
  have absorbed := unsteadyRuns_absorbed config (fun _ => True) host.undisturbed.appending
  have rebuilds : ∀ {m w' streak} (path : Str),
      (sharedRuns config host).Reach (.idle s (w, 0)) (.idle (some m) (w', streak)) →
      ∃ db, host.db w'.app = some db ∧ restoredLatest config w'.bucket path =
        some ⟨db, (host.walBytes w'.app).take m.walOffset⟩ := by
    intro m w' streak path run
    obtain ⟨-, steady⟩ := absorbed.idle rfl run
    obtain ⟨⟨-, mirrored⟩, -, saved⟩ := kept.reach steady idle
    obtain ⟨db, held, stored⟩ := (saved m rfl).2
    exact ⟨db, held, (mirrored m rfl).2.rebuilds stored path⟩
  refine ⟨rebuilds, ?_⟩
  intro s₀ start s' w' streak path run
  obtain ⟨-, steady⟩ := absorbed.returned rfl run
  obtain ⟨m', rfl, covered, grown⟩ := (kept.returned steady idle).1 rfl rfl
  obtain ⟨db, -, restored⟩ := rebuilds path run.finish
  refine ⟨_, restored, ?_⟩
  exact (grown.take _).trans (List.take_prefix_take_left covered)

/-- Every point between two operations has a backup of exactly the database file and the synced
part of the WAL file, and no complete frame that a sync acknowledged is missing. -/
theorem restores_backup (codec : Codec config) (host : Host A) (b : Bucket) (a : A) (t : Nat) :
    RestoresBackup config host (.idle none (⟨b, a, t, []⟩, 0)) :=
  restores_onwards codec (beside_start config host.undisturbed.appending trivial)

theorem restores_backup_plain :
    RestoresBackup plainConfig (fileHost fun t t' => t ≤ t')
      (.idle none (⟨∅, ⟨some dbFile, none⟩, 0, []⟩, 0)) :=
  restores_backup plain_codec _ _ _ _

end

end Waloy.Spec
