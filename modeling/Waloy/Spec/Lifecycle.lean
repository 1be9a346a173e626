import Waloy.Spec.Compaction
import Waloy.Spec.Opening
import Waloy.Spec.Retention

/-!
# The life of a backup

The public operations as the requests of a session. Between two operations the
application and the clock go on; a process that starts over opens the backup anew
and has no other memory of it than the bucket.
-/
namespace Waloy.Spec
open Waloy.Effect Waloy.Source

inductive Request where
  | new
  | syncWal
  | snapshot
  | checkpoint
  | maybeSnapshot
  | compact (maxSegmentSize : Option Nat) (fuel : Nat)
  | enforceRetention
  | shutdown
  deriving DecidableEq

/-- What an operation returns. -/
inductive Answer where
  | unit
  | flag (value : Bool)
  | count (value : Nat)
  | compaction (value : CompactionResult)
  deriving DecidableEq

variable {pf : Platform} (config : BackupConfig pf.build)

/-- The manager of the process, if one is open. -/
abbrev Manager (pf : Platform) := Option (BackupManager pf.build)

/-- Where no manager is open, anything holds of the open one. -/
theorem Manager.unopened {P : BackupManager pf.build → Prop} (m : BackupManager pf.build)
    (opened : (none : Manager pf) = some m) : P m := by
  cases opened

/-- A method of the open manager. -/
def method {α : Type} (answer : α → Answer) (x : BackupManager.Method pf α)
    (m : BackupManager pf.build) : Prog Calls (Except Error Answer × Manager pf) :=
  (x m).bind fun out => .pure (out.1.map answer, some out.2)

/-- `new` in a process that holds nothing yet. -/
def opening : Prog Calls (Except Error Answer × Manager pf) :=
  (BackupManager.new pf config ()).bind fun out =>
    match out.1 with
    | .ok m => .pure (.ok .unit, some m)
    | .error e => .pure (.error e, none)

def methodBody (m : BackupManager pf.build) :
    Request → Prog Calls (Except Error Answer × Manager pf)
  | .new => opening config
  | .syncWal => method .flag (BackupManager.syncWal pf) m
  | .snapshot => method (fun _ => .unit) (BackupManager.snapshot pf) m
  | .checkpoint => method (fun _ => .unit) (BackupManager.checkpoint pf) m
  | .maybeSnapshot => method .flag (BackupManager.maybeSnapshot pf) m
  | .compact maxSegmentSize fuel =>
    method .compaction (BackupManager.compact pf maxSegmentSize fuel) m
  | .enforceRetention => method .count (BackupManager.enforceRetention pf) m
  | .shutdown => method (fun _ => .unit) (BackupManager.shutdown pf) m

/-- The process: without a manager there is nothing to call but `new`. -/
def process : Client Calls where
  Request := Request
  State := Manager pf
  Result := Except Error Answer
  body
    | q, some m => methodBody config m q
    | .new, none => opening config
    | _, none => .halt

/-- Between two operations the application moves and time passes. -/
def idleMove {A : Type} (host : Host A) (w w' : World A) : Prop :=
  ∃ a t, host.during w.app a ∧ (t = w.clock ∨ host.tick w.clock t) ∧
    w' = { w with app := a, clock := t }

/-- The runs a statement is about: the operations that take place, the answers they
get, and what happens between them. -/
structure Regime (pf : Platform) (A : Type) where
  host : Host A
  enabled : Request → Manager pf → Prop
  allows : Request → Manager pf → World A → (c : Call) → c.Reply → Prop
  drift : World A → World A → Prop

namespace Regime

variable {A : Type} (R : Regime pf A)

/-- The host keeps the files of the configuration. -/
def hostOf : Host A := { R.host with dbPath := config.dbPath }

/-- The environment of an operation. -/
def env (q : Request) (s : Manager pf) : Env A := ⟨R.hostOf config, R.allows q s⟩

def setting : Setting (process config) (World A) where
  enabled q s _ := R.enabled q s
  serve q s := (R.env config q s).serve
  drift _ := R.drift

abbrev Reach : Conf (process config) (World A) → Conf (process config) (World A) → Prop :=
  (R.setting config).Reach

end Regime

section
variable {W : Type} {serve guard : Server Calls W} {w : W}
  {post : Except Error Answer × Manager pf → W → Prop}

theorem wp_method {α : Type} (answer : α → Answer) (x : BackupManager.Method pf α)
    (m : BackupManager pf.build) :
    (method answer x m).wp serve guard post w ↔
      Op.wp serve guard x (fun value m' => post (.ok (answer value), some m'))
        (fun e m' => post (.error e, some m')) m w := by
  unfold method Op.wp
  rw [Prog.wp_bind]
  refine Prog.wp_congr ?_ _ _
  rintro ⟨_ | _, _⟩ _ <;> rfl

theorem wp_opening :
    (opening config).wp serve guard post w ↔
      Op.wp serve guard (BackupManager.new pf config)
        (fun m _ => post (.ok .unit, some m)) (fun e _ => post (.error e, none)) () w := by
  unfold opening Op.wp
  rw [Prog.wp_bind]
  refine Prog.wp_congr ?_ _ _
  rintro ⟨_ | _, _⟩ _ <;> rfl

end

/-- A property of what an open manager remembers, together with the world. -/
def Holding {A : Type} (I : Head → World A → Prop) (s : Manager pf) (w : World A) : Prop :=
  ∀ m, s = some m → Uses config m ∧ I (head m) w

theorem Holding.some {config : BackupConfig pf.build} {A : Type} {I : Head → World A → Prop}
    {m : BackupManager pf.build} {w : World A} (uses : Uses config m) (h : I (head m) w) :
    Holding config I (some m) w := by
  rintro _ ⟨⟩
  exact ⟨uses, h⟩

theorem Holding.none {A : Type} {I : Head → World A → Prop} {w : World A} :
    Holding config I none w := Manager.unopened

/-- What an operation may do, when nothing is asked of its single calls. -/
inductive Performed {A : Type} (env : Env A) (w : World A) :
    Request → Manager pf → Except Error Answer → Manager pf → World A → Prop where
  | opened {s : Manager pf} {m' : BackupManager pf.build} {w' : World A} (uses : Uses config m')
      (exit : OpeningExit config env w (.ok (head m')) w') :
      Performed env w .new s (.ok .unit) (some m') w'
  | unopened {s : Manager pf} {e : Error} {w' : World A}
      (exit : OpeningExit config env w (.error e) w') : Performed env w .new s (.error e) none w'
  | synced {m m' : BackupManager pf.build} {r : Except Error Bool} {w' : World A}
      (uses : Uses config m') (exit : SyncExit config env w (head m) r (head m') w') :
      Performed env w .syncWal (some m) (r.map .flag) (some m') w'
  | snapped {m m' : BackupManager pf.build} {r : Except Error Unit} {w' : World A}
      (uses : Uses config m') (exit : SnapshotExit config env w (head m) r (head m') w') :
      Performed env w .snapshot (some m) (r.map fun _ => .unit) (some m') w'
  | checkpointed {m m' : BackupManager pf.build} {r : Except Error Unit} {w' : World A}
      (uses : Uses config m') (exit : CheckpointExit config env w (head m) r (head m') w') :
      Performed env w .checkpoint (some m) (r.map fun _ => .unit) (some m') w'
  | considered {m m' : BackupManager pf.build} {r : Except Error Bool} {w' : World A}
      (uses : Uses config m') (exit : IntervalExit config env w (head m) r (head m') w') :
      Performed env w .maybeSnapshot (some m) (r.map .flag) (some m') w'
  | compacted {m m' : BackupManager pf.build} {maxSegmentSize : Option Nat} {fuel : Nat}
      {r : Except Error Answer} {w' : World A} (uses : Uses config m')
      (exit : CompactExit config env w (head m) (maxSegmentSize.getD (4 * 1024 * 1024))
        (r.map fun _ => ()) (head m') w') :
      Performed env w (.compact maxSegmentSize fuel) (some m) r (some m') w'
  | retained {m : BackupManager pf.build} {r : Except Error Answer} {w' : World A}
      (uses : Uses config m) (exit : RetentionExit config env w (head m) w') :
      Performed env w .enforceRetention (some m) r (some m) w'
  | closed {m m' : BackupManager pf.build} {w' : World A} (uses : Uses config m')
      (exit : ShutdownExit config env w (head m) (head m') w') :
      Performed env w .shutdown (some m) (.ok .unit) (some m') w'

/-- What a guarantee on the bucket has to allow while an operation runs. -/
def RequestWatched {A : Type} (env : Env A) (change : Bucket → Bucket → Prop) (w : World A) :
    Request → Manager pf → Prop
  | .new, _ => OpeningWatched config env change w
  | .syncWal, some m => SyncWatched config env change w (head m)
  | .snapshot, some m => SnapshotWatched config env change w (head m)
  | .checkpoint, some m => CheckpointWatched config env change w (head m)
  | .maybeSnapshot, some m => ∀ a, env.host.during w.app a →
    CheckpointWatched config env change { w with app := a } (head m)
  | .compact maxSegmentSize _, some m =>
    CompactWatched config env change w (head m) (maxSegmentSize.getD (4 * 1024 * 1024))
  | .enforceRetention, some m => RetentionWatched config env change w (head m)
  | .shutdown, some m => SyncWatched config env change w (head m) ∧
    ∀ r h' w', SyncExit config env w (head m) r h' w' → change w'.bucket w'.bucket
  | _, none => True

section
variable {config} {A : Type} {env : Env A} {change : Bucket → Bucket → Prop} {w : World A}

/-- Every operation ends in one of its exits. -/
theorem wp_process (hdb : config.dbPath = env.host.dbPath) {s : Manager pf}
    (hs : ∀ m, s = some m → Uses config m) {q : Request}
    (watched : RequestWatched config env change w q s) :
    ((process config).body q s).wp env.serve (watch change)
      (fun out w' => Performed config env w q s out.1 out.2 w') w := by
  have opens : OpeningWatched config env change w → (opening config).wp env.serve (watch change)
      (fun out w' => Performed config env w .new s out.1 out.2 w') w := by
    intro watched
    rw [wp_opening]
    refine Op.wp_mono (wp_new hdb watched) ?_ ?_
    · rintro m' ⟨⟩ w' ⟨uses, exit⟩
      exact .opened uses exit
    · rintro e ⟨⟩ w' exit
      exact .unopened exit
  cases s with
  | none =>
    cases q with
    | new => exact opens watched
    | _ => trivial
  | some m =>
    have hm := hs m rfl
    cases q with
    | new => exact opens watched
    | syncWal =>
      refine (wp_method _ _ _).mpr (Op.wp_mono (wp_syncWal hm hdb watched) ?_ ?_)
      · rintro found m' w' ⟨uses, exit⟩
        exact .synced uses exit
      · rintro e m' w' ⟨uses, exit⟩
        exact .synced uses exit
    | snapshot =>
      refine (wp_method _ _ _).mpr (Op.wp_mono (wp_snapshot hm hdb watched) ?_ ?_)
      · rintro ⟨⟩ m' w' ⟨uses, exit⟩
        exact .snapped uses exit
      · rintro e m' w' ⟨uses, exit⟩
        exact .snapped uses exit
    | checkpoint =>
      refine (wp_method _ _ _).mpr (Op.wp_mono (wp_checkpoint hm hdb watched) ?_ ?_)
      · rintro ⟨⟩ m' w' ⟨uses, exit⟩
        exact .checkpointed uses exit
      · rintro e m' w' ⟨uses, exit⟩
        exact .checkpointed uses exit
    | maybeSnapshot =>
      refine (wp_method _ _ _).mpr (Op.wp_mono (wp_maybeSnapshot hm hdb watched) ?_ ?_)
      · rintro taken m' w' ⟨uses, exit⟩
        exact .considered uses exit
      · rintro e m' w' ⟨uses, exit⟩
        exact .considered uses exit
    | compact maxSegmentSize fuel =>
      refine (wp_method _ _ _).mpr (Op.wp_mono (wp_compact hm maxSegmentSize fuel watched) ?_ ?_)
      · rintro result m' w' ⟨uses, exit⟩
        exact .compacted uses exit
      · rintro e m' w' ⟨uses, exit⟩
        exact .compacted uses exit
    | enforceRetention =>
      refine (wp_method _ _ _).mpr (Op.wp_mono (wp_enforceRetention hm watched) ?_ ?_)
      · rintro n m' w' ⟨rfl, exit⟩
        exact .retained hm exit
      · rintro e m' w' ⟨rfl, exit⟩
        exact .retained hm exit
    | shutdown =>
      refine (wp_method _ _ _).mpr (Op.wp_mono (wp_shutdown hm hdb watched.1 watched.2) ?_ ?_)
      · rintro ⟨⟩ m' w' ⟨uses, exit⟩
        exact .closed uses exit
      · rintro e m' w' ⟨⟩

end

/-- The guarantee that asks nothing. -/
def anyChange (_ _ : Bucket) : Prop := True

section
variable {config} {A : Type} {env : Env A} {w : World A} {h : Head}

theorem along_any (b : Bucket) (rest : List Bucket) : Along anyChange b rest := by
  induction rest generalizing b with
  | nil => trivial
  | cons b' rest ih => exact ⟨trivial, trivial, ih b'⟩

theorem snapshot_any : SnapshotWatched config env anyChange w h :=
  ⟨trivial, fun _ _ _ _ _ => along_any _ _, fun _ _ _ _ _ _ _ _ => along_any _ _⟩

theorem regeneration_any : RegenerationWatched config env anyChange w h :=
  ⟨trivial, fun _ _ _ _ _ _ => snapshot_any⟩

theorem sync_any : SyncWatched config env anyChange w h :=
  ⟨trivial, fun _ _ _ _ => regeneration_any, fun _ _ _ _ _ _ =>
    ⟨trivial, fun _ _ => along_any _ _, fun _ _ _ _ _ => along_any _ _⟩⟩

theorem checkpoint_any : CheckpointWatched config env anyChange w h :=
  ⟨sync_any, fun _ _ _ _ _ _ _ _ => regeneration_any, fun _ _ _ _ => trivial⟩

theorem request_any (q : Request) (s : Manager pf) : RequestWatched config env anyChange w q s := by
  cases s with
  | none =>
    cases q with
    | new => exact ⟨trivial, fun _ _ _ _ _ _ => snapshot_any⟩
    | _ => trivial
  | some m =>
    cases q with
    | new => exact ⟨trivial, fun _ _ _ _ _ _ => snapshot_any⟩
    | syncWal => exact sync_any
    | snapshot => exact snapshot_any
    | checkpoint => exact checkpoint_any
    | maybeSnapshot => exact fun _ _ => checkpoint_any
    | compact =>
      exact ⟨trivial, fun _ _ _ => ⟨fun _ => trivial, fun _ _ _ => along_any _ _⟩,
        fun _ _ _ _ _ _ _ => along_any _ _, fun _ _ _ _ _ _ _ => along_any _ _⟩
    | enforceRetention =>
      exact ⟨trivial, fun _ _ _ _ _ _ _ _ _ => ⟨trivial, fun _ _ => along_any _ _⟩⟩
    | shutdown => exact ⟨sync_any, fun _ _ _ _ => trivial⟩

end

end Waloy.Spec
