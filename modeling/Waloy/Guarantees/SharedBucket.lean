import Waloy.Guarantees.Backoff
import Waloy.Guarantees.RoundTrip
import Waloy.Spec.Sharing

/-!
# Two processes that back up to one place

An old process may not have stopped when its successor starts, so two managers may write under one
prefix of one bucket, their calls in any order. Neither notices the other: each backs up to
generations of its own, and the marker is all they both write. So the two backups stay whole, and
`restore_latest` rebuilds one of them. Each process has a WAL file that only grows and a database
file that only its manager writes, and no call fails. Cleaning is left out, which deletes what
others have drawn.
-/
namespace Waloy.Spec
open Waloy.Effect Waloy.Source

variable {pf : Platform} (config : BackupConfig pf.build) {A A' : Type}

/-- The runs of all operations but retention in which no call fails, over a WAL file that only
grows and a database file that only the manager writes. -/
def uncleaned (host : Host A) : Regime pf A :=
  flawless config (· ≠ .enforceRetention) host.undisturbed.appending

/-- The runs of two such processes that are started with a bucket. -/
def BothRun (host : Host A) (host' : Host A') (w : Shared A A')
    (b : Both (process config) (process config) (Shared A A')) : Prop :=
  w.left.log = [] ∧ w.right.log = [] ∧
    Both.Reach (sharing config (uncleaned config host))
      (sharingRight config (uncleaned config host')) ⟨.idle none w, .idle none w, []⟩ b

/-- The database file and the part of the WAL file that a manager has synced. -/
def Host.Synced (host : Host A) (a : A) (m : BackupManager pf.build) (files : Restored) : Prop :=
  ∃ db, host.db a = some db ∧ files = ⟨db, (host.walBytes a).take m.walOffset⟩

/-- Two processes with one bucket, at every point of every run. -/
structure SharesBucket (host : Host A) (host' : Host A') : Prop where
  /-- Each process is where it would be alone, with the same files, clock and ids. -/
  alone : ∀ {w b}, BothRun config host host' w b →
    (∃ d, (uncleaned config host).Reach config (.idle none w.leftWorld) d ∧ b.left.Alike d ∧
      Sees config b.left.world.leftWorld d.world) ∧
    ∃ e, (uncleaned config host').Reach config (.idle none w.rightWorld) e ∧ b.right.Alike e ∧
      Sees config b.right.world.rightWorld e.world
  /-- Between two operations of a process its generation holds its backup. -/
  own : ∀ {w m w' r calls}, BothRun config host host' w ⟨.idle (some m) w', r, calls⟩ →
    ∃ files, host.Synced w'.left.app m files ∧ rebuilt config w'.bucket m.generation = some files
  own' : ∀ {w l m w' calls}, BothRun config host host' w ⟨l, .idle (some m) w', calls⟩ →
    ∃ files, host'.Synced w'.right.app m files ∧ rebuilt config w'.bucket m.generation = some files
  /-- Between two operations of both, `restore_latest` rebuilds one of the two backups. -/
  latest : ∀ {w m m' w' calls} (path : Str),
    BothRun config host host' w ⟨.idle (some m) w', .idle (some m') w', calls⟩ →
    ∃ files, restoredLatest config w'.bucket path = some files ∧
      (host.Synced w'.left.app m files ∨ host'.Synced w'.right.app m' files)

section
variable {config}

/-- A manager that is alone from its start on asks for what is its own. -/
theorem uncleaned_asks (starts : config.autoRestore = false) (host : Host A) {v : World A}
    {d : Conf (process config) (World A)}
    (run : (uncleaned config host).Reach config (.idle none v) d) :
    d.Asks fun v => Territory.Permits config (drawnIds v.log) := by
  obtain ⟨e, read, alike, seen⟩ :=
    (flawless_follows host.undisturbed.appending).reach .idle rfl (fun _ _ _ _ => trivial) run
  intro c asked
  cases d with
  | idle => cases asked
  | running q s start p w =>
    cases p with
    | call c' next =>
      cases asked
      cases alike
      subst seen
      exact (territory_accepts starts).permitted Call.answerable Manager.unopened read
    | _ => cases asked

/-- Two processes that start with a bucket are where each would be alone. -/
theorem BothRun.divided (starts : config.autoRestore = false) {host : Host A} {host' : Host A'}
    {w : Shared A A'} {b : Both (process config) (process config) (Shared A A')}
    (both : BothRun config host host' w b) :
    ∃ d e, Both.Divided (Regime.setting config (uncleaned config host))
      (Regime.setting config (uncleaned config host')) (Joint config)
      (.idle none w.leftWorld) (.idle none w.rightWorld) b d e := by
  obtain ⟨unused, unused', run⟩ := both
  have mine : drawnIds w.left.log = [] := congrArg drawnIds unused
  have theirs : drawnIds w.right.log = [] := congrArg drawnIds unused'
  have joint : Joint config w w.leftWorld w.rightWorld := by
    constructor
    case left => exact ⟨rfl, rfl, rfl, fun _ _ => rfl, id⟩
    case right => exact ⟨rfl, rfl, rfl, fun _ _ => rfl, id⟩
    case apart => simp [mine]
    case foreign => simp [theirs]
    case foreign' => simp [mine]
    case marked => exact .inl rfl
  refine (sharing_divide _ _ _ _).reach (fun _ => uncleaned_asks starts host)
    (fun _ => uncleaned_asks starts host') ?_ run
  exact ⟨rfl, .refl, .refl, .idle, .idle, joint⟩

theorem mem_drawnIds {generation : Str} {log : List Event} (drew : .drew generation ∈ log) :
    generation ∈ drawnIds log := by
  induction log with
  | nil => cases drew
  | cons event log ih =>
    cases event with
    | drew other =>
      obtain same | older := List.mem_cons.mp drew
      · cases same
        exact List.mem_cons_self
      · exact List.mem_cons_of_mem _ (ih older)
    | stored key =>
      obtain same | older := List.mem_cons.mp drew
      · cases same
      · exact ih older

/-- A generation that a process has drawn is in the bucket as the process sees it. -/
theorem Sees.rebuilt {w v : World A} (sees : Sees config w v) {generation : Str}
    {manifest : GenerationManifest} (drew : generation ∈ drawnIds w.log)
    (listed : manifestAt config v.bucket generation = some manifest) :
    rebuilt config w.bucket generation = rebuilt config v.bucket generation := by
  have same : ∀ o, ownerOf o = some generation →
      object config v.bucket o = object config w.bucket o := fun o owner => sees.own owner drew
  have listed' : manifestAt config w.bucket generation = some manifest :=
    (manifestAt_congr config (same (.manifest _) rfl)).symm.trans listed
  rw [rebuilt_of_manifest listed, rebuilt_of_manifest listed',
    content_congr config (same (.snapshot _) rfl),
    segmentsData_congr config fun s _ => same (.segment _ s.index) rfl]

/-- What a process that is alone has in the bucket between two operations. -/
theorem uncleaned_saves (codec : Codec config) {host : Host A} {w v : World A}
    (unused : w.log = []) {m : BackupManager pf.build}
    (run : (uncleaned config host).Reach config (.idle none w) (.idle (some m) v)) :
    Mirrored config host.undisturbed.appending (head m) v ∧
      ∃ files, host.Synced v.app m files ∧ rebuilt config v.bucket m.generation = some files := by
  obtain ⟨b, a, t, log⟩ := w
  obtain rfl : log = [] := unused
  have more : (flawless config (fun _ => True) host.undisturbed.appending).Reach config
      (.idle none ⟨b, a, t, []⟩) (.idle (some m) v) := flawless_mono (fun _ _ => trivial) run
  obtain ⟨⟨-, mirrored⟩, -, saved⟩ := (saving_kept codec host).reach more
    (beside_start config host.undisturbed.appending trivial)
  obtain ⟨-, mirrored⟩ := mirrored m rfl
  obtain ⟨-, db, held, stored⟩ := saved m rfl
  refine ⟨mirrored, _, ⟨db, held, rfl⟩, ?_⟩
  have listed : manifestAt config v.bucket m.generation = some m.manifest := mirrored.listed
  have segments : segmentsData config v.bucket m.generation m.manifest.segments =
      some ((host.walBytes v.app).take m.walOffset) := mirrored.backed.held
  have snapshot : content config v.bucket (.snapshot m.generation) = some db := stored
  rw [rebuilt_of_manifest listed, snapshot, segments]
  rfl

/-- The same of the bucket that it shares. -/
theorem Sees.saves (codec : Codec config) {host : Host A} {w₀ w v : World A} (unused : w₀.log = [])
    (sees : Sees config w v) {m : BackupManager pf.build}
    (run : (uncleaned config host).Reach config (.idle none w₀) (.idle (some m) v)) :
    ∃ files, host.Synced w.app m files ∧
      Waloy.Spec.rebuilt config w.bucket m.generation = some files := by
  obtain ⟨mirrored, files, synced, saved⟩ := uncleaned_saves codec unused run
  have drew : m.generation ∈ drawnIds w.log := sees.log ▸ mem_drawnIds mirrored.logged
  refine ⟨files, sees.app ▸ synced, ?_⟩
  exact (sees.rebuilt drew mirrored.listed).trans saved

/-- Two processes with one bucket do not disturb each other. -/
theorem shares_bucket (codec : Codec config) (starts : config.autoRestore = false) (host : Host A)
    (host' : Host A') : SharesBucket config host host' := by
  constructor
  case alone =>
    intro w b both
    obtain ⟨d, e, divided⟩ := both.divided starts
    have right := divided.joint.right
    rw [divided.shared] at right
    exact ⟨⟨d, divided.left, divided.alike, divided.joint.left⟩, e, divided.right, divided.alike',
      right⟩
  case own =>
    intro w m w' r calls both
    obtain ⟨d, e, divided⟩ := both.divided starts
    obtain ⟨-, run, -, alike, -, joint⟩ := divided
    cases alike
    exact joint.left.saves codec both.1 run
  case own' =>
    intro w l m w' calls both
    obtain ⟨d, e, divided⟩ := both.divided starts
    obtain ⟨shared, -, run, -, alike, joint⟩ := divided
    cases alike
    obtain rfl : l.world = w' := shared
    exact joint.right.saves codec both.2.1 run
  case latest =>
    intro w m m' w' calls path both
    obtain ⟨d, e, divided⟩ := both.divided starts
    obtain ⟨-, run, run', alike, alike', joint⟩ := divided
    cases alike
    cases alike'
    have latest : ∀ {generation : Str},
        object config w'.bucket .latest = some (asBytes generation) →
        restoredLatest config w'.bucket path = rebuilt config w'.bucket generation := by
      intro generation marker
      rw [restoredLatest_eq, marker, Option.bind_some, fromUtf8_asBytes, Option.bind_some]
    obtain ⟨mine, -⟩ := uncleaned_saves codec both.1 run
    obtain ⟨theirs, -⟩ := uncleaned_saves codec both.2.1 run'
    obtain marker | marker := joint.marked
    · obtain ⟨files, synced, saved⟩ := joint.left.saves codec both.1 run
      exact ⟨files, (latest (marker.trans mine.published.latest)).trans saved, .inl synced⟩
    · obtain ⟨files, synced, saved⟩ := joint.right.saves codec both.2.1 run'
      exact ⟨files, (latest (marker.trans theirs.published.latest)).trans saved, .inr synced⟩

theorem shares_bucket_plain :
    SharesBucket plainConfig (fileHost fun t t' => t ≤ t') (fileHost fun t t' => t ≤ t') :=
  shares_bucket plain_codec rfl _ _

end

end Waloy.Spec
