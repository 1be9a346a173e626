import Waloy.Spec.Purging

/-!
# What lasts through the operations of a run without a failure

An operation takes a snapshot of a new generation or of its own, uploads a segment, compacts, or
runs a retention. A property of the bucket and one of the open manager that each of these brings
about or keeps are kept by every operation.
-/
namespace Waloy.Spec
open Waloy.Effect Waloy.Source

variable {pf : Platform} (config : BackupConfig pf.build) {A : Type}

/-- Nothing is left of what expires before the cutoff of a retention run. -/
def Cleared (w : World A) (h : Head) (w' : World A) : Prop :=
  ∀ duration, config.retentionDuration = some duration →
    Purged config w.bucket h.generation (w'.clock - duration % 2 ^ 64) w'.bucket

/-- A property of the world, and one of what the open manager remembers in it. -/
structure Lasting (env : Env A) (Q : World A → Prop) (P : Head → World A → Prop) : Prop where
  adrift : ∀ {w a t}, Q w → Q { w with app := a, clock := t }
  moved : ∀ {h w a t}, P h w → env.host.during w.app a → P h { w with app := a, clock := t }
  /-- The first snapshot of a generation that has just been drawn. -/
  begun : ∀ {generation w h h' w' a t}, Q w → Fresh w.bucket generation →
    h.generation = generation →
    SnapshotExit config env { w with app := a, clock := t, log := .drew generation :: w.log } h
      (.ok ()) h' w' → Q w' ∧ P h' w'
  captured : ∀ {h w} walData, P h w → P (h.captured walData) w
  uploaded : ∀ {h w walData h' w'}, Q w → P h w → env.host.wal w.app = some walData →
    h.walOffset < walAlignedLen walData → UploadExit config env w h walData (.ok ()) h' w' →
    Q w' ∧ P h' w'
  compacted : ∀ {h w maxSize h' w'}, Q w → P h w →
    CompactExit config env w h maxSize (.ok ()) h' w' → Q w' ∧ P h' w'
  retained : ∀ {h w w'}, Q w → P h w → Tidy config w.bucket h.generation →
    RetentionExit config env w h w' → Cleared config w h w' → Q w' ∧ P h w'

namespace Lasting

variable {config} {env : Env A} {Q : World A → Prop} {P : Head → World A → Prop}
  (lasting : Lasting config env Q P) (sound : env.Faultless) (codec : Codec config)
  {w w' : World A} {h h' : Head}
include lasting

theorem between {a : A} (both : Q w ∧ P h w) (moved : env.host.during w.app a) :
    Q { w with app := a } ∧ P h { w with app := a } :=
  ⟨lasting.adrift both.1, lasting.moved (t := w.clock) both.2 moved⟩

theorem opened (world : Q w) (exit : OpeningExit config env w (.ok h') w') : Q w' ∧ P h' w' := by
  obtain ⟨generation, now, a, a', w₁, -, fresh, -, taken, moved, rfl⟩ := exit.of_ok
  exact lasting.between (lasting.begun world fresh rfl taken) moved

include sound codec

theorem regenerated {r : Except Error Unit} (world : Q w)
    (exit : Regenerated config env w h r h' w') : Q w' ∧ P h' w' := by
  obtain ⟨generation, now, a, a', w₁, -, fresh, -, taken, moved, rfl, -⟩ :=
    exit.faultless sound codec
  exact lasting.between (lasting.begun world fresh rfl taken) moved

theorem synced {r : Except Error Bool} (both : Q w ∧ P h w)
    (exit : SyncExit config env w h r h' w') : Q w' ∧ P h' w' := by
  have uploads : ∀ {walData a h' w'} {r : Except Error Unit}, ReadsWal env w a walData →
      (h.captured walData).walOffset < walAlignedLen walData →
      UploadExit config env { w with app := a } (h.captured walData) walData r h' w' →
      Q w' ∧ P h' w' := by
    intro walData a h' w' r read new exit
    obtain rfl := exit.faultless sound codec
    obtain ⟨world, here⟩ := lasting.between both read.moved
    exact lasting.uploaded world (lasting.captured walData here) read.held new exit
  cases exit with
  | absent moved => exact lasting.between both moved
  | unread moved => exact lasting.between both moved
  | short read => exact lasting.between both read.moved
  | recovered read long broken exit =>
    exact lasting.regenerated sound codec (lasting.adrift both.1) exit
  | unrecovered read long broken exit =>
    exact lasting.regenerated sound codec (lasting.adrift both.1) exit
  | covered read =>
    obtain ⟨world, here⟩ := lasting.between both read.moved
    exact ⟨world, lasting.captured _ here⟩
  | uploaded read long continuous frames new exit => exact uploads read (by simpa using new) exit
  | unsent read long continuous frames new exit => exact uploads read (by simpa using new) exit

theorem checkpointed {r : Except Error Unit} (both : Q w ∧ P h w)
    (exit : CheckpointExit config env w h r h' w') : Q w' ∧ P h' w' := by
  cases exit with
  | unsynced sync => exact lasting.synced sound codec both sync
  | unmoved sync moved cut failed => exact absurd failed (sound.batches _ _)
  | regenerated sync moved cut exit =>
    obtain ⟨world, -⟩ := lasting.synced sound codec both sync
    exact lasting.regenerated sound codec (lasting.adrift world) exit

theorem considered {r : Except Error Bool} (both : Q w ∧ P h w)
    (exit : IntervalExit config env w h r h' w') : Q w' ∧ P h' w' := by
  cases exit with
  | skipped moved => exact lasting.between both moved
  | taken moved exit => exact lasting.checkpointed sound codec (lasting.between both moved) exit
  | failed moved exit => exact lasting.checkpointed sound codec (lasting.between both moved) exit

theorem closed (both : Q w ∧ P h w) (exit : ShutdownExit config env w h h' w') :
    Q w' ∧ P h' w' := by
  cases exit with
  | already => exact both
  | closed sync moved => exact lasting.between (lasting.synced sound codec both sync) moved

/-- One case for each operation; a snapshot on demand is left to the property. -/
theorem performed {q : Request} {s s' : Manager pf} {r : Except Error Answer}
    (again : q = .snapshot → ∀ {m}, s = some m → ∀ {h' w'}, P (head m) w →
      SnapshotExit config env w (head m) (.ok ()) h' w' → Q w' ∧ P h' w')
    (cleared : q = .enforceRetention → ∀ m, s = some m → Cleared config w (head m) w')
    (tidy : ∀ m, s = some m → Tidy config w.bucket m.generation)
    (held : ∀ m, s = some m → ∃ data,
      segmentsData config w.bucket m.generation m.manifest.segments = some data)
    (world : Q w) (idle : Holding config P s w) (performed : Performed config env w q s r s' w') :
    Q w' ∧ Holding config P s' w' := by
  have ends : ∀ {m' : BackupManager pf.build}, Uses config m' → Q w' ∧ P (head m') w' →
      Q w' ∧ Holding config P (some m') w' := fun uses both => ⟨both.1, .some uses both.2⟩
  cases performed with
  | opened uses exit => exact ends uses (lasting.opened world exit)
  | unopened exit =>
    refine ⟨?_, .none _⟩
    generalize hr : (Except.error _ : Except Error Head) = r at exit
    cases exit with
    | unopened => exact lasting.adrift world
    | made opened fresh ticks taken moved =>
      rw [taken.faultless sound codec] at hr
      cases hr
  | synced uses exit => exact ends uses (lasting.synced sound codec ⟨world, (idle _ rfl).2⟩ exit)
  | snapped uses exit =>
    obtain rfl := exit.faultless sound codec
    exact ends uses (again rfl rfl (idle _ rfl).2 exit)
  | checkpointed uses exit =>
    exact ends uses (lasting.checkpointed sound codec ⟨world, (idle _ rfl).2⟩ exit)
  | considered uses exit =>
    exact ends uses (lasting.considered sound codec ⟨world, (idle _ rfl).2⟩ exit)
  | @compacted m _ _ _ r _ uses exit =>
    obtain ⟨data, held⟩ := held m rfl
    generalize hr : r.map (fun _ => ()) = r' at exit
    obtain rfl := exit.faultless sound codec held
    exact ends uses (lasting.compacted world (idle _ rfl).2 exit)
  | retained uses exit =>
    exact ends uses
      (lasting.retained world (idle _ rfl).2 (tidy _ rfl) exit (cleared rfl _ rfl))
  | closed uses exit => exact ends uses (lasting.closed sound codec ⟨world, (idle _ rfl).2⟩ exit)

end Lasting

section
variable {config} {ops : Request → Prop} {host : Host A} {Q : World A → Prop}
  {P : Head → World A → Prop}

/-- The exits of an operation in which no call fails; a retention run clears what expires. -/
theorem wp_flawless {q : Request} {s : Manager pf} {w : World A}
    (uses : ∀ m, s = some m → Uses config m) :
    ((process config).body q s).wp ((flawless config ops host).env config q s).serve
      (watch anyChange)
      (fun out w' =>
        Performed config ((flawless config ops host).env config q s) w q s out.1 out.2 w' ∧
          (q = .enforceRetention → ∀ m, s = some m → Cleared config w (head m) w')) w := by
  have exits : ((process config).body q s).wp ((flawless config ops host).env config q s).serve
      (watch anyChange) (fun out w' => Performed config
        ((flawless config ops host).env config q s) w q s out.1 out.2 w') w :=
    wp_process rfl uses (request_any q s)
  by_cases retention : q = .enforceRetention
  swap
  · exact Prog.wp_mono (fun _ _ _ _ h => h) (fun _ _ _ _ h => h)
      (fun _ _ performed => ⟨performed, fun chosen => absurd chosen retention⟩) _ _ exits
  subst retention
  cases s with
  | none => trivial
  | some m =>
    have sound : ∀ v c reply,
        ((flawless config ops host).env config .enforceRetention (some m)).allows v c reply →
          faultless config.dbPath v c reply := fun _ _ _ allowed => allowed.1
    have clears : ((process config).body .enforceRetention (some m)).wp
        ((flawless config ops host).env config .enforceRetention (some m)).serve (watch anyChange)
        (fun _ w' => Cleared config w (head m) w') w :=
      (wp_method _ _ m).mpr (Op.wp_mono (wp_enforceRetention_all sound (uses m rfl))
        (fun _ _ _ h => h) fun _ _ _ => False.elim)
    refine Prog.wp_mono (fun _ _ _ _ h => h) (fun _ _ _ _ h => h.1) ?_ _ _
      (Prog.wp_and _ _ exits clears)
    rintro out w' ⟨performed, cleared⟩
    exact ⟨performed, fun _ _ same => Option.some.inj same ▸ cleared⟩

/-- What lasts, as an invariant of the runs of some operations without a failure. -/
def lastingly (config : BackupConfig pf.build) (Q : World A → Prop) (P : Head → World A → Prop) :
    Setting.Invariant (C := process config) (W := World A) where
  idle s w := Q w ∧ Holding config P s w

/-- What each operation brings about or keeps lasts through every run. -/
theorem Lasting.kept (codec : Codec config)
    (lasting : ∀ q s, Lasting config ((flawless config ops host).env config q s) Q P)
    (again : ops .snapshot → ∀ {s h w h' w'}, Q w → P h w →
      SnapshotExit config ((flawless config ops host).env config .snapshot s) w h (.ok ()) h' w' →
      Q w' ∧ P h' w')
    (tidy : ∀ {h w}, P h w → Tidy config w.bucket h.generation)
    (held : ∀ {h w}, P h w →
      ∃ data, segmentsData config w.bucket h.generation h.manifest.segments = some data) :
    (lastingly config Q P).Kept ((flawless config ops host).setting config) where
  entered _ _ := trivial
  stays _ _ _ := trivial
  drift := by
    rintro s w w' ⟨world, here⟩ ⟨a, t, between, -, rfl⟩
    have lasts := lasting .new none
    exact ⟨lasts.adrift world, fun m hs => ⟨(here m hs).1, lasts.moved (here m hs).2 between⟩⟩
  body := by
    rintro q s w enabled ⟨world, here⟩
    have sound : ((flawless config ops host).env config q s).Faultless :=
      Env.Faultless.of_allows fun _ _ _ allowed => allowed.1
    refine Prog.wp_mono (fun _ _ _ _ h => h) (fun _ _ _ _ _ => trivial) ?_ _ _
      (wp_flawless fun m hs => (here m hs).1)
    rintro ⟨result, s'⟩ w' ⟨performed, cleared⟩ -
    refine ⟨trivial, (lasting q s).performed sound codec ?_ cleared
      (fun m hs => tidy (here m hs).2) (fun m hs => held (here m hs).2) world here performed⟩
    rintro rfl m - h' w' stays exit
    exact again enabled world stays exit

end

end Waloy.Spec
