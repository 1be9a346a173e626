import Waloy.Guarantees.Representation
import Waloy.Spec.Archive

/-!
# Restoring a point in time

In a run without a failure and without a compaction, every operation extends the archive
of the bucket. A point-in-time restore at any later moment writes what the latest restore
would have written then.
-/
namespace Waloy.Spec
open Waloy.Effect Waloy.Source Waloy.Source.BackupManager

variable {pf : Platform} (config : BackupConfig pf.build) {A : Type}

/-- The archive behind a process. -/
def archiveOf (s : Manager pf) (w : World A) : Archive :=
  ⟨w.bucket, w.clock, s.map fun m => (m.manifest, m.walIndex)⟩

/-- The manifest of a manager is the one of its generation. -/
def Named (h : Head) (_ : World A) : Prop := h.manifest.generation = h.generation

/-- The archive of an operation that has a manager. -/
def Head.archive (h : Head) (w : World A) : Archive :=
  ⟨w.bucket, w.clock, some (h.manifest, h.walIndex)⟩

/-- No call fails, the codec inverts, and no generation has `2 ^ 32` segments. -/
structure Reliable (env : Env A) : Prop where
  sound : env.Faultless
  inverts : env.Inverts config
  counts : env.Counts config

/-- The archive extends. -/
abbrev Archive.Extends (tick : Nat → Nat → Prop) : Archive → Archive → Prop :=
  Relation.ReflTransGen (Archive.Grow config tick)

section
variable {config} {env : Env A} {w w' : World A} {h h' : Head}

variable (reliable : Reliable config env) (codec : Codec config)
include reliable codec

/-- A snapshot that begins a generation. -/
theorem SnapshotExit.begins {created : Nat} {a : A} {log : List Event} (fresh : Head)
    (isFresh : Fresh w.bucket fresh.generation)
    (manifest : fresh.manifest = GenerationManifest.new fresh.generation created)
    (ticks : env.host.tick w.clock created)
    (exit : SnapshotExit config env { w with app := a, clock := created, log := log } fresh (.ok ())
      h' w') :
    (∀ current, Archive.Grow config env.host.tick ⟨w.bucket, w.clock, current⟩ (h'.archive w')) ∧
      Named h' w' := by
  cases exit with
  | @done raw encoded listing now a₁ a₂ read moved sent ticks' listed =>
    have lists := listed.decodes codec.parses reliable.inverts
    rw [manifest] at lists
    have decodes := sent.decodes reliable.inverts (by simp)
    constructor
    · intro current
      simp only [Head.archive, Head.restarted, manifest]
      exact .began isFresh ticks ticks' decodes lists
    · simp only [Named, Head.restarted, manifest]
      rfl

theorem Regenerated.begins {r : Except Error Unit} (exit : Regenerated config env w h r h' w') :
    (∀ current, Archive.Grow config env.host.tick ⟨w.bucket, w.clock, current⟩ (h'.archive w')) ∧
      Named h' w' := by
  obtain ⟨generation, created, a, a', w₁, moved, fresh, ticks, taken, moved', rfl, -⟩ :=
    exit.faultless reliable.sound codec
  have step := taken.begins reliable codec (h.begun generation created) fresh rfl ticks
  exact step

theorem OpeningExit.begins (exit : OpeningExit config env w (.ok h') w') :
    (∀ current, Archive.Grow config env.host.tick ⟨w.bucket, w.clock, current⟩ (h'.archive w')) ∧
      Named h' w' := by
  obtain ⟨generation, created, a, a', w₁, opened, fresh, ticks, taken, moved, rfl⟩ := exit.of_ok
  have step := taken.begins reliable codec (Head.initial generation created) fresh rfl ticks
  exact step

/-- A `new` that fails has not touched the bucket. -/
theorem OpeningExit.fails {e : Error} (exit : OpeningExit config env w (.error e) w') :
    w'.bucket = w.bucket ∧ w'.clock = w.clock := by
  generalize hr : (Except.error e : Except Error Head) = r at exit
  cases exit with
  | unopened => exact ⟨rfl, rfl⟩
  | made opened fresh ticks taken moved =>
    rw [taken.faultless reliable.sound codec] at hr
    cases hr

theorem UploadExit.adds {walData : Bytes} {r : Except Error Unit} (named : Named h w)
    (new : h.walOffset < walAlignedLen walData) (exit : UploadExit config env w h walData r h' w') :
    Archive.Grow config env.host.tick (h.archive w) (h'.archive w') ∧ Named h' w' := by
  obtain rfl := exit.faultless reliable.sound codec
  cases exit with
  | @done a encoded listing now nextIndex moved sent ticks listed next =>
    rw [incrementU32_of_lt _ (reliable.counts _ _ _ sent.taken)] at next
    obtain rfl := Option.some.inj next
    have some_data : h.unsynced walData ≠ [] := by
      intro empty
      have length := h.unsynced_length walData
      rw [empty, List.length_nil] at length
      omega
    have lists := listed.decodes codec.parses reliable.inverts
    have step : Archive.Grow config env.host.tick (h.archive w)
        ⟨withAdded config w.bucket h.manifest h.walIndex encoded listing, now,
          some ((h.listed walData now).manifest, h.walIndex + 1)⟩ :=
      .added ticks some_data (sent.decodes reliable.inverts (by simp)) lists
    refine ⟨?_, named⟩
    unfold withAdded at step
    rw [named] at step
    exact step

/-- A sync adds a segment, begins a generation or changes nothing. -/
theorem SyncExit.extends {r : Except Error Bool} (named : Named h w)
    (exit : SyncExit config env w h r h' w') :
    Archive.Extends config env.host.tick (h.archive w) (h'.archive w') ∧ Named h' w' := by
  have captured : ∀ walData (a : A), (h.captured walData).archive { w with app := a } = h.archive w := by
    intro walData a
    simp [Head.archive]
  have named_captured : ∀ walData (a : A), Named (h.captured walData) { w with app := a } := by
    intro walData a
    simpa [Named] using named
  cases exit with
  | absent => exact ⟨.refl, named⟩
  | unread => exact ⟨.refl, named⟩
  | short => exact ⟨.refl, named⟩
  | recovered read long broken exit =>
    obtain ⟨step, kept⟩ := exit.begins reliable codec
    exact ⟨.single (step _), kept⟩
  | unrecovered read long broken exit =>
    obtain ⟨step, kept⟩ := exit.begins reliable codec
    exact ⟨.single (step _), kept⟩
  | @covered walData a read =>
    rw [captured walData a]
    exact ⟨.refl, named_captured walData a⟩
  | @uploaded walData a _ _ read long continuous frames new exit =>
    obtain ⟨step, kept⟩ := exit.adds reliable codec (named_captured walData a) (by simpa using new)
    rw [captured walData a] at step
    exact ⟨.single step, kept⟩
  | @unsent walData e a _ _ read long continuous frames new exit =>
    obtain ⟨step, kept⟩ := exit.adds reliable codec (named_captured walData a) (by simpa using new)
    rw [captured walData a] at step
    exact ⟨.single step, kept⟩

theorem CheckpointExit.extends {r : Except Error Unit} (named : Named h w)
    (exit : CheckpointExit config env w h r h' w') :
    Archive.Extends config env.host.tick (h.archive w) (h'.archive w') ∧ Named h' w' := by
  cases exit with
  | unsynced sync => exact sync.extends reliable codec named
  | unmoved sync moved cut failed => exact absurd failed (reliable.sound.batches _ _)
  | @regenerated found r h₁ _ w₁ _ a a' sync moved cut exit =>
    obtain ⟨steps, -⟩ := sync.extends reliable codec named
    obtain ⟨step, kept⟩ := exit.begins reliable codec
    exact ⟨steps.tail (step _), kept⟩

theorem IntervalExit.extends {r : Except Error Bool} (named : Named h w)
    (exit : IntervalExit config env w h r h' w') :
    Archive.Extends config env.host.tick (h.archive w) (h'.archive w') ∧ Named h' w' := by
  cases exit with
  | skipped => exact ⟨.refl, named⟩
  | @taken a _ _ moved exit =>
    have here : Named h { w with app := a } := named
    have steps := exit.extends reliable codec here
    exact steps
  | @failed e a _ _ moved exit =>
    have here : Named h { w with app := a } := named
    have steps := exit.extends reliable codec here
    exact steps

/-- The operations of these runs. -/
def extending (q : Request) : Prop :=
  q = .new ∨ q = .syncWal ∨ q = .checkpoint ∨ q = .maybeSnapshot

theorem Performed.extends {q : Request} {s s' : Manager pf} {r : Except Error Answer}
    (extending : extending q) (named : Holding config Named s w)
    (performed : Performed config env w q s r s' w') :
    Archive.Extends config env.host.tick (archiveOf s w) (archiveOf s' w') ∧
      Holding config Named s' w' := by
  cases performed with
  | opened uses exit =>
    obtain ⟨step, kept⟩ := exit.begins reliable codec
    exact ⟨.single (step _), .some uses kept⟩
  | unopened exit =>
    obtain ⟨bucket, clock⟩ := exit.fails reliable codec
    refine ⟨?_, .none _⟩
    unfold archiveOf
    rw [bucket, clock]
    exact .single .closed
  | synced uses exit =>
    obtain ⟨steps, kept⟩ := exit.extends reliable codec (named _ rfl).2
    exact ⟨steps, .some uses kept⟩
  | checkpointed uses exit =>
    obtain ⟨steps, kept⟩ := exit.extends reliable codec (named _ rfl).2
    exact ⟨steps, .some uses kept⟩
  | considered uses exit =>
    obtain ⟨steps, kept⟩ := exit.extends reliable codec (named _ rfl).2
    exact ⟨steps, .some uses kept⟩
  | snapped => obtain h | h | h | h := extending <;> cases h
  | compacted => obtain h | h | h | h := extending <;> cases h
  | retained => obtain h | h | h | h := extending <;> cases h
  | closed => obtain h | h | h | h := extending <;> cases h

end

/-- A point-in-time restore writes what the latest restore would have written then. An
instant between two operations is the last reading of the clock. -/
def RestoredInTime (R : Regime pf A) : Prop :=
  ∀ {w₀ m w s w'},
    (∀ manifest ∈ readable config w₀.bucket, manifest.snapshotTimestampMs ≤ w₀.clock) →
    R.Reach config (.idle none w₀) (.idle (some m) w) →
    R.Reach config (.idle (some m) w) (.idle s w') →
    ∀ targetPath, restoredToTime config w.clock w'.bucket targetPath =
      restoredLatest config w.bucket targetPath

/-- The runs of `new`, `sync_wal`, `checkpoint` and `maybe_snapshot` in which no call fails. -/
def timely (host : Host A) : Regime pf A where
  host := host
  enabled q _ := extending q
  allows _ _ w c reply := faultless config.dbPath w c reply ∧ uploadsWell config c
  drift := idleMove host

/-- The archive of a run extends the one it began with. -/
def archived (tick : Nat → Nat → Prop) (a₀ : Archive) :
    Setting.Invariant (C := process config) (W := World A) where
  idle s w := Archive.Extends config tick a₀ (archiveOf s w) ∧ Holding config Named s w

section
variable {config} {host : Host A}

theorem reliable_flawless (ops : Request → Prop) (q : Request) (s : Manager pf) :
    Reliable config (Regime.env config (flawless config ops host) q s) where
  sound := Env.Faultless.of_allows fun _ _ _ allowed => allowed.1
  inverts := Env.inverts_of_allows fun _ _ _ allowed => allowed.2
  counts := Env.counts_of_allows fun _ _ _ allowed => allowed.2

theorem reliable_timely (q : Request) (s : Manager pf) :
    Reliable config (Regime.env config (timely config host) q s) :=
  reliable_flawless extending q s

theorem archived_kept (codec : Codec config) (a₀ : Archive) :
    (archived config host.tick a₀).Kept (Regime.setting config (timely config host)) where
  entered _ _ := trivial
  stays _ _ _ := trivial
  drift := by
    rintro s w w' ⟨steps, named⟩ ⟨a, t, moved, same | ticks, rfl⟩
    · subst same
      exact ⟨steps, named⟩
    · exact ⟨steps.tail (.waited ticks), named⟩
  body := by
    intro q s w enabled ⟨steps, named⟩
    refine Prog.wp_mono (fun _ _ _ _ h => h) (fun _ _ _ _ _ => trivial) ?_ _ _
      (wp_process rfl (fun m hs => (named m hs).1) (request_any q s))
    rintro ⟨result, s'⟩ w' performed -
    obtain ⟨later, kept⟩ := performed.extends (reliable_timely q s) codec enabled named
    exact ⟨trivial, steps.trans later, kept⟩

theorem Archive.Dated.extends {tick : Nat → Nat → Prop} {a a' : Archive}
    (advances : ∀ t t', tick t t' → t < t') (dated : a.Dated config)
    (steps : Archive.Extends config tick a a') : a'.Dated config := by
  induction steps with
  | refl => exact dated
  | tail _ step ih => exact ih.grow advances step

theorem Past.extends {tick : Nat → Nat → Prop} {a a' : Archive} {T : Nat} {b : Bucket}
    {manifest : GenerationManifest} (advances : ∀ t t', tick t t' → t < t') (dated : a.Dated config)
    (past : Past config T b manifest a) (steps : Archive.Extends config tick a a') :
    Past config T b manifest a' := by
  induction steps with
  | refl => exact past
  | tail first step ih => exact ih.grow advances (dated.extends advances first) step

/-- Under a clock that advances, restores agree at every instant between two operations. -/
theorem restored_in_time (codec : Codec config) (advances : ∀ t t', host.tick t t' → t < t') :
    RestoredInTime config (timely config host) := by
  intro w₀ m w s w' dated before after targetPath
  have opened : (archived config host.tick (archiveOf none w₀)).idle (none : Manager pf) w₀ :=
    ⟨.refl, .none _⟩
  obtain ⟨steps, named⟩ := (archived_kept codec (archiveOf none w₀)).reach before opened
  have here : (archiveOf (some m) w).Dated config := by
    refine Archive.Dated.extends advances ⟨fun key manifest read => ?_, ?_⟩ steps
    · exact dated manifest (mem_readable.mpr ⟨key, read⟩)
    · rintro _ _ ⟨⟩
  have newest := here.newest m.manifest m.walIndex rfl
  have resumed : (archived config host.tick (archiveOf (some m) w)).idle (some m) w := ⟨.refl, named⟩
  obtain ⟨later, -⟩ := (archived_kept codec (archiveOf (some m) w)).reach after resumed
  have past := (Past.start newest).extends advances here later
  exact past.restored.trans newest.restored.symm

theorem restored_in_time_plain :
    RestoredInTime plainConfig (timely plainConfig (fileHost fun t t' => t < t')) :=
  restored_in_time plain_codec fun _ _ later => later

end

end Waloy.Spec
