import Waloy.Guarantees.Retention
import Waloy.Spec.Faultless
import Waloy.Spec.Growing

/-!
# What a manager remembers is what the bucket holds

In a run without a failure over a WAL file that only grows, the bucket and the manager
agree after every operation, and no sync takes the WAL file for another one.
-/
namespace Waloy.Spec
open Waloy.Effect Waloy.Source

variable {pf : Platform} (config : BackupConfig pf.build) {A : Type}

/-- The generations an operation draws when none of its syncs starts a recovery. -/
def drawsOf : Request → Except Error Answer → Nat
  | .new, .ok _ => 1
  | .checkpoint, .ok _ => 1
  | .maybeSnapshot, .ok (.flag true) => 1
  | _, _ => 0

/-- After every operation the bucket is represented, and no operation recovered. -/
structure RepresentationKept (R : Regime pf A) : Prop where
  represented : ∀ {b a t m w}, R.Reach config (.idle none ⟨b, a, t, []⟩) (.idle (some m) w) →
    Represented config R.host m w
  unrecovered : ∀ {b a t q s start result s' w},
    R.Reach config (.idle none ⟨b, a, t, []⟩) (.running q s start (.pure (result, s')) w) →
    drawn w.log = drawn start.log + drawsOf q result

/-- The runs in which no call fails and the WAL file only grows, but for what the
checkpoint of the database does to it. -/
def smooth (host : Host A) : Regime pf A where
  host := host.appending
  enabled _ _ := True
  allows _ _ w c reply := faultless config.dbPath w c reply ∧ uploadsWell config c
  drift := idleMove host.appending

/-- What an open manager keeps in these runs. -/
structure Mirrored (host : Host A) (h : Head) (w : World A) : Prop
    extends Anchored config host h w where
  published : Published config w.bucket h.generation
  logged : .drew h.generation ∈ w.log
  listed : manifestAt config w.bucket h.generation = some h.manifest

section
variable {config} {env : Env A} {w w' : World A} {h h' : Head}

theorem Mirrored.moved {host : Host A} (mirrored : Mirrored config host h w) {a : A} {t : Nat}
    (grown : host.walBytes w.app <+: host.walBytes a) :
    Mirrored config host h { w with app := a, clock := t } where
  published := mirrored.published
  logged := mirrored.logged
  listed := mirrored.listed
  toAnchored := mirrored.toAnchored.moved grown

@[simp] theorem drawn_stored (key : Str) (log : List Event) :
    drawn (.stored key :: log) = drawn log := rfl

@[simp] theorem drawn_drew (generation : Str) (log : List Event) :
    drawn (.drew generation :: log) = drawn log + 1 := rfl

@[simp] theorem drawn_logSegments (generation : Str) (pairs : List (SegmentMeta × Bytes))
    (log : List Event) : drawn (logSegments config generation pairs log) = drawn log := by
  induction pairs generalizing log with
  | nil => rfl
  | cons p rest ih => rw [logSegments, ih, drawn_stored]

theorem SnapshotExit.drawn_eq {r : Except Error Unit}
    (exit : SnapshotExit config env w h r h' w') : drawn w'.log = drawn w.log := by
  cases exit with
  | unread => rfl
  | unpublished read moved failed partly logged => obtain rfl | rfl := logged <;> rfl
  | unlisted => rfl
  | done => rfl

end

/-- The environment of an operation in these runs, as the proofs use it. -/
structure Smooth (host : Host A) (env : Env A) : Prop where
  sound : env.Faultless
  inverts : env.Inverts config
  counts : env.Counts config
  wal : ∀ a, env.host.wal a = host.wal a
  grows : ∀ {a a'}, env.host.during a a' → host.walBytes a <+: host.walBytes a'

section
variable {config} {host : Host A} {env : Env A} {w w' : World A} {h h' : Head}

theorem smooth_env (host : Host A) (q : Request) (s : Manager pf) :
    Smooth config host.appending (Regime.env config (smooth config host) q s) where
  sound := Env.Faultless.of_allows fun _ _ _ allowed => allowed.1
  inverts := Env.inverts_of_allows fun _ _ _ allowed => allowed.2
  counts := Env.counts_of_allows fun _ _ _ allowed => allowed.2
  wal _ := rfl
  grows moved := moved.2

variable (smooth : Smooth config host env) (codec : Codec config)
include smooth codec

theorem Mirrored.snapshot (logged : .drew h.generation ∈ w.log)
    (exit : SnapshotExit config env w h (.ok ()) h' w') : Mirrored config host h' w' := by
  cases exit with
  | @done raw encoded manifest now a₁ a read moved sent ticks listed =>
    exact
      { published := published_withManifest _ _ _ _
        logged := by simpa [Head.restarted] using logged
        listed := manifestAt_store (listed.decodes codec.parses smooth.inverts)
        toAnchored := .start rfl rfl rfl }

theorem Mirrored.regenerated {r : Except Error Unit}
    (exit : Regenerated config env w h r h' w') :
    Mirrored config host h' w' ∧ drawn w'.log = drawn w.log + 1 ∧ r = .ok () := by
  obtain ⟨generation, now, a, a', w₁, moved, fresh, ticks, taken, moved', rfl, ok⟩ :=
    exit.faultless smooth.sound codec
  have mirrored := Mirrored.snapshot smooth codec (by simp [Head.begun]) taken
  exact ⟨mirrored.moved (smooth.grows moved'), taken.drawn_eq, ok⟩

theorem Mirrored.uploaded {walData : Bytes} {r : Except Error Unit}
    (mirrored : Mirrored config host h w) (read : host.walBytes w.app = walData)
    (new : h.walOffset < walAlignedLen walData)
    (exit : UploadExit config env w h walData r h' w') :
    Mirrored config host h' w' ∧ drawn w'.log = drawn w.log ∧ r = .ok () := by
  obtain rfl := exit.faultless smooth.sound codec
  cases exit with
  | @done a encoded manifest now nextIndex moved sent ticks listed next =>
    rw [incrementU32_of_lt _ (smooth.counts _ _ _ sent.taken)] at next
    obtain rfl := Option.some.inj next
    subst read
    have here : Mirrored config host (h.advanced (host.walBytes w.app) now (h.walIndex + 1))
        { w with
          bucket := withListing config w.bucket h encoded manifest
          clock := now
          log := .stored (objectKey config (.manifest h.generation)) ::
            .stored (objectKey config (.segment h.generation h.walIndex)) :: w.log } :=
      { toAnchored := mirrored.toAnchored.advanced new (sent.decodes smooth.inverts (by simp))
        published := mirrored.published.of_objects (by simp [withListing, withSegment])
          (by simp [withListing, withSegment])
        logged := by simpa [Head.advanced, Head.listed] using mirrored.logged
        listed := manifestAt_store (listed.decodes codec.parses smooth.inverts) }
    exact ⟨here.moved (smooth.grows moved), rfl, rfl⟩

theorem Mirrored.synced {r : Except Error Bool} (mirrored : Mirrored config host h w)
    (exit : SyncExit config env w h r h' w') :
    Mirrored config host h' w' ∧ drawn w'.log = drawn w.log := by
  have reads := fun {a : A} {walData : Bytes} (read : ReadsWal env w a walData) =>
    mirrored.toAnchored.read smooth.wal smooth.grows read
  have captures : ∀ {a walData}, ReadsWal env w a walData →
      Mirrored config host (h.captured walData) { w with app := a } := by
    intro a walData read
    have here := mirrored.moved (t := w.clock) (smooth.grows read.moved)
    obtain ⟨anchored, rfl, -⟩ := reads read
    exact
      { toAnchored := anchored.captured
        published := by simpa using here.published
        logged := by simpa using here.logged
        listed := by simpa using here.listed }
  cases exit with
  | absent moved => exact ⟨mirrored.moved (smooth.grows moved), rfl⟩
  | unread moved => exact ⟨mirrored.moved (smooth.grows moved), rfl⟩
  | short read => exact ⟨mirrored.moved (smooth.grows read.moved), rfl⟩
  | recovered read long broken => exact absurd broken (by simp [(reads read).2.2])
  | unrecovered read long broken => exact absurd broken (by simp [(reads read).2.2])
  | covered read => exact ⟨captures read, rfl⟩
  | uploaded read long continuous frames new exit =>
    obtain ⟨kept, same, -⟩ := (captures read).uploaded smooth codec (reads read).2.1
      (by simpa using new) exit
    exact ⟨kept, same⟩
  | unsent read long continuous frames new exit =>
    obtain ⟨-, -, ok⟩ := (captures read).uploaded smooth codec (reads read).2.1
      (by simpa using new) exit
    cases ok

theorem Mirrored.checkpointed {r : Except Error Unit} (mirrored : Mirrored config host h w)
    (exit : CheckpointExit config env w h r h' w') :
    Mirrored config host h' w' ∧ drawn w'.log = drawn w.log + drawsOf .checkpoint (r.map fun _ => .unit) := by
  cases exit with
  | unsynced sync => exact mirrored.synced smooth codec sync
  | unmoved sync moved cut failed => exact absurd failed (smooth.sound.batches _ _)
  | regenerated sync moved cut exit =>
    obtain ⟨-, same⟩ := mirrored.synced smooth codec sync
    obtain ⟨kept, more, rfl⟩ := Mirrored.regenerated smooth codec exit
    exact ⟨kept, by rw [more, same]; rfl⟩

theorem Mirrored.considered {r : Except Error Bool} (mirrored : Mirrored config host h w)
    (exit : IntervalExit config env w h r h' w') :
    Mirrored config host h' w' ∧
      drawn w'.log = drawn w.log + drawsOf .maybeSnapshot (r.map .flag) := by
  cases exit with
  | skipped moved => exact ⟨mirrored.moved (smooth.grows moved), rfl⟩
  | taken moved exit => exact (mirrored.moved (smooth.grows moved)).checkpointed smooth codec exit
  | failed moved exit => exact (mirrored.moved (smooth.grows moved)).checkpointed smooth codec exit

theorem Mirrored.opened (exit : OpeningExit config env w (.ok h') w') :
    Mirrored config host h' w' ∧ drawn w'.log = drawn w.log + 1 := by
  obtain ⟨generation, now, a, a', w₁, opened, fresh, ticks, taken, moved, rfl⟩ := exit.of_ok
  have mirrored := Mirrored.snapshot smooth codec (by simp [Head.initial]) taken
  exact ⟨mirrored.moved (smooth.grows moved), taken.drawn_eq⟩

theorem Mirrored.closed (mirrored : Mirrored config host h w)
    (exit : ShutdownExit config env w h h' w') :
    Mirrored config host h' w' ∧ drawn w'.log = drawn w.log := by
  cases exit with
  | already => exact ⟨mirrored, rfl⟩
  | closed sync moved =>
    obtain ⟨kept, same⟩ := mirrored.synced smooth codec sync
    exact ⟨kept.moved (smooth.grows moved), same⟩

theorem Mirrored.compacted {maxSize : Nat} {r : Except Error Unit}
    (mirrored : Mirrored config host h w) (exit : CompactExit config env w h maxSize r h' w') :
    Mirrored config host h' w' ∧ drawn w'.log = drawn w.log := by
  obtain rfl := exit.faultless smooth.sound codec mirrored.backed.held
  cases exit with
  | few => exact ⟨mirrored, rfl⟩
  | @done allData manifest pairs lastIndex clock' a recut listed moved =>
    have renewed := recut.renewed mirrored.backed smooth.inverts (recut.bound smooth.counts)
    have here : Mirrored config host (h.compacted pairs lastIndex)
        { w with
          bucket := eraseSegments config h.generation h.manifest.segments
            (withChunkList config w.bucket h pairs manifest)
          clock := clock'
          log := .stored (objectKey config (.manifest h.generation)) ::
            logSegments config h.generation pairs w.log } :=
      { published := mirrored.published.of_objects (by simp [withChunkList, withChunks])
          (by simp [withChunkList, withChunks])
        logged := by simpa [Head.compacted, Head.relisted] using mirrored.logged
        listed := (manifestAt_eraseSegments _ _).trans
          (manifestAt_store (listed.decodes codec.parses smooth.inverts))
        backed := renewed.compacted mirrored.backed.length mirrored.backed.below
        follows := ⟨mirrored.follows.offset, mirrored.follows.salt⟩ }
    exact ⟨here.moved (smooth.grows moved), by simp⟩

omit codec in
theorem Mirrored.retained (mirrored : Mirrored config host h w)
    (tidy : Tidy config w.bucket h.generation) (exit : RetentionExit config env w h w') :
    Mirrored config host h w' ∧ drawn w'.log = drawn w.log := by
  cases exit with
  | off => exact ⟨mirrored, rfl⟩
  | @ran duration reply a₁ a b retention read allowed ticks moved expunged =>
    have left : ∀ o, ownerOf o = some h.generation → object config b o = object config w.bucket o :=
      fun o owner => expunged.left tidy (fun other => absurd rfl other) (objectKey_inside owner)
    have here : Mirrored config host h { w with bucket := b } :=
      { published := expunged.published tidy mirrored.published
        logged := mirrored.logged
        listed := (manifestAt_congr config (left _ rfl)).trans mirrored.listed
        backed :=
          { toOrdered := mirrored.backed.toOrdered
            held := (segmentsData_congr config fun _ _ => left _ rfl).trans mirrored.backed.held
            length := mirrored.backed.length }
        follows := mirrored.follows }
    have grown := (smooth.grows read).trans (smooth.grows moved)
    exact ⟨here.moved grown, rfl⟩

/-- One case for each operation of these runs. -/
theorem Mirrored.performed {q : Request} {s s' : Manager pf} {r : Except Error Answer}
    (tidy : TidyLog config w) (idle : Holding config (Mirrored config host) s w)
    (performed : Performed config env w q s r s' w') :
    Holding config (Mirrored config host) s' w' ∧ drawn w'.log = drawn w.log + drawsOf q r := by
  cases performed with
  | opened uses exit =>
    obtain ⟨kept, same⟩ := Mirrored.opened smooth codec exit
    exact ⟨.some uses kept, same⟩
  | unopened exit =>
    refine ⟨.none _, ?_⟩
    generalize hr : (Except.error _ : Except Error Head) = r at exit
    cases exit with
    | unopened => rfl
    | made opened fresh ticks taken moved =>
      rw [taken.faultless smooth.sound codec] at hr
      cases hr
  | synced uses exit =>
    obtain ⟨kept, same⟩ := (idle _ rfl).2.synced smooth codec exit
    exact ⟨.some uses kept, same⟩
  | snapped uses exit =>
    obtain rfl := exit.faultless smooth.sound codec
    exact ⟨.some uses (Mirrored.snapshot smooth codec (idle _ rfl).2.logged exit), exit.drawn_eq⟩
  | checkpointed uses exit =>
    obtain ⟨kept, same⟩ := (idle _ rfl).2.checkpointed smooth codec exit
    exact ⟨.some uses kept, same⟩
  | considered uses exit =>
    obtain ⟨kept, same⟩ := (idle _ rfl).2.considered smooth codec exit
    exact ⟨.some uses kept, same⟩
  | compacted uses exit =>
    obtain ⟨kept, same⟩ := (idle _ rfl).2.compacted smooth codec exit
    exact ⟨.some uses kept, same⟩
  | retained uses exit =>
    have mirrored := (idle _ rfl).2
    obtain ⟨kept, same⟩ := mirrored.retained smooth (tidy _ mirrored.logged) exit
    exact ⟨.some uses kept, same⟩
  | closed uses exit =>
    obtain ⟨kept, same⟩ := (idle _ rfl).2.closed smooth codec exit
    exact ⟨.some uses kept, same⟩

end

def mirroring (host : Host A) : Setting.Invariant (C := process config) (W := World A) where
  idle s w := TidyLog config w ∧ Holding config (Mirrored config host) s w
  always _ _ _ w := TidyLog config w
  guard q _ _ := watch (changeOf config q)
  result q _ start result _ w := drawn w.log = drawn start.log + drawsOf q result

variable {config} in
theorem mirroring_kept (codec : Codec config) (host : Host A) :
    (mirroring config host.appending).Kept (Regime.setting config (smooth config host)) where
  entered _ idle := idle.1
  stays tidy served changed := tidy.call served changed
  drift := by
    rintro s w w' ⟨tidy, holds⟩ ⟨a, t, moved, -, rfl⟩
    exact ⟨tidy, fun m hs => ⟨(holds m hs).1, (holds m hs).2.moved moved.2⟩⟩
  body := by
    intro q s w enabled ⟨tidy, holds⟩
    let env := Regime.env config (smooth config host) q s
    have watched : RequestWatched config env (changeOf config q) w q s := by
      by_cases hq : q = .enforceRetention
      · subst hq
        cases s with
        | none => trivial
        | some m =>
          have mirrored := (holds m rfl).2
          refine thinned_retention ⟨_, mirrored.published, tidy _ mirrored.logged⟩ ?_
          intro a reply duration generation manifest retained allowed latest other found
          have bytes : asBytes generation = asBytes m.generation :=
            Option.some.inj (latest.symm.trans mirrored.published.latest)
          have same : generation = m.generation := by simpa using congrArg fromUtf8 bytes
          exact absurd same other
      · have orderly : changeOf config q = Orderly config := by
          cases q <;> first | rfl | exact absurd rfl hq
        rw [orderly]
        exact orderly_request hq fun m hs => tidy _ (holds m hs).2.logged
    refine Prog.wp_mono (fun _ _ _ _ h => h) (fun _ _ _ _ h => h) ?_ _ _
      (wp_process rfl (fun m hs => (holds m hs).1) watched)
    rintro ⟨result, s'⟩ w' performed tidy'
    obtain ⟨kept, same⟩ := Mirrored.performed (smooth_env host q s) codec tidy holds performed
    exact ⟨same, tidy', kept⟩

variable {config} in
/-- In a run without a failure the bucket is what the manager remembers, after every
operation, and no sync starts a recovery. -/
theorem representation_kept (codec : Codec config) (host : Host A) :
    RepresentationKept config (smooth config host) := by
  have kept := mirroring_kept codec host
  have start : ∀ b a t, (mirroring config host.appending).idle none (⟨b, a, t, []⟩ : World A) := by
    intro b a t
    refine ⟨?_, .none _⟩
    intro generation drawn
    cases drawn
  constructor
  case represented =>
    intro b a t m w run
    obtain ⟨-, holds⟩ := kept.reach run (start b a t)
    have mirrored := (holds m rfl).2
    exact
      { toListed := mirrored.toAnchored.listed mirrored.listed
        latest := mirrored.published.latest }
  case unrecovered =>
    intro b a t q s start' result s' w run
    exact (kept.returned run (start b a t)).1

theorem plain_codec : Codec plainConfig where
  serializes manifest := ⟨_, rfl⟩
  parses _ _ := jsonFromSlice_jsonToVec
  encodes := by
    rintro data r ⟨salt, nonce, -, -, rfl⟩
    exact ⟨data, rfl⟩

theorem representation_kept_plain :
    RepresentationKept plainConfig (smooth plainConfig (fileHost fun t t' => t ≤ t')) :=
  representation_kept plain_codec _

end Waloy.Spec
