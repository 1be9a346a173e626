import Waloy.Guarantees.Representation

/-!
# A WAL file that was reset

A sync compares the WAL file with the one of the last sync once it has found it and seen
that it has frames. A file that is gone, or that has no frames, is taken for one without
anything new.
-/
namespace Waloy.Spec
open Waloy.Effect Waloy.Source Waloy.Source.BackupManager

variable {pf : Platform} (config : BackupConfig pf.build) {A : Type}

/-- The runs of all operations in which every call may fail. -/
def fallible (host : Host A) : Regime pf A where
  host := host
  enabled _ _ := True
  allows _ _ _ _ _ := True
  drift := idleMove host

/-- The answers that report no failure. -/
def succeeds : (c : Call) → c.Reply → Bool
  | .putObject _ _, .error _ => false
  | .getObject _, .error _ => false
  | .deleteObject _, .error _ => false
  | .list _, .error _ => false
  | .tryExists _, .error _ => false
  | .readFile _, .error _ => false
  | .openConn _, .error _ => false
  | .executeBatch _ _, .error _ => false
  | .queryMaster _, .error _ => false
  | _, _ => true

/-- No UUID is drawn a second time. -/
def renews (s : Manager pf) : (c : Call) → c.Reply → Bool
  | .newUuid, generation => s.all fun m => m.generation ≠ generation
  | _, _ => true

/-- The application leaves the WAL file as it is, and no call fails. -/
def undisturbed (host : Host A) : Regime pf A where
  host :=
    { host with
      during := fun a a' => host.during a a' ∧ host.wal a' = host.wal a
      during_refl := fun a => ⟨host.during_refl a, rfl⟩
      during_trans := fun first second =>
        ⟨host.during_trans first.1 second.1, second.2.trans first.2⟩ }
  enabled _ _ := True
  allows _ s _ c reply := succeeds c reply = true ∧ renews s c reply = true
  drift := idleMove host

/-- The calls of such a sync. -/
abbrev syncServer (host : Host A) (m : BackupManager pf.build) : Server Calls (World A) :=
  ((undisturbed host).env config .syncWal (some m)).serve

/-- The WAL file does not extend what was uploaded of it: it is gone, it is shorter, or its
header has another salt. -/
inductive Reset (h : Head) : Option Bytes → Prop where
  | missing : Reset h none
  | shorter {walData : Bytes} (shrunk : walData.length < h.walOffset) : Reset h (some walData)
  | salted {walData : Bytes} (header : walSaltOffset + walSaltLen ≤ walData.length)
      (other : h.walHeaderSalt ≠ some (walSalt walData)) : Reset h (some walData)

/-- A sync has started a generation with a fresh snapshot, and left the segments of the
last one alone all the while. -/
structure Restarted (host : Host A) (m : BackupManager pf.build) (w : World A)
    (m' : BackupManager pf.build) (w' : World A) : Prop where
  generation : m'.generation ≠ m.generation
  latest : object config w'.bucket .latest = some (asBytes m'.generation)
  snapshot : ∃ a raw encoded, host.during w.app a ∧ host.db a = some raw ∧
    Encodes pf config raw encoded ∧
    object config w'.bucket (.snapshot m'.generation) = some encoded
  untouched : ∀ p w₁, Steps (syncServer config host m) (syncWal pf m, w) (p, w₁) →
    ∀ index, object config w₁.bucket (.segment m.generation index) =
      object config w.bucket (.segment m.generation index)

/-- Every WAL file that was reset is detected by the next sync. -/
def DetectsResets (host : Host A) : Prop :=
  ∀ w₀ m w r m' w', (fallible host).Reach config (.idle none w₀) (.idle (some m) w) →
    0 < m.walOffset → Reset (head m) (host.wal w.app) →
    Steps (syncServer config host m) (syncWal pf m, w) (.pure (r, m'), w') →
    Restarted config host m w m' w'

/-- Every call before the last sync succeeds. -/
def fallibleMachine : Machine (fallible (fileHost fun _ _ => True) : Regime plain Files) where
  enable _ _ := true
  truncate := id
  install files _ _ := files
  check _ _ _ _ _ := true
  enabled _ _ _ := trivial
  truncated _ := trivial
  installed _ _ _ := trivial
  ticks _ _ := trivial
  checked _ _ _ _ _ _ := trivial

/-- Every call of the last sync succeeds. -/
def undisturbedMachine : Machine (undisturbed (fileHost fun _ _ => True) : Regime plain Files) where
  enable _ _ := true
  truncate := id
  install files _ _ := files
  check _ s _ c reply := succeeds c reply && renews s c reply
  enabled _ _ _ := trivial
  truncated _ := trivial
  installed _ _ _ := trivial
  ticks _ _ := trivial
  checked _ _ _ _ _ checked := Bool.and_eq_true_iff.mp checked

def place (wal : Option Bytes) :
    Machine.Cue (fallible (fileHost fun _ _ => True) : Regime plain Files) :=
  .move (fun files => { files with wal := wal }) fun _ => ⟨_, _, trivial, .inl rfl, rfl⟩

/-- A WAL file with a frame is synced, another file takes its place, and it is synced. -/
def resync (wal : Option Bytes) : Option ((BackupManager plain.build × World Files) ×
    (Except Error Bool × BackupManager plain.build) × World Files) :=
  (fallibleMachine.play plainConfig [.perform .new fun _ => false,
    place (some (walHeader 7 ++ walFrame 1)), .perform .syncWal fun _ => false, place wal]
    (none, ⟨∅, ⟨some dbFile, none⟩, 1000, []⟩)).bind fun before => before.1.bind fun m =>
      ((syncWal plain m).interp (undisturbedMachine.answer plainConfig .syncWal (some m) fun _ => false)
        before.2).map fun out => ((m, before.2), out)

theorem exists_resync (wal : Option Bytes) (check : (BackupManager plain.build × World Files) ×
    (Except Error Bool × BackupManager plain.build) × World Files → Bool)
    (computed : (resync wal).any check = true) : ∃ w₀ m w r m' w',
      (fallible (fileHost fun _ _ => True)).Reach plainConfig (.idle none w₀) (.idle (some m) w) ∧
      Steps (syncServer plainConfig (fileHost fun _ _ => True) m) (syncWal plain m, w)
        (.pure (r, m'), w') ∧ check ((m, w), (r, m'), w') = true := by
  obtain ⟨out, found, checked⟩ := (Option.any_eq_true _ _).mp computed
  unfold resync at found
  obtain ⟨⟨s, w⟩, played, rest⟩ := Option.bind_eq_some_iff.mp found
  obtain ⟨m, rfl, rest⟩ := Option.bind_eq_some_iff.mp rest
  obtain ⟨⟨⟨r, m'⟩, w'⟩, synced, rfl⟩ := Option.map_eq_some_iff.mp rest
  refine ⟨_, m, w, r, m', w', Machine.play_reach played, ?_, checked⟩
  exact Steps.of_interp (fun _ _ _ _ answered => Machine.answer_served plainConfig undisturbedMachine
    answered) _ _ synced

/-- A WAL file that was truncated is taken for one without anything new. -/
theorem not_detectsResets : ¬ DetectsResets plainConfig (fileHost fun _ _ => True) := by
  obtain ⟨w₀, m, w, r, m', w', run, call, checked⟩ := exists_resync (some [])
    (fun out => 0 < out.1.1.walOffset ∧ out.1.2.app.wal = some [] ∧
      out.2.1.2.generation = out.1.1.generation) (by decide +kernel)
  obtain ⟨synced, emptied, same⟩ := of_decide_eq_true checked
  intro claim
  have reset : Reset (head m) ((fileHost fun _ _ => True).wal w.app) := by
    have wal : (fileHost fun _ _ => True).wal w.app = some [] := emptied
    rw [wal]
    exact .shorter synced
  exact (claim w₀ m w r m' w' run synced reset call).generation same

section
variable {config} {env : Env A} {host : Host A} {m : BackupManager pf.build} {w w' : World A}
  {h h' : Head} {q : Request} {s s' : Manager pf} {r : Except Error Answer} {walData : Bytes}

/-- A manager that has uploaded of a WAL file knows its salt. -/
def Salted (h : Head) : Prop := 0 < h.walOffset → h.walHeaderSalt.isSome

theorem captured_salt (long : walHeaderSize < walData.length) (h : Head) :
    (h.captured walData).walHeaderSalt.isSome := by
  have header : walSaltOffset + walSaltLen ≤ walData.length := by
    simp only [walSaltOffset, walSaltLen, walHeaderSize] at long ⊢
    omega
  unfold Head.captured
  split
  · rfl
  · rename_i known
    simpa [header, Option.isSome_iff_ne_none] using known

theorem SnapshotExit.salted {r : Except Error Unit} (exit : SnapshotExit config env w h r h' w')
    (salted : Salted h) : Salted h' := by
  cases exit with
  | unread => exact salted
  | unpublished => exact salted
  | unlisted => exact fun synced => absurd synced (Nat.lt_irrefl 0)
  | done => exact fun synced => absurd synced (Nat.lt_irrefl 0)

theorem Regenerated.salted {r : Except Error Unit} (exit : Regenerated config env w h r h' w')
    (salted : Salted h) : Salted h' := by
  obtain ⟨moved, fresh, ticks, exit, -, moved'⟩ := exit
  exact exit.salted salted

theorem UploadExit.salted {r : Except Error Unit} (exit : UploadExit config env w h walData r h' w')
    (known : h.walHeaderSalt.isSome) : Salted h' := by
  cases exit with
  | unsaved => exact fun _ => known
  | unlisted => exact fun _ => known
  | done => exact fun _ => known

theorem SyncExit.salted {r : Except Error Bool} (exit : SyncExit config env w h r h' w')
    (salted : Salted h) : Salted h' := by
  cases exit with
  | absent => exact salted
  | unread => exact salted
  | short => exact salted
  | recovered read long broken exit => exact exit.salted salted
  | unrecovered read long broken exit => exact exit.salted salted
  | covered read long => exact fun _ => captured_salt long h
  | uploaded read long continuous frames new exit => exact exit.salted (captured_salt long h)
  | unsent read long continuous frames new exit => exact exit.salted (captured_salt long h)

theorem CheckpointExit.salted {r : Except Error Unit} (exit : CheckpointExit config env w h r h' w')
    (salted : Salted h) : Salted h' := by
  cases exit with
  | unsynced sync => exact sync.salted salted
  | unmoved sync => exact sync.salted salted
  | regenerated sync moved cut exit => exact exit.salted (sync.salted salted)

theorem IntervalExit.salted {r : Except Error Bool} (exit : IntervalExit config env w h r h' w')
    (salted : Salted h) : Salted h' := by
  cases exit with
  | skipped => exact salted
  | taken moved exit => exact exit.salted salted
  | failed moved exit => exact exit.salted salted

theorem ShutdownExit.salted (exit : ShutdownExit config env w h h' w') (salted : Salted h) :
    Salted h' := by
  cases exit with
  | already => exact salted
  | closed sync moved => exact sync.salted salted

theorem CompactExit.salted {maxSize : Nat} {r : Except Error Unit}
    (exit : CompactExit config env w h maxSize r h' w') (salted : Salted h) : Salted h' := by
  cases exit with
  | few => exact salted
  | undownloaded => exact salted
  | unchunked => exact salted
  | unlisted => exact salted
  | undeleted => exact salted
  | done => exact salted

theorem Performed.salted (performed : Performed config env w q s r s' w')
    (idle : Holding config (fun h (_ : World A) => Salted h) s w) :
    Holding config (fun h (_ : World A) => Salted h) s' w' := by
  cases performed with
  | opened uses exit =>
    obtain ⟨generation, now, a, a', w₁, opened, fresh, ticks, taken, moved, rfl⟩ := exit.of_ok
    refine .some uses (taken.salted ?_)
    exact fun synced => absurd synced (Nat.lt_irrefl 0)
  | unopened => exact .none _
  | synced uses exit => exact .some uses (exit.salted (idle _ rfl).2)
  | snapped uses exit => exact .some uses (exit.salted (idle _ rfl).2)
  | checkpointed uses exit => exact .some uses (exit.salted (idle _ rfl).2)
  | considered uses exit => exact .some uses (exit.salted (idle _ rfl).2)
  | compacted uses exit => exact .some uses (exit.salted (idle _ rfl).2)
  | retained uses exit => exact .some uses (idle _ rfl).2
  | closed uses exit => exact .some uses (exit.salted (idle _ rfl).2)

variable (config) in
/-- What these runs keep while no operation runs. -/
def salting : Setting.Invariant (C := process config) (W := World A) where
  idle := Holding config fun h _ => Salted h

theorem salting_kept : (salting config).Kept ((fallible host).setting config) := by
  constructor
  case entered => exact fun _ _ => trivial
  case stays => exact fun _ _ _ => trivial
  case drift =>
    rintro s w w' idle ⟨a, t, -, -, rfl⟩
    exact idle
  case body =>
    intro q s w _ idle
    refine Prog.wp_mono (fun _ _ _ _ served => served) (fun _ _ _ _ _ => trivial) ?_ _ _
      (wp_process rfl (fun m hs => (idle m hs).1) (request_any q s))
    exact fun _ w' performed _ => ⟨trivial, performed.salted idle⟩

/-- The ids that a call adds to the log are new to the manager. -/
theorem Acts.renewed {c : Call} {reply : c.Reply} (acts : Acts host w c reply w')
    (renewed : renews (some m) c reply = true) :
    ∃ log, w'.log = log ++ w.log ∧ ∀ id, .drew id ∈ log → id ≠ m.generation := by
  have still : w'.log = w.log →
      ∃ log, w'.log = log ++ w.log ∧ ∀ id, .drew id ∈ log → id ≠ m.generation :=
    fun same => ⟨[], same, by simp⟩
  by_cases quiet : isQuiet c = true
  · exact still (by rw [acts.quiet quiet])
  cases c with
  | putObject key data => cases reply with
    | ok =>
      cases acts
      exact ⟨[.stored key], rfl, by simp⟩
    | error => exact still (by obtain rfl | rfl := acts <;> rfl)
  | deleteObject => cases reply with
    | ok =>
      cases acts
      exact still rfl
    | error => exact still (by obtain rfl | rfl := acts <;> rfl)
  | systemTime =>
    obtain ⟨-, rfl⟩ := acts
    exact still rfl
  | newUuid =>
    obtain ⟨fresh, rfl⟩ := acts
    refine ⟨[.drew reply], rfl, fun id among => ?_⟩
    obtain rfl : id = reply := by simpa using among
    have other : m.generation ≠ id := by simpa [renews] using renewed
    exact other.symm
  | writeFile =>
    obtain ⟨a, -, rfl⟩ := acts
    exact still rfl
  | executeBatch conn batch => cases batch with
    | walCheckpointTruncate =>
      obtain ⟨a, -, rfl⟩ := acts
      exact still rfl
    | _ => exact absurd rfl quiet
  | _ => exact absurd rfl quiet

/-- Every id that such a sync draws is another one than the manager's. -/
theorem syncServer_drew {p p' : Prog Calls (Except Error Bool × BackupManager pf.build)}
    (steps : Steps (syncServer config host m) (p, w) (p', w')) :
    ∃ log, w'.log = log ++ w.log ∧ ∀ id, .drew id ∈ log → id ≠ m.generation := by
  generalize hc : (p', w') = last at steps
  induction steps generalizing p' w' with
  | refl =>
    cases hc
    exact ⟨[], rfl, by simp⟩
  | @tail middle _ _ step ih =>
    cases step with
    | @call c next w₁ w₂ reply served =>
      cases hc
      obtain ⟨log, earlier, others⟩ := ih rfl
      obtain ⟨a, moved, ⟨succeeded, renewed⟩, acts⟩ := served
      obtain ⟨new, same, drawn⟩ := acts.renewed renewed
      refine ⟨new ++ log, by rw [same, earlier, List.append_assoc], fun id among => ?_⟩
      rcases List.mem_append.mp among with fresh | older
      · exact drawn id fresh
      · exact others id older

/-- The segments of a generation are those of a bucket. -/
def SameSegments (config : BackupConfig pf.build) (generation : Str) (b b' : Bucket) : Prop :=
  ∀ index, object config b' (.segment generation index) = object config b (.segment generation index)

/-- A generation and its first snapshot are stored beside the segments. -/
theorem regeneration_untouched {generation : Str} :
    RegenerationWatched config env (fun _ => SameSegments config generation w.bucket) w h := by
  refine ⟨fun _ => rfl, fun _ _ _ _ _ _ => ⟨fun _ => rfl, ?_, ?_⟩⟩
  · intro a raw encoded read sent
    refine ⟨fun _ => rfl, fun _ => ?_, fun _ => ?_, fun _ => ?_, fun _ => ?_⟩
    · simp [withSnapshot]
    · simp [withSnapshot]
    · simp [withLatest, withSnapshot]
    · simp [withLatest, withSnapshot]
  · intro a raw encoded now manifest read sent listed
    refine ⟨fun _ => ?_, fun _ => ?_, fun _ => ?_⟩
    · simp [withLatest, withSnapshot]
    · simp [withManifest, withLatest, withSnapshot]
    · simp [withManifest, withLatest, withSnapshot]

/-- A WAL file that was reset and has frames is discontinuous. -/
theorem Reset.discontinuous (salted : Salted h) (synced : 0 < h.walOffset)
    (reset : Reset h (some walData)) : h.discontinuous walData = true := by
  unfold Head.discontinuous checkWalDiscontinuity
  generalize hw : some walData = wal at reset
  cases reset with
  | missing => cases hw
  | shorter shrunk =>
    cases hw
    exact if_pos ⟨synced, shrunk⟩
  | salted header other =>
    cases hw
    obtain ⟨salt, known⟩ := Option.isSome_iff_exists.mp (salted synced)
    split
    · rfl
    · rw [known]
      rw [known] at other
      have differs : walSalt walData ≠ salt := fun same => other (congrArg some same.symm)
      simp [differs]

/-- What a snapshot that returns has stored, and the ids it found drawn. -/
theorem SnapshotExit.stored (exit : SnapshotExit config env w h (.ok ()) h' w') :
    h'.generation = h.generation ∧ object config w'.bucket .latest = some (asBytes h.generation) ∧
      (∃ a raw encoded, ReadsDb env w a raw ∧ Encodes pf config raw encoded ∧
        object config w'.bucket (.snapshot h.generation) = some encoded) ∧
      ∃ log, w'.log = log ++ w.log := by
  cases exit with
  | @done raw encoded manifest now a₁ a read moved sent ticks listed =>
    refine ⟨rfl, ?_, ⟨a₁, raw, encoded, read, sent.encodes, ?_⟩, [_, _, _], rfl⟩
    · simp [withManifest, withLatest]
    · simp [withManifest, withLatest, withSnapshot]

theorem faultless_of_succeeds {dbPath : Str} {c : Call} {reply : c.Reply}
    (succeeded : succeeds c reply = true) : faultless dbPath w c reply := by
  cases c with
  | putObject | deleteObject | list | readFile | openConn | executeBatch | queryMaster =>
    cases reply with
    | ok => exact trivial
    | error => cases succeeded
  | getObject => cases reply with
    | ok => exact trivial
    | error => cases succeeded
  | _ => exact trivial

theorem undisturbed_faultless {s : Manager pf} : ((undisturbed host).env config q s).Faultless :=
  .of_allows fun _ _ _ allowed => faultless_of_succeeds allowed.1

/-- An undisturbed sync reads the WAL file that it was called with. -/
theorem ReadsWal.undisturbed {s : Manager pf} {a : A}
    (read : ReadsWal ((undisturbed host).env config q s) w a walData) :
    host.wal w.app = some walData := read.moved.2.symm.trans read.held

/-- A sync that finds no frames keeps the generation. -/
theorem SyncExit.same_generation {r : Except Error Bool} (exit : SyncExit config env w h r h' w')
    (frameless : ∀ a walData, ReadsWal env w a walData → walData.length ≤ walHeaderSize) :
    h'.generation = h.generation := by
  cases exit with
  | absent => rfl
  | unread => rfl
  | short => rfl
  | recovered read long => exact absurd (frameless _ _ read) (Nat.not_le.mpr long)
  | unrecovered read long => exact absurd (frameless _ _ read) (Nat.not_le.mpr long)
  | covered read long => exact absurd (frameless _ _ read) (Nat.not_le.mpr long)
  | uploaded read long => exact absurd (frameless _ _ read) (Nat.not_le.mpr long)
  | unsent read long => exact absurd (frameless _ _ read) (Nat.not_le.mpr long)

/-- An undisturbed sync that finds frames of a discontinuous WAL file starts a generation. -/
theorem SyncExit.regenerates {s : Manager pf} {r : Except Error Bool}
    (exit : SyncExit config ((undisturbed host).env config q s) w h r h' w')
    (held : host.wal w.app = some walData) (long : walHeaderSize < walData.length)
    (broken : h.discontinuous walData = true) : ∃ a r', host.during w.app a ∧
      Regenerated config ((undisturbed host).env config q s) { w with app := a } h r' h' w' := by
  have same : ∀ {a bytes}, ReadsWal ((undisturbed host).env config q s) w a bytes →
      bytes = walData := fun read => Option.some.inj (read.undisturbed.symm.trans held)
  cases exit with
  | @absent reply a moved missing allowed found =>
    cases reply with
    | error e => cases allowed.1
    | ok exists' =>
      have there : exists' = (host.wal a).isSome := found exists' rfl
      rw [moved.2, held] at there
      exact absurd (congrArg Except.ok there) missing
  | unread moved failed =>
    obtain ⟨v, reply, bad, allowed⟩ := failed
    cases reply with
    | ok => cases bad
    | error e => cases allowed.1
  | short read short =>
    obtain rfl := same read
    omega
  | recovered read _ _ exit => exact ⟨_, _, read.moved.1, exit⟩
  | unrecovered read _ _ exit => exact ⟨_, _, read.moved.1, exit⟩
  | covered read _ continuous =>
    obtain rfl := same read
    cases broken.symm.trans continuous
  | uploaded read _ continuous =>
    obtain rfl := same read
    cases broken.symm.trans continuous
  | unsent read _ continuous =>
    obtain rfl := same read
    cases broken.symm.trans continuous

end

/-- A sync detects that the WAL file was reset exactly where it finds frames in it. -/
theorem reset_detected_iff (codec : Codec config) {host : Host A} {w₀ w w' : World A}
    {m m' : BackupManager pf.build} {r : Except Error Bool}
    (run : (fallible host).Reach config (.idle none w₀) (.idle (some m) w))
    (synced : 0 < m.walOffset) (reset : Reset (head m) (host.wal w.app))
    (call : Steps (syncServer config host m) (syncWal pf m, w) (.pure (r, m'), w')) :
    Restarted config host m w m' w' ↔
      ∃ walData, host.wal w.app = some walData ∧ walHeaderSize < walData.length := by
  have start : (salting config).Holds ((fallible host).setting config) (.idle none w₀) := by
    intro m opened
    cases opened
  obtain ⟨uses, salted⟩ := salting_kept.reach run start m rfl
  have broken : ∀ walData, host.wal w.app = some walData → (head m).discontinuous walData = true := by
    intro walData held
    rw [held] at reset
    exact reset.discontinuous salted synced
  have watched : SyncWatched config ((undisturbed host).env config .syncWal (some m))
      (fun _ => SameSegments config m.generation w.bucket) w (head m) := by
    refine ⟨fun _ => rfl, fun a _ _ _ => regeneration_untouched (w := { w with app := a }), ?_⟩
    intro a walData read continuous
    cases (broken walData read.undisturbed).symm.trans continuous
  have spec := wp_syncWal uses rfl watched
  have exit : SyncExit config ((undisturbed host).env config .syncWal (some m)) w (head m) r
      (head m') w' := by
    cases r with
    | ok found => exact (call.result spec).2
    | error e => exact (call.result spec).2
  constructor
  · intro restarted
    by_contra frameless
    refine restarted.generation (exit.same_generation fun a walData read => ?_)
    by_contra long
    exact frameless ⟨walData, read.undisturbed, Nat.not_le.mp long⟩
  · rintro ⟨walData, held, long⟩
    obtain ⟨a, r', moved, regenerated⟩ := exit.regenerates held long (broken walData held)
    obtain ⟨generation, now, a₁, a₂, w₁, moved₁, fresh, ticks, taken, moved₂, rfl, -⟩ :=
      regenerated.faultless undisturbed_faultless codec
    obtain ⟨same, latest, ⟨a₃, raw, encoded, read, encodes, stored⟩, log, logged⟩ := taken.stored
    have named : m'.generation = generation := same
    have drawn : m'.generation ≠ m.generation := by
      obtain ⟨log', logged', others⟩ := syncServer_drew call
      have split : log' = log ++ [.drew generation] := by
        have same : log' ++ w.log = (log ++ [.drew generation]) ++ w.log := by
          rw [← logged', List.append_assoc]
          exact logged
        exact List.append_cancel_right same
      exact named ▸ others generation (by simp [split])
    have moves := host.during_trans moved (host.during_trans moved₁.1 read.moved.1)
    refine ⟨drawn, named ▸ latest, ⟨a₃, raw, encoded, moves, read.held, encodes, named ▸ stored⟩, ?_⟩
    intro p w₁ steps
    exact Steps.always steps spec fun _ => rfl

/-- A WAL file with another salt, and with a frame. -/
theorem reset_detected_plain : ∃ w₀ m w r m' w',
    (fallible (fileHost fun _ _ => True)).Reach plainConfig (.idle none w₀) (.idle (some m) w) ∧
    Steps (syncServer plainConfig (fileHost fun _ _ => True) m) (syncWal plain m, w)
      (.pure (r, m'), w') ∧
    Restarted plainConfig (fileHost fun _ _ => True) m w m' w' := by
  obtain ⟨w₀, m, w, r, m', w', run, call, checked⟩ :=
    exists_resync (some (walHeader 8 ++ walFrame 2))
      (fun out => 0 < out.1.1.walOffset ∧
        out.1.1.walHeaderSalt ≠ some (walSalt (walHeader 8 ++ walFrame 2)) ∧
        out.1.2.app.wal = some (walHeader 8 ++ walFrame 2)) (by decide +kernel)
  obtain ⟨synced, other, replaced⟩ := of_decide_eq_true checked
  have wal : (fileHost fun _ _ => True).wal w.app = some (walHeader 8 ++ walFrame 2) := replaced
  have reset : Reset (head m) ((fileHost fun _ _ => True).wal w.app) := by
    rw [wal]
    exact .salted (by decide +kernel) other
  refine ⟨w₀, m, w, r, m', w', run, call, ?_⟩
  exact (reset_detected_iff plainConfig plain_codec run synced reset call).mpr ⟨_, wal, by decide +kernel⟩

end Waloy.Spec
