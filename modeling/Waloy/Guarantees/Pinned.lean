import Waloy.Effect.Observed
import Waloy.Guarantees.Representation
import Waloy.Spec.Confined

/-!
# The read transaction that pins the WAL

A manager holds its read transaction after every operation, as long as no operation fails
between the `COMMIT` of a recovery or a checkpoint and the `BEGIN` that follows it.
-/
namespace Waloy.Spec
open Waloy.Effect Waloy.Source Waloy.Source.BackupManager

variable {pf : Platform} (config : BackupConfig pf.build) {A : Type}

/-- The answers by which a `BEGIN` and its `SELECT` succeed. -/
def pins : (c : Call) → c.Reply → Bool
  | .executeBatch _ .begin, .error _ => false
  | .queryMaster _, .error _ => false
  | _, _ => true

/-- The runs without `shutdown` in which every call may fail but a `BEGIN` and its
`SELECT`. -/
def pinning (host : Host A) : Regime pf A where
  host := host
  enabled q _ := q ∈ [.new, .syncWal, .snapshot, .checkpoint, .maybeSnapshot, .enforceRetention] ∨
    ∃ maxSegmentSize fuel, q = .compact maxSegmentSize fuel
  allows _ _ _ c reply := pins c reply = true
  drift := idleMove host

/-- Whatever an operation returned, the manager holds its read transaction. -/
def StaysPinned {W : Type} (setting : Setting (process config) W) : Prop :=
  ∀ w₀ m w, setting.Reach (.idle none w₀) (.idle (some m) w) → m.hasReadTransaction = true

/-- What the calls tell of the read transaction. -/
inductive Pin where
  | held
  /-- After a `COMMIT`, with the number of uploads that were denied one after the other. -/
  | released (denied : Nat)
  /-- After a `COMMIT` and the checkpoint that follows it. -/
  | checkpointed

def Pin.next : Pin → (c : Call) → c.Reply → Pin
  | _, .executeBatch _ .begin, .ok _ => .held
  | _, .executeBatch _ .commit, _ => .released 0
  | .released _, .executeBatch _ .walCheckpointTruncate, .ok _ => .checkpointed
  | .released denied, .putObject _ _, .error _ => .released (denied + 1)
  | .released _, .putObject _ _, .ok _ => .released 0
  | pin, _, _ => pin

/-- The failures that leave an operation without its read transaction: while it is released
and nothing is checkpointed, a read of a local file, the last attempt of an upload, and the
checkpoint itself. -/
def Unpins : Pin → (c : Call) → c.Reply → Prop
  | .released _, .readFile _, .error _ => True
  | .released denied, .putObject _ _, .error _ => maxRetries ≤ denied
  | .released _, .executeBatch _ .walCheckpointTruncate, .error _ => True
  | _, _, _ => False

/-- Follows the read transaction and refuses the failures that lose it. What `new` does
before its own `BEGIN` is no matter. -/
def observePin (q : Request) : Server Calls Pin := fun pin c reply pin' =>
  (q = .new ∨ ¬ Unpins pin c reply) ∧ pin' = pin.next c reply

/-- A sync takes the WAL file for another one, and the upload of its recovery's snapshot
is denied. The recovery has released the read transaction and returns without a new one. -/
theorem not_staysPinned :
    ¬ StaysPinned plainConfig ((pinning (fileHost fun _ _ => True)).setting plainConfig) := by
  let R : Regime plain Files := pinning (fileHost fun _ _ => True)
  let M : Machine R :=
    { enable := fun q _ => q ∈ [.new, .syncWal]
      truncate := id
      install := fun files _ _ => files
      check := fun _ _ _ c reply => pins c reply
      enabled := fun q _ enabled => by
        have among : q = .new ∨ q = .syncWal := by simpa using enabled
        exact .inl (by obtain rfl | rfl := among <;> simp)
      truncated := fun _ => trivial
      installed := fun _ _ _ => trivial
      ticks := fun _ _ => trivial
      checked := fun _ _ _ _ _ checked => checked }
  let w₀ : World Files := ⟨∅, ⟨some dbFile, none⟩, 1000, []⟩
  let wal (salt fill : UInt8) : Machine.Cue R :=
    .move (fun files => { files with wal := some (walHeader salt ++ walFrame fill) })
      (fun _ => ⟨_, _, trivial, .inl rfl, rfl⟩)
  let cues : List (Machine.Cue R) :=
    [.perform .new fun _ => false, wal 7 1, .perform .syncWal fun _ => false, wal 8 2,
      .perform .syncWal isPut]
  have played : (M.play plainConfig cues (none, w₀)).any
      (fun out => out.1.any fun m => !m.hasReadTransaction) = true := by decide +kernel
  obtain ⟨⟨s, w⟩, run, unpinned⟩ := (Option.any_eq_true _ _).mp played
  obtain ⟨m, rfl, released⟩ := (Option.any_eq_true _ _).mp unpinned
  intro claim
  have held : m.hasReadTransaction = true := claim w₀ m w (Machine.play_reach run)
  rw [held] at released
  cases released

/-- An answer that the proofs below may rely on. -/
def wellAnswered : (c : Call) → c.Reply → Prop
  | .fillBytes n, bytes => bytes.length = n
  | c, reply => pins c reply = true

/-- The observer alone, with the answers it may rely on. -/
def pinServer (q : Request) : Server Calls Pin := fun pin c reply pin' =>
  wellAnswered c reply ∧ observePin q pin c reply pin'

theorem Acts.wellAnswered {host : Host A} {w w' : World A} {c : Call} {reply : c.Reply}
    (acts : Acts host w c reply w') (pinned : pins c reply = true) : wellAnswered c reply := by
  cases c with
  | fillBytes n => exact acts.1
  | _ => exact pinned

section
variable {config} {q : Request} {pin pin' : Pin} {σ : Type} {s : σ}

/-- Only a batch and an upload change what the calls tell. -/
theorem Pin.next_still {c : Call} {reply : c.Reply} (batch : ∀ conn b, c ≠ .executeBatch conn b)
    (put : ∀ key data, c ≠ .putObject key data) : pin.next c reply = pin := by
  cases c with
  | executeBatch conn b => exact absurd rfl (batch conn b)
  | putObject key data => exact absurd rfl (put key data)
  | _ => cases pin <;> rfl

/-- An upload is no matter while the transaction is held or the WAL is checkpointed. -/
theorem Pin.next_upload {key : Str} {data : Bytes} {reply : Except String Unit}
    (fixed : ∀ denied, pin ≠ .released denied) : pin.next (.putObject key data) reply = pin := by
  cases pin with
  | released denied => exact absurd rfl (fixed denied)
  | held => cases reply <;> rfl
  | checkpointed => cases reply <;> rfl

/-- The calls outside SQLite. -/
def isOutside (c : Call) : Prop := ∀ conn b, c ≠ .executeBatch conn b

theorem permits_isOutside : PermitsCleaning config isOutside where
  quiet c local_call conn b same := by
    subst same
    cases local_call
  time _ _ := by simp
  id _ _ := by simp
  put _ _ _ _ := by simp
  get _ _ _ := by simp
  list _ _ _ := by simp
  delete _ _ _ := by simp

/-- What stays outside SQLite keeps the transaction as it is. -/
theorem wp_outside {α : Type} {held : Bool} {x : Method pf α} {m : BackupManager pf.build}
    (hx : Op.Within isOutside (fun m => Uses config m ∧ m.hasReadTransaction = held) x)
    (fixed : ∀ denied, pin ≠ .released denied)
    (hm : Uses config m ∧ m.hasReadTransaction = held) :
    Op.wp (pinServer q) anyCall x
      (fun _ m' pin' => (Uses config m' ∧ m'.hasReadTransaction = held) ∧ pin' = pin)
      (fun _ m' pin' => (Uses config m' ∧ m'.hasReadTransaction = held) ∧ pin' = pin) m pin := by
  refine Op.Within.wp ?_ hx hm rfl
  rintro _ c reply pin' rfl outside ⟨-, -, rfl⟩
  refine ⟨trivial, ?_⟩
  by_cases put : ∃ key data, c = .putObject key data
  · obtain ⟨key, data, rfl⟩ := put
    exact Pin.next_upload fixed
  · exact Pin.next_still outside fun key data same => put ⟨key, data, same⟩

theorem wp_told {c : Call} {ok : c.Reply → σ → Pin → Prop} {err : Error → σ → Pin → Prop}
    (hok : ∀ reply, wellAnswered c reply → (q = .new ∨ ¬ Unpins pin c reply) →
      ok reply s (pin.next c reply)) :
    Op.wp (pinServer q) anyCall (call c) ok err s pin := by
  rintro reply pin' ⟨well, refused, rfl⟩
  exact ⟨trivial, hok reply well refused⟩

/-- A call that tells nothing of the transaction. -/
theorem wp_still {c : Call} {ok : c.Reply → σ → Pin → Prop} {err : Error → σ → Pin → Prop}
    (batch : ∀ conn b, c ≠ .executeBatch conn b) (put : ∀ key data, c ≠ .putObject key data)
    (hok : ∀ reply, wellAnswered c reply → (q = .new ∨ ¬ Unpins pin c reply) → ok reply s pin) :
    Op.wp (pinServer q) anyCall (call c) ok err s pin := by
  refine wp_told fun reply well refused => ?_
  rw [Pin.next_still batch put]
  exact hok reply well refused

theorem wp_nowMs_still {ok : Nat → σ → Pin → Prop} {err : Error → σ → Pin → Prop}
    (hok : ∀ now, ok now s pin) : Op.wp (pinServer q) anyCall nowMs ok err s pin := by
  refine (Op.wp_bind _ _).mpr (wp_still (by simp) (by simp) fun reply _ _ => ?_)
  cases reply with
  | ok ms => exact hok _
  | error e => exact hok _

section
variable (codec : Codec config)
include codec

/-- Encoding does not fail, and tells nothing of the transaction. -/
theorem wp_encode {data : Bytes} {ok : Bytes → σ → Pin → Prop} {err : Error → σ → Pin → Prop}
    (hok : ∀ encoded, ok encoded s pin) :
    Op.wp (pinServer q) anyCall (pipelineEncode pf config data) ok err s pin := by
  refine wp_pipelineEncode_of config (J := fun pin' => pin' = pin) ?_ rfl ?_ ?_
  · rintro pin₁ n bytes pin' same ⟨well, -, next⟩
    rw [next, Pin.next_still (by simp) (by simp)]
    exact ⟨trivial, well, same⟩
  · rintro encoded _ rfl -
    exact hok encoded
  · rintro e _ rfl fails
    obtain ⟨encoded, impossible⟩ := codec.encodes data _ fails
    cases impossible

end

variable (later : q ≠ .new)
include later

/-- While the transaction is released, an upload succeeds in one of its attempts. -/
theorem wp_put_released {s3 : S3Client} {key : Str} {data : Bytes} :
    Op.wp (pinServer q) anyCall (s3.putObject key data : M σ Unit)
      (fun _ s' pin' => s' = s ∧ pin' = .released 0) (fun _ _ _ => False) s (.released 0) := by
  suffices ∀ left attempt denied, left + denied = maxRetries →
      Op.wp (pinServer q) anyCall
        (S3Client.retryFrom (orFail .s3 (call (.putObject (s3.fullKey key) data))) left attempt : M σ Unit)
        (fun _ s' pin' => s' = s ∧ pin' = .released 0) (fun _ _ _ => False) s (.released denied) by
    exact this maxRetries 0 0 rfl
  intro left
  induction left with
  | zero =>
    intro attempt denied counted
    rintro reply pin' ⟨-, refused, rfl⟩
    refine ⟨trivial, ?_⟩
    cases reply with
    | ok => exact ⟨rfl, rfl⟩
    | error e =>
      have given_up : maxRetries ≤ denied := by omega
      exact (refused.resolve_left later given_up).elim
  | succ left ih =>
    intro attempt denied counted
    rintro reply pin' ⟨-, refused, rfl⟩
    refine ⟨trivial, ?_⟩
    cases reply with
    | ok => exact ⟨rfl, rfl⟩
    | error e =>
      rintro ⟨⟩ pin' ⟨-, -, rfl⟩
      exact ⟨trivial, ih (attempt + 1) (denied + 1) (by omega)⟩

end

/-- A manager that has released its read transaction. -/
abbrev Released (m : BackupManager pf.build) : Prop :=
  Uses config m ∧ m.hasReadTransaction = false

/-- A manager that holds its read transaction, as the calls tell too. -/
structure Held (m : BackupManager pf.build) (pin : Pin) : Prop where
  uses : Uses config m
  holds : m.hasReadTransaction = true
  told : pin = .held

section
variable {config} {q : Request} {pin : Pin} {m : BackupManager pf.build}

theorem wp_end (hm : Uses config m) (holds : m.hasReadTransaction = true) :
    Op.wp (pinServer q) anyCall (endReadTransaction pf)
      (fun _ m' pin' => Released config m' ∧ pin' = .released 0) (fun _ _ _ => False) m pin := by
  unfold endReadTransaction
  simp only [Op.wp_bind, Op.wp_get]
  refine Op.wp_ite (fun _ => ?_) fun released => absurd holds released
  simp only [Op.wp_bind]
  refine wp_told fun reply _ _ => ⟨⟨hm, rfl⟩, ?_⟩
  cases pin <;> rfl

theorem wp_begin (hm : Released config m) :
    Op.wp (pinServer q) anyCall (beginReadTransaction pf) (fun _ m' pin' => Held config m' pin')
      (fun _ _ _ => False) m pin := by
  unfold beginReadTransaction
  simp only [Op.wp_bind, Op.wp_get]
  refine Op.wp_ite (fun holds => absurd (hm.2.symm.trans holds) (by simp)) fun _ => ?_
  simp only [Op.wp_bind, wp_orFail]
  refine wp_told fun reply well _ => ?_
  cases reply with
  | error e => cases well
  | ok =>
    refine wp_told fun reply well' _ => ?_
    cases reply with
    | error e => cases well'
    | ok =>
      refine ⟨hm.1, rfl, ?_⟩
      cases pin <;> rfl

theorem wp_start (hm : Released config m) :
    Op.wp (pinServer q) anyCall (startGeneration pf)
      (fun _ m' pin' => Released config m' ∧ pin' = pin) (fun _ _ _ => False) m pin := by
  refine (Op.wp_bind _ _).mpr (wp_still (by simp) (by simp) fun generation _ _ => ?_)
  simp only [Op.wp_bind, Op.wp_modify]
  exact wp_nowMs_still fun now => ⟨hm, rfl⟩

variable (codec : Codec config) (later : q ≠ .new)
include codec later

theorem wp_manifest_released (hm : Released config m) :
    Op.wp (pinServer q) anyCall (uploadManifest pf)
      (fun _ m' pin' => Released config m' ∧ pin' = .released 0) (fun _ _ _ => False) m
      (.released 0) := by
  obtain ⟨json, written⟩ := codec.serializes m.manifest
  unfold uploadManifest
  simp only [Op.wp_bind, Op.wp_get, Op.wp_ofExcept, written, Except.mapError, hm.1.1, hm.1.2]
  refine wp_encode codec fun encoded => ?_
  refine Op.wp_mono (wp_put_released later) ?_ fun _ _ _ => id
  rintro ⟨⟩ m' pin' ⟨rfl, rfl⟩
  exact ⟨hm, rfl⟩

/-- The snapshot of a recovery succeeds. -/
theorem wp_snapshot_released (hm : Released config m) :
    Op.wp (pinServer q) anyCall (snapshot pf)
      (fun _ m' pin' => Released config m' ∧ pin' = .released 0) (fun _ _ _ => False) m
      (.released 0) := by
  unfold snapshot
  simp only [Op.wp_bind, Op.wp_get, wp_orFail, hm.1.1, hm.1.2]
  refine wp_still (by simp) (by simp) fun reply _ refused => ?_
  cases reply with
  | error e => exact absurd trivial (refused.resolve_left later)
  | ok rawData =>
    refine wp_encode codec fun data => ?_
    refine Op.wp_mono (wp_put_released later) ?_ fun _ _ _ => id
    rintro ⟨⟩ _ _ ⟨rfl, rfl⟩
    refine Op.wp_mono (wp_put_released later) ?_ fun _ _ _ => id
    rintro ⟨⟩ _ _ ⟨rfl, rfl⟩
    simp only [Op.wp_modify]
    refine wp_still (by simp) (by simp) fun snapshotTime _ _ => ?_
    refine wp_still (by simp) (by simp) fun lastSnapshotTime _ _ => ?_
    refine wp_nowMs_still fun now => ?_
    exact wp_manifest_released codec later hm

theorem wp_recover_held (held : Held config m pin) :
    Op.wp (pinServer q) anyCall (recover pf) (fun _ m' pin' => Held config m' pin')
      (fun _ _ _ => False) m pin := by
  unfold recover
  simp only [Op.wp_bind]
  refine Op.wp_mono (wp_end held.uses held.holds) ?_ fun _ _ _ => id
  rintro ⟨⟩ m₁ _ ⟨released₁, rfl⟩
  refine Op.wp_mono (wp_start released₁) ?_ fun _ _ _ => id
  rintro ⟨⟩ m₂ _ ⟨released₂, rfl⟩
  refine Op.wp_mono (wp_snapshot_released codec later released₂) ?_ fun _ _ _ => id
  rintro ⟨⟩ m₃ _ ⟨released₃, rfl⟩
  exact wp_begin released₃

omit codec later in
/-- What stays outside SQLite keeps hold of the transaction. -/
theorem Held.outside {α : Type} {x : Method pf α} (held : Held config m pin)
    (hx : Op.Within isOutside (fun m => Uses config m ∧ m.hasReadTransaction = true) x) :
    Op.wp (pinServer q) anyCall x (fun _ m' pin' => Held config m' pin')
      (fun _ m' pin' => Held config m' pin') m pin := by
  obtain ⟨uses, holds, rfl⟩ := held
  refine Op.wp_mono (wp_outside hx (by simp) ⟨uses, holds⟩) ?_ ?_
  · rintro value m' _ ⟨⟨uses', holds'⟩, rfl⟩
    exact ⟨uses', holds', rfl⟩
  · rintro e m' _ ⟨⟨uses', holds'⟩, rfl⟩
    exact ⟨uses', holds', rfl⟩

theorem wp_sync_held (held : Held config m pin) :
    Op.wp (pinServer q) anyCall (syncWal pf) (fun _ m' pin' => Held config m' pin')
      (fun _ m' pin' => Held config m' pin') m pin := by
  unfold syncWal
  simp only [Op.wp_bind, Op.wp_get]
  refine wp_still (by simp) (by simp) fun found _ _ => ?_
  refine Op.wp_ite (fun _ => held) fun _ => ?_
  simp only [Op.wp_bind, wp_orFail]
  refine wp_still (by simp) (by simp) fun reply _ _ => ?_
  cases reply with
  | error e => exact held
  | ok walData =>
    refine Op.wp_ite (fun _ => held) fun _ => Op.wp_ite (fun _ => ?_) fun _ => ?_
    · simp only [Op.wp_bind]
      refine Op.wp_mono (wp_recover_held codec later held) ?_ fun _ _ _ => False.elim
      exact fun _ _ _ held' => held'
    · have captured : Held config (m.captureSalt pf walData) pin := by
        refine ⟨held.uses.captureSalt walData, ?_, held.told⟩
        unfold captureSalt
        split
        · exact held.holds
        · exact held.holds
      simp only [Op.wp_bind, Op.wp_modify]
      refine Op.wp_ite (fun _ => captured) fun _ => ?_
      simp only [Op.wp_bind]
      refine Op.wp_mono (captured.outside ?_) (fun _ _ _ held' => held') fun _ _ _ held' => held'
      exact within_uploadSegment (steady_pin config true) permits_isOutside.toPermits walData _

theorem wp_checkpoint_held (held : Held config m pin) :
    Op.wp (pinServer q) anyCall (checkpoint pf) (fun _ m' pin' => Held config m' pin')
      (fun _ m' pin' => Held config m' pin') m pin := by
  unfold checkpoint
  simp only [Op.wp_bind]
  refine Op.wp_mono (wp_sync_held codec later held) ?_ fun _ _ _ held' => held'
  intro found m₁ pin₁ held₁
  refine Op.wp_mono (wp_end held₁.uses held₁.holds) ?_ fun _ _ _ => False.elim
  rintro ⟨⟩ m₂ _ ⟨released₂, rfl⟩
  simp only [Op.wp_get, wp_orFail]
  refine wp_told fun reply _ refused => ?_
  cases reply with
  | error e => exact absurd trivial (refused.resolve_left later)
  | ok =>
    refine Op.wp_mono (wp_start released₂) ?_ fun _ _ _ => False.elim
    rintro ⟨⟩ m₃ _ ⟨released₃, rfl⟩
    have checkpointed : ∀ denied, Pin.next (.released 0) (.executeBatch m₂.readConn
        .walCheckpointTruncate) (.ok ()) ≠ .released denied := by
      intro denied
      simp [Pin.next]
    have rest : ∀ (result : Except Error Unit) (m' : BackupManager pf.build) (pin' : Pin),
        Released config m' → Op.wp (pinServer q) anyCall (do
          beginReadTransaction pf
          Op.ofExcept result) (fun _ m' pin' => Held config m' pin')
          (fun _ m' pin' => Held config m' pin') m' pin' := by
      intro result m' pin' released
      simp only [Op.wp_bind]
      refine Op.wp_mono (wp_begin released) ?_ fun _ _ _ => False.elim
      intro _ m'' pin'' held''
      rw [Op.wp_ofExcept]
      cases result with
      | ok => exact held''
      | error e => exact held''
    rw [Op.wp_attempt]
    have within := within_snapshot (steady_pin config false) permits_isOutside.toPermits
    refine Op.wp_mono (wp_outside within checkpointed released₃) ?_ ?_
    · rintro value m' _ ⟨released', rfl⟩
      simpa only [Op.wp_bind] using rest (.ok value) m' _ released'
    · rintro e m' _ ⟨released', rfl⟩
      simpa only [Op.wp_bind] using rest (.error e) m' _ released'

theorem wp_maybe_held (held : Held config m pin) :
    Op.wp (pinServer q) anyCall (maybeSnapshot pf) (fun _ m' pin' => Held config m' pin')
      (fun _ m' pin' => Held config m' pin') m pin := by
  unfold maybeSnapshot
  simp only [Op.wp_bind, Op.wp_get]
  cases m.config.snapshotInterval with
  | none => exact held
  | some interval =>
    simp only [Op.wp_bind]
    refine wp_still (by simp) (by simp) fun now _ _ => ?_
    refine Op.wp_ite (fun _ => ?_) fun _ => held
    simp only [Op.wp_bind]
    exact Op.wp_mono (wp_checkpoint_held codec later held) (fun _ _ _ held' => held')
      fun _ _ _ held' => held'

end

/-- An open manager holds its read transaction, as the calls tell. -/
def AllHeld (s : Manager pf) (pin : Pin) : Prop := ∀ m, s = some m → Held config m pin

section
variable {config} {q : Request} {pin : Pin} {s : Manager pf}

theorem wp_new_held : Op.wp (pinServer q) anyCall (new pf config)
    (fun m _ pin' => Held config m pin') (fun _ _ _ => True) () pin := by
  rw [new_eq, Op.wp_bind]
  have anyPin : ∀ (pin : Pin) c reply pin', True → True → pinServer q pin c reply pin' →
      anyCall pin c reply pin' ∧ True := fun _ _ _ _ _ _ _ => ⟨trivial, trivial⟩
  refine Op.wp_mono (Op.Within.wp (J := fun _ => True) anyPin (within_restoreFirst (permits_any config)) trivial
    trivial) ?_ fun _ _ _ _ => trivial
  rintro ⟨⟩ ⟨⟩ pin₁ -
  unfold connect
  simp only [Op.wp_bind, wp_orFail, Op.wp_runOn, Op.wp_pure]
  refine wp_still (by simp) (by simp) fun reply _ _ => ?_
  cases reply with
  | error e => trivial
  | ok readConn =>
  refine wp_told fun reply _ _ => ?_
  cases reply with
  | error e => trivial
  | ok =>
  refine wp_told fun reply _ _ => ?_
  cases reply with
  | error e => trivial
  | ok =>
  generalize Pin.next pin₁ (.executeBatch readConn .configure) (.ok ()) = pin₂
  refine wp_still (by simp) (by simp) fun reply _ _ => ?_
  cases reply with
  | error e => trivial
  | ok =>
  refine wp_still (by simp) (by simp) fun generation _ _ => ?_
  refine wp_nowMs_still fun ts => ?_
  refine wp_still (by simp) (by simp) fun now _ _ => ?_
  simp only [firstSnapshot, Op.wp_bind, Op.wp_attempt]
  have held : ∀ m : BackupManager pf.build, Uses config m → m.hasReadTransaction = true →
      Held config m (Pin.next pin₂ (.executeBatch readConn .begin) (.ok ())) := by
    intro m uses holds
    refine ⟨uses, holds, ?_⟩
    cases pin₂ <;> rfl
  refine Op.wp_mono ((held _ ⟨rfl, rfl⟩ rfl).outside
    (within_snapshot (steady_pin config true) permits_isOutside.toPermits)) ?_ ?_
  · exact fun _ _ _ held' => held'
  · intro e m' pin' held'
    simp only [drop, Op.wp_throw]
    exact Op.wp_mono (wp_end held'.uses held'.holds) (fun _ _ _ _ => trivial) fun _ _ _ _ => trivial

theorem AllHeld.some {m : BackupManager pf.build} (held : Held config m pin) :
    AllHeld config (some m) pin := by
  rintro _ ⟨⟩
  exact held

/-- Every operation of these runs ends with its read transaction. -/
theorem wp_process_held (codec : Codec config) {host : Host A} (enabled : (pinning host).enabled q s)
    (held : AllHeld config s pin) :
    ((process config).body q s).wp (pinServer q) anyCall (fun out pin' => AllHeld config out.2 pin')
      pin := by
  have opens : (opening config).wp (pinServer q) anyCall
      (fun out pin' => AllHeld config out.2 pin') pin := by
    rw [wp_opening]
    refine Op.wp_mono wp_new_held ?_ ?_
    · exact fun m _ pin' held' => .some held'
    · rintro e _ pin' - m ⟨⟩
  cases s with
  | none =>
    cases q with
    | new => exact opens
    | _ => trivial
  | some m =>
    have holds := held m rfl
    have method_held : ∀ {α : Type} (answer : α → Answer) (x : Method pf α),
        Op.wp (pinServer q) anyCall x (fun _ m' pin' => Held config m' pin')
          (fun _ m' pin' => Held config m' pin') m pin →
        (method answer x m).wp (pinServer q) anyCall (fun out pin' => AllHeld config out.2 pin')
          pin := by
      intro α answer x keeps
      rw [wp_method]
      exact Op.wp_mono keeps (fun _ _ _ => .some) fun _ _ _ => .some
    have steady := steady_pin config true
    have outside : PermitsCleaning config isOutside := permits_isOutside
    cases q with
    | new => exact opens
    | syncWal => exact method_held _ _ (wp_sync_held codec (by simp) holds)
    | snapshot => exact method_held _ _ (holds.outside (within_snapshot steady outside.toPermits))
    | checkpoint => exact method_held _ _ (wp_checkpoint_held codec (by simp) holds)
    | maybeSnapshot => exact method_held _ _ (wp_maybe_held codec (by simp) holds)
    | compact => exact method_held _ _ (holds.outside (within_compact steady outside _ _))
    | enforceRetention => exact method_held _ _ (holds.outside (within_enforceRetention outside.toDeletes steady.uses))
    | shutdown => simp [pinning] at enabled

end

/-- What these runs keep while no operation runs. -/
def pinInvariant : Setting.Invariant (C := process config) (W := World A × Pin) where
  idle s w := AllHeld config s w.2

/-- In a run in which no operation fails while it has released the transaction, every
operation leaves the manager with its read transaction. -/
theorem stays_pinned (codec : Codec config) (host : Host A) :
    StaysPinned config (((pinning host).setting config).observed observePin) := by
  have kept : (pinInvariant config).Kept (((pinning host).setting config).observed observePin) := by
    constructor
    case entered => exact fun _ _ => trivial
    case stays => exact fun _ _ _ => trivial
    case drift =>
      rintro s ⟨w, pin⟩ ⟨w', _⟩ held ⟨-, rfl⟩
      exact held
    case body =>
      intro q s w enabled held
      have allowed : (pinning host).enabled q s := enabled
      have view : ∀ (v : World A × Pin) c reply v',
          (((pinning host).setting config).observed observePin).serve q s v c reply v' →
            pinServer q v.2 c reply v'.2 := by
        rintro v c reply v' ⟨⟨a, -, allowed, acts⟩, observed⟩
        exact ⟨acts.wellAnswered allowed, observed⟩
      refine Prog.wp_mono (fun _ _ _ _ served => served) (fun _ _ _ _ _ => trivial) ?_ _ _
        (Prog.wp_view view _ w (wp_process_held codec allowed held))
      exact fun out w' held' _ => ⟨trivial, held'⟩
  intro w₀ m w run
  have start : (pinInvariant config).Holds (((pinning host).setting config).observed observePin)
      (.idle none w₀) := by
    intro m none_open
    cases none_open
  exact (kept.reach run start m rfl).holds

theorem stays_pinned_plain : StaysPinned plainConfig
    (((pinning (fileHost fun _ _ => True)).setting plainConfig).observed observePin) :=
  stays_pinned plainConfig plain_codec _

end Waloy.Spec
