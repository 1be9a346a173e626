import Waloy.Spec.Rules

/-!
# What a snapshot may do

The exits of `snapshot` and of the operations that start a generation and take
its first snapshot: where each leaves the manager and the world, whether it
returns or fails, and which failure it needs. Later statements about these
operations are case splits over the exits.
-/
namespace Waloy.Spec
open Waloy.Effect Waloy.Source Waloy.Source.BackupManager

variable {pf : Platform} (config : BackupConfig pf.build) {A σ : Type} (env : Env A)

/-- The data was encoded and sent to the object. -/
structure Sends (o : Object) (data encoded : Bytes) : Prop where
  encodes : Encodes pf config data encoded
  taken : env.Takes (.putObject (objectKey config o) encoded)

/-- The manifest was written, encoded and sent to the object of its generation. -/
def SendsManifest (generation : Str) (manifest : GenerationManifest) (encoded : Bytes) : Prop :=
  ∃ json, pf.libs.jsonToVec manifest = .ok json ∧
    Sends config env (.manifest generation) json encoded

/-- Encoding the data or storing it under the object may fail. -/
def StoreFails (o : Object) (data : Bytes) : Prop :=
  (∃ e, EncodesTo pf config data (.error e)) ∨
    ∃ encoded, Encodes pf config data encoded ∧ env.Denies (.putObject (objectKey config o) encoded)

/-- Writing, encoding or storing the manifest of a generation may fail. -/
def ListingFails (generation : Str) (manifest : GenerationManifest) : Prop :=
  (∃ e, pf.libs.jsonToVec manifest = .error e) ∨
    ∃ json, pf.libs.jsonToVec manifest = .ok json ∧ StoreFails config env (.manifest generation) json

/-- Opening the read transaction may fail. -/
def PinFails : Prop :=
  ∃ conn, env.Denies (.executeBatch conn .begin) ∨ env.Denies (.queryMaster conn)

/-- The guarantee along a sequence of buckets, each of which may be written again. -/
def Along (change : Bucket → Bucket → Prop) : Bucket → List Bucket → Prop
  | b, [] => change b b
  | b, b' :: rest => change b b ∧ change b b' ∧ Along change b' rest

theorem Along.start {change : Bucket → Bucket → Prop} {b : Bucket} {rest : List Bucket}
    (h : Along change b rest) : change b b := by
  cases rest with
  | nil => exact h
  | cons => exact h.1

/-- Encoding asks for random bytes only. -/
theorem wp_pipelineEncode_of {W : Type} {serve guard : Server Calls W} {J : W → Prop} {data : Bytes}
    {s : σ} {w : W} {ok : Bytes → σ → W → Prop} {err : Error → σ → W → Prop}
    (fills : ∀ w n bytes w', J w → serve w (.fillBytes n) bytes w' →
      guard w (.fillBytes n) bytes w' ∧ bytes.length = n ∧ J w')
    (hw : J w) (hok : ∀ encoded w', J w' → Encodes pf config data encoded → ok encoded s w')
    (herr : ∀ e w', J w' → EncodesTo pf config data (.error e) → err e s w') :
    Op.wp serve guard (pipelineEncode pf config data) ok err s w := by
  let salt := List.replicate saltLen (0 : UInt8)
  let nonce := List.replicate nonceLen (0 : UInt8)
  have any : ∀ result, encodeWith pf config data salt nonce = result →
      EncodesTo pf config data result := fun result h =>
    ⟨salt, nonce, List.length_replicate, List.length_replicate, h⟩
  unfold pipelineEncode
  rw [Op.wp_bind, Op.wp_ofExcept]
  cases compressed : compress pf data config.compression with
  | error e => exact herr e w hw (any _ (by simp [encodeWith, compressed, bind, Except.bind]))
  | ok bytes =>
    dsimp only
    by_cases feature : pf.build.encryption = true
    · cases hkey : config.encryptionKey with
      | none =>
        simp only [feature, if_true, Op.wp_pure]
        refine hok bytes w hw (any _ ?_)
        simp [encodeWith, compressed, feature, hkey, bind, Except.bind]
        rfl
      | some key =>
        simp only [feature, if_true, encrypt, Op.wp_bind]
        intro salt w₁ filled
        obtain ⟨guarded, hsalt, hw₁⟩ := fills w saltLen salt w₁ hw filled
        refine ⟨guarded, ?_⟩
        intro nonce w₂ filled'
        obtain ⟨guarded', hnonce, hw₂⟩ := fills w₁ nonceLen nonce w₂ hw₁ filled'
        refine ⟨guarded', ?_⟩
        have result : EncodesTo pf config data (sealWith pf bytes key salt nonce) :=
          ⟨salt, nonce, hsalt, hnonce,
            by simp [encodeWith, compressed, feature, hkey, bind, Except.bind]⟩
        change Op.wp serve guard (Op.ofExcept (sealWith pf bytes key salt nonce)) ok err s w₂
        rw [Op.wp_ofExcept]
        cases sealed : sealWith pf bytes key salt nonce with
        | ok encoded => exact hok encoded w₂ hw₂ (by rwa [sealed] at result)
        | error e => exact herr e w₂ hw₂ (by rwa [sealed] at result)
    · simp only [feature, Bool.false_eq_true, if_false, Op.wp_pure]
      refine hok bytes w hw (any _ ?_)
      simp [encodeWith, compressed, feature, bind, Except.bind]
      rfl

section
variable {config env} {change : Bucket → Bucket → Prop} {s : σ} {w : World A}
  {err : Error → σ → World A → Prop}

variable (config) in
theorem wp_pipelineEncode (data : Bytes) {ok : Bytes → σ → World A → Prop}
    (hstay : change w.bucket w.bucket)
    (hok : ∀ a encoded, env.host.during w.app a → Encodes pf config data encoded →
      ok encoded s { w with app := a })
    (herr : ∀ e a, env.host.during w.app a → EncodesTo pf config data (.error e) →
      err e s { w with app := a }) :
    Op.wp env.serve (watch change) (pipelineEncode pf config data) ok err s w := by
  let J (w' : World A) : Prop := ∃ a, env.host.during w.app a ∧ w' = { w with app := a }
  refine wp_pipelineEncode_of config (J := J) ?_ ⟨w.app, env.host.during_refl _, rfl⟩ ?_ ?_
  · rintro _ n bytes w' ⟨a, moved, rfl⟩ ⟨a', moved', -, length, rfl⟩
    exact ⟨hstay, length, a', env.host.during_trans moved moved', rfl⟩
  · rintro encoded _ ⟨a, moved, rfl⟩ encodes
    exact hok a encoded moved encodes
  · rintro e _ ⟨a, moved, rfl⟩ fails
    exact herr e a moved fails

end

section
variable {config env} {change : Bucket → Bucket → Prop} {m : BackupManager pf.build} {w : World A}
  {ok : Unit → BackupManager pf.build → World A → Prop}
  {err : Error → BackupManager pf.build → World A → Prop}

theorem wp_uploadManifest (hm : Uses config m) (hstay : change w.bucket w.bucket)
    (hput : ∀ encoded, SendsManifest config env m.generation m.manifest encoded →
      Along change w.bucket [store config w.bucket (.manifest m.generation) encoded])
    (hok : ∀ a encoded, env.host.during w.app a →
      SendsManifest config env m.generation m.manifest encoded →
      ok () m { w with
        app := a
        bucket := store config w.bucket (.manifest m.generation) encoded
        log := .stored (objectKey config (.manifest m.generation)) :: w.log })
    (herr : ListingFails config env m.generation m.manifest → ∀ e a b, env.host.during w.app a →
      (b = w.bucket ∨ ∃ encoded, SendsManifest config env m.generation m.manifest encoded ∧
        b = store config w.bucket (.manifest m.generation) encoded) →
      err e m { w with app := a, bucket := b }) :
    Op.wp env.serve (watch change) (uploadManifest pf) ok err m w := by
  have still := env.host.during_refl w.app
  simp only [uploadManifest, Op.wp_bind, Op.wp_get, Op.wp_ofExcept, hm.1, hm.2]
  cases written : pf.libs.jsonToVec m.manifest with
  | error e => exact herr (.inl ⟨e, written⟩) _ w.app w.bucket still (.inl rfl)
  | ok json =>
    refine wp_pipelineEncode config json hstay ?_ ?_
    · intro a encoded moved encodes
      refine wp_putObject _ _ _ hstay (fun taken => ?_) (fun taken a' moved' => ?_) ?_
      · exact (hput encoded ⟨json, written, encodes, taken⟩).2
      · exact hok a' encoded (env.host.during_trans moved moved') ⟨json, written, encodes, taken⟩
      · rintro ⟨v, reply, bad, allowed⟩ e a' b moved' hb
        have failed : env.Denies (.putObject (objectKey config (.manifest m.generation)) encoded) :=
          ⟨v, reply, bad, allowed⟩
        refine herr (.inr ⟨json, written, .inr ⟨encoded, encodes, failed⟩⟩) e a' b
          (env.host.during_trans moved moved') ?_
        exact hb.imp_right fun h => ⟨encoded, ⟨json, written, encodes, v, reply, allowed⟩, h⟩
    · intro e a moved failed
      exact herr (.inr ⟨json, written, .inl ⟨e, failed⟩⟩) e a w.bucket moved (.inl rfl)

theorem wp_beginReadTransaction (hstay : change w.bucket w.bucket)
    (hok : ∀ a pinned, env.host.during w.app a →
      ok () { m with hasReadTransaction := pinned } { w with app := a })
    (herr : PinFails env → ∀ e a, env.host.during w.app a → err e m { w with app := a }) :
    Op.wp env.serve (watch change) (beginReadTransaction pf) ok err m w := by
  simp only [beginReadTransaction, Op.wp_bind, Op.wp_get]
  refine Op.wp_ite (fun _ => hok w.app m.hasReadTransaction (env.host.during_refl _)) fun _ => ?_
  simp only [Op.wp_bind, wp_orFail, Op.wp_modify]
  refine wp_quiet rfl hstay fun a₁ reply₁ moved₁ allowed₁ _ => ?_
  cases reply₁ with
  | error e => exact herr ⟨_, .inl ⟨_, .error e, trivial, allowed₁⟩⟩ _ a₁ moved₁
  | ok =>
    refine wp_quiet rfl hstay fun a₂ reply₂ moved₂ allowed₂ _ => ?_
    have moved := env.host.during_trans moved₁ moved₂
    cases reply₂ with
    | error e => exact herr ⟨_, .inr ⟨_, .error e, trivial, allowed₂⟩⟩ _ a₂ moved
    | ok => exact hok a₂ true moved

theorem wp_endReadTransaction (hstay : change w.bucket w.bucket)
    (hok : ∀ a, env.host.during w.app a →
      ok () { m with hasReadTransaction := false } { w with app := a }) :
    Op.wp env.serve (watch change) (endReadTransaction pf) ok err m w := by
  simp only [endReadTransaction, Op.wp_bind, Op.wp_get]
  refine Op.wp_ite (fun _ => ?_) fun unpinned => ?_
  · simp only [Op.wp_bind, Op.wp_modify]
    exact wp_quiet rfl hstay fun a _ moved _ _ => hok a moved
  · rw [Bool.not_eq_true] at unpinned
    have same : m = { m with hasReadTransaction := false } := by rw [← unpinned]
    rw [Op.wp_pure, same]
    exact hok w.app (env.host.during_refl _)

end

/-- The database file is read when the application has moved to `a`. -/
structure ReadsDb (w : World A) (a : A) (raw : Bytes) : Prop where
  moved : env.host.during w.app a
  held : env.host.db a = some raw
  allowed : env.allows { w with app := a } (.readFile env.host.dbPath) (.ok raw)

/-- The manifest after a snapshot at the given time. -/
def restamped (manifest : GenerationManifest) (now : Nat) : GenerationManifest :=
  { manifest with snapshotTimestampMs := now, segments := [] }

/-- The manager after a snapshot of its generation. -/
def Head.restarted (h : Head) (now : Nat) : Head :=
  { h with
    walOffset := 0
    walIndex := 0
    walHeaderSalt := none
    manifest := restamped h.manifest now }

/-- The manager at the start of a generation: the positions are still the old ones. -/
def Head.begun (h : Head) (generation : Str) (now : Nat) : Head :=
  { h with generation := generation, manifest := GenerationManifest.new generation now }

/-- The bucket once the snapshot object, then also the `latest` marker is stored. -/
def withSnapshot (b : Bucket) (generation : Str) (encoded : Bytes) : Bucket :=
  store config b (.snapshot generation) encoded

def withLatest (b : Bucket) (generation : Str) (encoded : Bytes) : Bucket :=
  store config (withSnapshot config b generation encoded) .latest (asBytes generation)

def withManifest (b : Bucket) (generation : Str) (encoded manifest : Bytes) : Bucket :=
  store config (withLatest config b generation encoded) (.manifest generation) manifest

/-- The ways out of `snapshot`. -/
inductive SnapshotExit (w : World A) (h : Head) : Except Error Unit → Head → World A → Prop where
  | unread {e : Error} {a : A} (moved : env.host.during w.app a)
      (failed : env.Denies (.readFile env.host.dbPath)) :
      SnapshotExit w h (.error e) h { w with app := a }
  /-- The error comes before the marker is acknowledged, and the manager is as before. -/
  | unpublished {e : Error} {raw : Bytes} {a₁ a : A} {b : Bucket} {log : List Event}
      (read : ReadsDb env w a₁ raw) (moved : env.host.during a₁ a)
      (failed : StoreFails config env (.snapshot h.generation) raw ∨
        env.Denies (.putObject (objectKey config .latest) (asBytes h.generation)))
      (partly : b = w.bucket ∨ ∃ encoded, Sends config env (.snapshot h.generation) raw encoded ∧
        (b = withSnapshot config w.bucket h.generation encoded ∨
          b = withLatest config w.bucket h.generation encoded))
      (logged : log = w.log ∨
        log = .stored (objectKey config (.snapshot h.generation)) :: w.log) :
      SnapshotExit w h (.error e) h { w with app := a, bucket := b, log := log }
  /-- The manager starts over, but its manifest did not get through. -/
  | unlisted {e : Error} {raw encoded : Bytes} {now : Nat} {a₁ a : A} {b : Bucket}
      (read : ReadsDb env w a₁ raw) (moved : env.host.during a₁ a)
      (sent : Sends config env (.snapshot h.generation) raw encoded)
      (ticks : env.host.tick w.clock now)
      (failed : ListingFails config env h.generation (restamped h.manifest now))
      (partly : b = withLatest config w.bucket h.generation encoded ∨
        ∃ manifest,
          SendsManifest config env h.generation (restamped h.manifest now) manifest ∧
          b = withManifest config w.bucket h.generation encoded manifest) :
      SnapshotExit w h (.error e) (h.restarted now)
        { w with
          app := a
          bucket := b
          clock := now
          log := .stored (objectKey config .latest) ::
            .stored (objectKey config (.snapshot h.generation)) :: w.log }
  | done {raw encoded manifest : Bytes} {now : Nat} {a₁ a : A}
      (read : ReadsDb env w a₁ raw) (moved : env.host.during a₁ a)
      (sent : Sends config env (.snapshot h.generation) raw encoded)
      (ticks : env.host.tick w.clock now)
      (listed : SendsManifest config env h.generation (restamped h.manifest now) manifest) :
      SnapshotExit w h (.ok ()) (h.restarted now)
        { w with
          app := a
          bucket := withManifest config w.bucket h.generation encoded manifest
          clock := now
          log := .stored (objectKey config (.manifest h.generation)) ::
            .stored (objectKey config .latest) ::
            .stored (objectKey config (.snapshot h.generation)) :: w.log }

/-- What a guarantee on the bucket has to allow while `snapshot` runs. -/
structure SnapshotWatched (change : Bucket → Bucket → Prop) (w : World A) (h : Head) : Prop where
  start : change w.bucket w.bucket
  published : ∀ a raw encoded, ReadsDb env w a raw →
    Sends config env (.snapshot h.generation) raw encoded → Along change w.bucket
      [withSnapshot config w.bucket h.generation encoded,
        withLatest config w.bucket h.generation encoded]
  listed : ∀ a raw encoded now manifest, ReadsDb env w a raw →
    Sends config env (.snapshot h.generation) raw encoded →
    SendsManifest config env h.generation (restamped h.manifest now) manifest →
    Along change (withLatest config w.bucket h.generation encoded)
      [withManifest config w.bucket h.generation encoded manifest]

variable {config env} in
theorem wp_snapshot {change : Bucket → Bucket → Prop} {m : BackupManager pf.build} {w : World A}
    (hm : Uses config m) (hdb : config.dbPath = env.host.dbPath)
    (watched : SnapshotWatched config env change w (head m)) :
    Op.wp env.serve (watch change) (snapshot pf)
      (fun _ m' w' => Uses config m' ∧ SnapshotExit config env w (head m) (.ok ()) (head m') w')
      (fun e m' w' => Uses config m' ∧ SnapshotExit config env w (head m) (.error e) (head m') w')
      m w := by
  have path : m.config.dbPath = env.host.dbPath := hm.1 ▸ hdb
  simp only [snapshot, Op.wp_bind, Op.wp_get, wp_orFail, hm.1, hm.2, Op.wp_modify]
  refine wp_quiet rfl watched.start fun a₁ reply moved₁ allowed acts => ?_
  cases reply with
  | error e => exact ⟨hm, .unread moved₁ ⟨_, .error e, trivial, path ▸ allowed⟩⟩
  | ok raw =>
    have read : ReadsDb env w a₁ raw := ⟨moved₁, acts.1 path, path ▸ allowed⟩
    refine wp_pipelineEncode config raw watched.start ?_ ?_
    swap
    · exact fun e a moved failed => ⟨hm, .unpublished read moved (.inl (.inl ⟨e, failed⟩))
        (.inl rfl) (.inl rfl)⟩
    intro a₂ encoded moved₂ encodes
    refine wp_putObject _ _ _ watched.start (fun taken => ?_) (fun taken a₃ moved₃ => ?_) ?_
    · obtain ⟨-, puts, again, -⟩ := watched.published a₁ raw encoded read ⟨encodes, taken⟩
      exact ⟨puts, again⟩
    swap
    · rintro ⟨v, reply, bad, allowed⟩ e a b moved hb
      refine ⟨hm, .unpublished read (env.host.during_trans moved₂ moved)
        (.inl (.inr ⟨encoded, encodes, v, reply, bad, allowed⟩)) ?_ (.inl rfl)⟩
      exact hb.imp_right fun h => ⟨encoded, ⟨encodes, v, reply, allowed⟩, .inl h⟩
    have sent : Sends config env (.snapshot m.generation) raw encoded := ⟨encodes, taken⟩
    have moved := env.host.during_trans moved₂ moved₃
    obtain ⟨-, -, again, puts, last⟩ := watched.published a₁ raw encoded read sent
    refine wp_putObject _ _ _ again (fun _ => ⟨puts, last⟩) (fun _ a₄ moved₄ => ?_) ?_
    swap
    · intro failed e a b moved' hb
      refine ⟨hm, .unpublished read (env.host.during_trans moved moved') (.inr failed) ?_ (.inr rfl)⟩
      exact .inr ⟨encoded, sent, hb⟩
    refine wp_quiet rfl last fun a₅ t₁ moved₅ _ _ => ?_
    refine wp_quiet rfl last fun a₆ t₂ moved₆ _ _ => ?_
    refine wp_nowMs last fun a₇ now moved₇ ticks => ?_
    have moved₇' := env.host.during_trans moved (env.host.during_trans moved₄
      (env.host.during_trans moved₅ (env.host.during_trans moved₆ moved₇)))
    refine wp_uploadManifest hm last (fun manifest listed =>
      watched.listed a₁ raw encoded now manifest read sent listed) ?_ ?_
    · intro a manifest moved' listed
      exact ⟨hm, .done read (env.host.during_trans moved₇' moved') sent ticks listed⟩
    · intro failed e a b moved' hb
      exact ⟨hm, .unlisted read (env.host.during_trans moved₇' moved') sent ticks failed hb⟩

end Waloy.Spec
