import Waloy.Effect.Made
import Waloy.Spec.Sightings

/-!
# What the operations are made of

Every method of the manager and every restore is made of calls that do not concern the bucket
and of single calls of the bucket that are tried again when they fail. There are no others, and
nothing else sleeps.
-/
namespace Waloy.Spec
open Waloy.Effect Waloy.Source Waloy.Source.BackupManager

variable {pf : Platform} (config : BackupConfig pf.build)

/-- The operation is one call, whose answer tells the result. -/
def Single {σ α : Type} (x : M σ α) (c : Call) (result : c.Reply → Except Error α) : Prop :=
  ∀ s, x s = .call c fun reply => .pure (result reply, s)

/-- A call of the bucket, which is an error where it fails. -/
structure Attempted {σ α : Type} (x : M σ α) (c : Call) (result : c.Reply → Except Error α) :
    Prop where
  bucket : isBucketCall c = true
  single : Single x c result
  failed : ∀ {reply e}, result reply = .error e → Failure c reply
  succeeded : ∀ {reply value}, result reply = .ok value → ¬ Failure c reply

/-- The calls of a method that neither sleep nor concern the bucket. -/
def isOwnCall : Call → Bool
  | .sleep _ => false
  | c => !isBucketCall c

inductive Primitive : (σ α : Type) → M σ α → Prop where
  | own {σ : Type} (c : Call) (h : isOwnCall c = true) : Primitive σ c.Reply (call c)
  | retried {σ α : Type} {x : M σ α} {c : Call} {result : c.Reply → Except Error α}
      (attempted : Attempted x c result) : Primitive σ α (S3Client.retry x)

/-- The operations made of such calls. -/
abbrev Composed {σ α : Type} (x : M σ α) : Prop := Op.Made Primitive x

section
variable {σ α : Type}

theorem composed_call {c : Call} (h : isOwnCall c = true) :
    Composed (call c : M σ c.Reply) := .primitive (.own c h)

theorem composed_orFail {wrap : String → Error} {x : M σ (Except String α)} (hx : Composed x) :
    Composed (orFail wrap x) := by
  refine hx.bind ?_
  rintro (_ | _)
  · exact .throw _
  · exact .pure _

/-- A call of the bucket that hands its answer on. -/
theorem attempted_orFail (c : Call) (bucket : isBucketCall c = true) {x : M σ (Except String α)}
    (answer : c.Reply → Except String α)
    (asks : ∀ s, x s = .call c fun reply => .pure (.ok (answer reply), s))
    (fails : ∀ reply, (∃ e, answer reply = .error e) ↔ Failure c reply) :
    Attempted (orFail .s3 x) c fun reply => (answer reply).mapError .s3 where
  bucket := bucket
  single s := by
    rw [orFail, Op.bind_run, asks]
    refine congrArg (Prog.call (S := Calls) c) (funext fun reply => ?_)
    beta_reduce
    generalize answer reply = answered
    cases answered <;> rfl
  failed {reply e} h := by
    refine (fails reply).mp ?_
    cases answered : answer reply with
    | ok value =>
      rw [answered] at h
      cases h
    | error e => exact ⟨e, rfl⟩
  succeeded {reply value} h failure := by
    obtain ⟨e, answered⟩ := (fails reply).mpr failure
    rw [answered] at h
    cases h

/-- A pure function of its value does not change that. -/
theorem Attempted.map {β : Type} {x : M σ α} {c : Call} {result : c.Reply → Except Error α}
    (attempted : Attempted x c result) (f : α → β) :
    Attempted (x >>= fun value => pure (f value)) c fun reply => (result reply).map f where
  bucket := attempted.bucket
  single s := by
    rw [Op.bind_run, attempted.single]
    refine congrArg (Prog.call (S := Calls) c) (funext fun reply => ?_)
    beta_reduce
    generalize result reply = answered
    cases answered <;> rfl
  failed {reply e} h := by
    cases answered : result reply with
    | ok value =>
      rw [answered] at h
      cases h
    | error e' => exact attempted.failed answered
  succeeded {reply value} h := by
    cases answered : result reply with
    | ok value' => exact attempted.succeeded answered
    | error e =>
      rw [answered] at h
      cases h

theorem composed_putObject (s3 : S3Client) (key : Str) (data : Bytes) :
    Composed (s3.putObject key data : M σ Unit) :=
  .primitive (.retried (attempted_orFail (.putObject (s3.fullKey key) data) rfl id (fun _ => rfl)
    fun reply => by cases reply <;> simp [Failure]))

theorem composed_getObject (s3 : S3Client) (key : Str) :
    Composed (s3.getObject key : M σ Bytes) :=
  .primitive (.retried (attempted_orFail (.getObject (s3.fullKey key)) rfl id (fun _ => rfl)
    fun reply => by cases reply <;> simp [Failure]))

theorem composed_deleteObjects (s3 : S3Client) (keys : List Str) :
    Composed (s3.deleteObjects keys : M σ Unit) := by
  induction keys with
  | nil => exact .pure _
  | cons key keys ih =>
    refine Op.Made.bind ?_ fun _ => ih
    exact .primitive (.retried (attempted_orFail (.deleteObject (s3.fullKey key)) rfl id
      (fun _ => rfl) fun reply => by cases reply <;> simp [Failure]))

theorem composed_listKeys (s3 : S3Client) (keyPrefix : Str) :
    Composed (s3.listKeys keyPrefix : M σ (List Str)) :=
  .primitive (.retried ((attempted_orFail (.list (s3.fullKey keyPrefix)) rfl id (fun _ => rfl)
    fun reply => by cases reply <;> simp [Failure]).map _))

theorem composed_nowMs : Composed (nowMs : M σ Nat) := by
  refine Op.Made.bind (composed_call rfl) ?_
  rintro (_ | _)
  · exact .pure _
  · exact .pure _

theorem composed_pipelineEncode (data : Bytes) :
    Composed (pipelineEncode pf config data : M σ Bytes) := by
  unfold pipelineEncode
  refine (Op.Made.ofExcept _).bind fun compressed => ?_
  refine Op.Made.ite ?_ (.pure _)
  cases config.encryptionKey with
  | none => exact .pure _
  | some key =>
    refine Op.Made.bind (composed_call rfl) fun salt => ?_
    refine Op.Made.bind (composed_call rfl) fun nonce => ?_
    exact .ofExcept _

end

section Uploads

theorem composed_beginReadTransaction : Composed (beginReadTransaction pf) := by
  refine Op.Made.bind .get fun self => Op.Made.ite (.pure _) ?_
  refine Op.Made.bind (composed_orFail (composed_call rfl)) fun _ => ?_
  refine Op.Made.bind (composed_orFail (composed_call rfl)) fun _ => ?_
  exact .modify _

theorem composed_endReadTransaction : Composed (endReadTransaction pf) := by
  refine Op.Made.bind .get fun self => Op.Made.ite ?_ (.pure _)
  exact Op.Made.bind (composed_call rfl) fun _ => .modify _

theorem composed_uploadManifest : Composed (uploadManifest pf) := by
  refine Op.Made.bind .get fun self => ?_
  refine Op.Made.bind (.ofExcept _) fun json => ?_
  exact (composed_pipelineEncode _ json).bind fun encoded => composed_putObject _ _ _

theorem composed_snapshot : Composed (snapshot pf) := by
  refine Op.Made.bind .get fun self => ?_
  refine Op.Made.bind (composed_orFail (composed_call rfl)) fun rawData => ?_
  refine (composed_pipelineEncode _ rawData).bind fun data => ?_
  refine (composed_putObject _ _ _).bind fun _ => ?_
  refine (composed_putObject _ _ _).bind fun _ => ?_
  refine Op.Made.bind (.modify _) fun _ => ?_
  refine Op.Made.bind (composed_call rfl) fun _ => ?_
  refine Op.Made.bind (.modify _) fun _ => ?_
  refine Op.Made.bind (composed_call rfl) fun _ => ?_
  refine Op.Made.bind (.modify _) fun _ => ?_
  refine composed_nowMs.bind fun now => ?_
  exact Op.Made.bind (.modify _) fun _ => composed_uploadManifest

theorem composed_startGeneration : Composed (startGeneration pf) := by
  refine Op.Made.bind (composed_call rfl) fun generation => ?_
  refine Op.Made.bind (.modify _) fun _ => ?_
  exact composed_nowMs.bind fun now => .modify _

theorem composed_recover : Composed (recover pf) := by
  refine composed_endReadTransaction.bind fun _ => ?_
  refine composed_startGeneration.bind fun _ => ?_
  exact composed_snapshot.bind fun _ => composed_beginReadTransaction

theorem composed_uploadSegment (walData : Bytes) (alignedLen : Nat) :
    Composed (uploadSegment pf walData alignedLen) := by
  refine Op.Made.bind .get fun self => ?_
  refine (Op.Made.ofOption _).bind fun newData => ?_
  refine (composed_pipelineEncode _ newData).bind fun encoded => ?_
  refine (composed_putObject _ _ _).bind fun _ => ?_
  refine composed_nowMs.bind fun now => ?_
  refine Op.Made.bind (.modify _) fun _ => ?_
  refine composed_uploadManifest.bind fun _ => ?_
  refine Op.Made.bind (composed_call rfl) fun _ => ?_
  refine Op.Made.bind (.modify _) fun _ => ?_
  exact (Op.Made.ofOption _).bind fun _ => .modify _

theorem composed_syncWal : Composed (syncWal pf) := by
  refine Op.Made.bind .get fun self => ?_
  refine Op.Made.bind (composed_call rfl) fun found => Op.Made.ite (.pure _) ?_
  refine Op.Made.bind (composed_orFail (composed_call rfl)) fun walData => ?_
  refine Op.Made.ite (.pure _) (Op.Made.ite ?_ ?_)
  · exact composed_recover.bind fun _ => .pure _
  · refine Op.Made.bind (.modify _) fun _ => Op.Made.ite (.pure _) ?_
    exact (composed_uploadSegment walData _).bind fun _ => .pure _

theorem composed_checkpoint : Composed (checkpoint pf) := by
  refine composed_syncWal.bind fun _ => ?_
  refine composed_endReadTransaction.bind fun _ => ?_
  refine Op.Made.bind .get fun self => ?_
  refine Op.Made.bind (composed_orFail (composed_call rfl)) fun _ => ?_
  refine composed_startGeneration.bind fun _ => ?_
  refine composed_snapshot.attempt.bind fun _ => ?_
  exact composed_beginReadTransaction.bind fun _ => .ofExcept _

theorem composed_maybeSnapshot : Composed (maybeSnapshot pf) := by
  refine Op.Made.bind .get fun self => ?_
  cases self.config.snapshotInterval with
  | none => exact .pure _
  | some interval =>
    refine Op.Made.bind (composed_call rfl) fun now => Op.Made.ite ?_ (.pure _)
    exact composed_checkpoint.bind fun _ => .pure _

theorem composed_shutdown : Composed (shutdown pf) := by
  have ends : Composed (do
      endReadTransaction pf
      modify fun self => { self with shutdownComplete := true } : Method pf Unit) :=
    composed_endReadTransaction.bind fun _ => .modify _
  refine Op.Made.bind .get fun self => Op.Made.ite (.pure _) ?_
  refine composed_syncWal.attempt.bind fun result => ?_
  cases result with
  | ok => exact ends
  | error e => exact Op.Made.bind (.modify _) fun _ => ends

end Uploads

section Cleaning

theorem composed_downloadSegments (self : BackupManager pf.build) (keys : List Str) :
    Composed (downloadSegments pf self keys) := by
  induction keys with
  | nil => exact .pure _
  | cons key keys ih =>
    refine (composed_getObject _ _).bind fun _ => ?_
    exact (Op.Made.ofExcept _).bind fun _ => ih.bind fun _ => .pure _

theorem composed_uploadChunks (self : BackupManager pf.build) (allData : Bytes)
    (maxSize fuel offset newIndex : Nat) :
    Composed (uploadChunks pf self allData maxSize fuel offset newIndex) := by
  induction fuel generalizing offset newIndex with
  | zero =>
    unfold uploadChunks
    exact Op.Made.ite .halt (.pure _)
  | succ fuel ih =>
    unfold uploadChunks
    refine Op.Made.ite ?_ (.pure _)
    refine (composed_pipelineEncode _ _).bind fun encoded => ?_
    refine (composed_putObject _ _ _).bind fun _ => ?_
    refine composed_nowMs.bind fun now => ?_
    refine (Op.Made.ofOption _).bind fun next => ?_
    exact (ih _ _).bind fun _ => .pure _

theorem composed_compact (maxSegmentSize : Option Nat) (fuel : Nat) :
    Composed (compact pf maxSegmentSize fuel) := by
  refine Op.Made.bind .get fun self => Op.Made.ite (.pure _) ?_
  refine (composed_downloadSegments _ _).bind fun allData => ?_
  refine (composed_uploadChunks _ allData _ _ _ _).bind fun chunks => ?_
  refine Op.Made.bind (.modify _) fun _ => ?_
  refine composed_uploadManifest.bind fun _ => ?_
  refine Op.Made.bind (.modify _) fun _ => ?_
  exact (composed_deleteObjects _ _).bind fun _ => .pure _

theorem composed_readManifests (self : BackupManager pf.build) (keys : List Str) :
    Composed (readManifests pf self keys) := by
  induction keys with
  | nil => exact .pure _
  | cons key keys ih =>
    unfold readManifests
    refine Op.Made.ite ?_ ih
    refine (composed_getObject _ _).attempt.bind ?_
    rintro (_ | data)
    · exact ih
    · dsimp only
      split
      · exact ih.bind fun _ => .pure _
      · exact ih

theorem composed_deleteExpired (cutoffMs : Nat) (found : List (Str × GenerationManifest))
    (deleted : Nat) : Composed (deleteExpired pf cutoffMs found deleted) := by
  induction found generalizing deleted with
  | nil => exact .pure _
  | cons entry rest ih =>
    unfold deleteExpired
    refine Op.Made.bind .get fun self => Op.Made.ite (ih _) (Op.Made.ite ?_ (ih _))
    refine Op.Made.bind ?_ fun _ => (Op.Made.ofOption _).bind fun _ => ih _
    refine Op.Made.bind .get fun self => ?_
    exact (composed_listKeys _ _).bind fun keys => composed_deleteObjects _ keys

theorem composed_enforceRetention : Composed (enforceRetention pf) := by
  refine Op.Made.bind .get fun self => ?_
  cases self.config.retentionDuration with
  | none => exact .pure _
  | some duration =>
    refine composed_nowMs.bind fun now => ?_
    refine Op.Made.bind ?_ fun found => composed_deleteExpired _ found 0
    refine Op.Made.bind .get fun self => ?_
    exact (composed_listKeys _ _).bind fun keys => composed_readManifests _ keys

end Cleaning

section Restores

theorem composed_readSegments (s3 : S3Client) (keys : List Str) :
    Composed (readSegments pf s3 config keys) := by
  induction keys with
  | nil => exact .pure _
  | cons key keys ih =>
    refine (composed_getObject _ _).bind fun _ => ?_
    exact (Op.Made.ofExcept _).bind fun _ => ih.bind fun _ => .pure _

theorem composed_writeSnapshot (s3 : S3Client) (targetPath generation : Str) :
    Composed (writeSnapshot pf s3 config targetPath generation) := by
  refine (composed_getObject _ _).bind fun _ => ?_
  exact (Op.Made.ofExcept _).bind fun _ => composed_orFail (composed_call rfl)

theorem composed_segmentKeysFromManifest (s3 : S3Client) (generation : Str) :
    Composed (segmentKeysFromManifest pf s3 config generation) := by
  have listed : Composed (listedKeys s3 generation) := by
    refine (composed_listKeys _ _).attempt.bind ?_
    rintro (_ | _)
    · exact .pure _
    · exact .pure _
  refine (composed_getObject _ _).attempt.bind ?_
  rintro (_ | data)
  · exact listed
  · dsimp only
    split
    · exact .pure _
    · exact listed

theorem composed_replaySegments (s3 : S3Client) (targetPath : Str) (keys : List Str) :
    Composed (replaySegments pf s3 config targetPath keys) := by
  have replays : Composed (do
      orFail .io (call (.syncFile targetPath))
      let conn ← orFail .sqlite (call (.openConn targetPath))
      orFail .sqlite (call (.executeBatch conn .journalModeWal))
      orFail .sqlite (call (.executeBatch conn .walCheckpointTruncate))
      call (.closeConn conn) : M Unit Unit) := by
    refine Op.Made.bind (composed_orFail (composed_call rfl)) fun _ => ?_
    refine Op.Made.bind (composed_orFail (composed_call rfl)) fun conn => ?_
    refine Op.Made.bind (composed_orFail (composed_call rfl)) fun _ => ?_
    refine Op.Made.bind (composed_orFail (composed_call rfl)) fun _ => ?_
    exact composed_call rfl
  unfold replaySegments
  split
  · refine (composed_readSegments config s3 keys).bind fun _ => ?_
    refine Op.Made.bind (composed_orFail (composed_call rfl)) fun _ => ?_
    exact Op.Made.bind (composed_orFail (composed_call rfl)) fun _ => replays
  · exact replays

theorem composed_restoreLatest (s3 : S3Client) (targetPath : Str) :
    Composed (restoreLatest pf s3 config targetPath) := by
  refine (composed_getObject _ _).attempt.bind ?_
  rintro (_ | genBytes)
  · exact .throw _
  · dsimp only
    split
    · exact .throw _
    · refine (composed_writeSnapshot config s3 targetPath _).bind fun _ => ?_
      refine (composed_segmentKeysFromManifest config s3 _).bind fun keys => ?_
      exact composed_replaySegments config s3 targetPath keys

theorem composed_pitrManifests (s3 : S3Client) (keys : List Str) :
    Composed (pitrManifests pf s3 config keys) := by
  induction keys with
  | nil => exact .pure _
  | cons key keys ih =>
    unfold pitrManifests
    refine Op.Made.ite ?_ ih
    refine (composed_getObject _ _).attempt.bind ?_
    rintro (_ | data)
    · exact ih
    · dsimp only
      split
      · exact ih.bind fun _ => .pure _
      · exact ih

theorem composed_restorePitr (s3 : S3Client) (targetPath : Str) (timestampMs : Nat) :
    Composed (restorePitr pf s3 config targetPath timestampMs) := by
  refine (composed_listKeys _ _).bind fun allKeys => ?_
  refine (composed_pitrManifests config s3 allKeys).bind fun manifests => ?_
  refine Op.Made.ite (.throw _) ?_
  cases selectManifest manifests timestampMs with
  | none => exact .throw _
  | some manifest =>
    refine (composed_writeSnapshot config s3 targetPath _).bind fun _ => ?_
    exact composed_replaySegments config s3 targetPath _

/-- Both restores. -/
theorem composed_restoreInner (targetPath : Str) (targetTime : Option Nat) :
    Composed (restoreInner pf config targetPath targetTime) := by
  cases targetTime with
  | none => exact composed_restoreLatest config _ targetPath
  | some timestampMs => exact composed_restorePitr config _ targetPath timestampMs

theorem composed_firstSnapshot : Composed (firstSnapshot pf) := by
  refine composed_snapshot.attempt.bind ?_
  rintro (e | _)
  · exact composed_endReadTransaction.bind fun _ => .throw _
  · exact .pure _

theorem composed_new : Composed (new pf config) := by
  rw [new_eq]
  refine Op.Made.bind ?_ fun _ => ?_
  · refine Op.Made.ite ?_ (.pure _)
    refine Op.Made.bind (composed_call rfl) fun found => Op.Made.ite ?_ (.pure _)
    exact composed_restoreInner config config.dbPath none
  refine Op.Made.bind (composed_orFail (composed_call rfl)) fun readConn => ?_
  refine Op.Made.bind (composed_orFail (composed_call rfl)) fun _ => ?_
  refine Op.Made.bind (composed_orFail (composed_call rfl)) fun _ => ?_
  refine Op.Made.bind (composed_orFail (composed_call rfl)) fun _ => ?_
  refine Op.Made.bind (composed_call rfl) fun generation => ?_
  refine composed_nowMs.bind fun ts => ?_
  refine Op.Made.bind (composed_call rfl) fun now => ?_
  exact (Op.Made.runOn _ composed_firstSnapshot).bind fun _ => .pure _

end Restores

/-- What `new` answers, and the manager it leaves. -/
def openingAnswer (out : Except Error (BackupManager pf.build) × Unit) :
    Except Error Answer × Manager pf :=
  match out.1 with
  | .ok m => (.ok .unit, some m)
  | .error e => (.error e, none)

/-- The body of every request hands on the outcome of such an operation. -/
theorem process_composed (q : Request) (s : Manager pf) :
    (process config).body q s = .halt ∨
      ∃ (σ α : Type) (x : M σ α) (t : σ)
        (answer : Except Error α × σ → Except Error Answer × Manager pf), Composed x ∧ (process config).body q s = (x t).bind fun out => .pure (answer out) := by
  have opens : ∃ (σ α : Type) (x : M σ α) (t : σ)
      (answer : Except Error α × σ → Except Error Answer × Manager pf),
      Composed x ∧ opening config = (x t).bind fun out => .pure (answer out) := by
    refine ⟨Unit, _, new pf config, (), openingAnswer, composed_new config, ?_⟩
    refine congrArg (Prog.bind _) (funext ?_)
    rintro ⟨_ | _, _⟩ <;> rfl
  cases s with
  | none =>
    cases q with
    | new => exact .inr opens
    | _ => exact .inl rfl
  | some m =>
    refine .inr ?_
    cases q with
    | new => exact opens
    | syncWal => exact ⟨_, _, _, m, _, composed_syncWal, rfl⟩
    | snapshot => exact ⟨_, _, _, m, _, composed_snapshot, rfl⟩
    | checkpoint => exact ⟨_, _, _, m, _, composed_checkpoint, rfl⟩
    | maybeSnapshot => exact ⟨_, _, _, m, _, composed_maybeSnapshot, rfl⟩
    | compact maxSegmentSize fuel =>
      exact ⟨_, _, _, m, _, composed_compact maxSegmentSize fuel, rfl⟩
    | enforceRetention => exact ⟨_, _, _, m, _, composed_enforceRetention, rfl⟩
    | shutdown => exact ⟨_, _, _, m, _, composed_shutdown, rfl⟩

end Waloy.Spec
