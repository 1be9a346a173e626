import Waloy.Spec.Checkpoint

/-!
# What opening a backup may do

The exits of `new`. With `auto_restore` and no database file it restores first,
which reads the bucket and writes local files only.
-/
namespace Waloy.Spec
open Waloy.Effect Waloy.Source Waloy.Source.BackupManager

variable {pf : Platform} (config : BackupConfig pf.build) {A : Type} (env : Env A)

/-- What a restore may do to the local files, with the application beside it. -/
def Restoring : A → A → Prop :=
  Relation.ReflTransGen fun a a' => env.host.during a a' ∨ env.host.truncated a a' ∨
    ∃ path data, env.host.installed a path data a'

/-- The application and the local files when the manager opens its connection. -/
inductive Opened (w : World A) (a : A) : Prop where
  | direct (moved : env.host.during w.app a)
  | restored {reply : Except String Bool} {a₁ : A} (moved : env.host.during w.app a₁)
      (auto : config.autoRestore = true) (missing : reply ≠ .ok true)
      (allowed : env.allows { w with app := a₁ } (.tryExists env.host.dbPath) reply)
      (found : ∀ found, reply = .ok found → found = (env.host.db a₁).isSome)
      (restoring : Restoring env a₁ a)

/-- The first step of `new`. -/
def restoreFirst : M Unit Unit := do
  if config.autoRestore then do
    let found ← call (.tryExists config.dbPath)
    if (found : Except String Bool) ≠ .ok true then
      restoreWithConfig pf config config.dbPath

/-- The rest of `new`, from the opening of its connection on. -/
def connect : M Unit (BackupManager pf.build) := do
  let readConn ← orFail .sqlite (call (.openConn config.dbPath))
  orFail .sqlite (call (.executeBatch readConn .configure))
  orFail .sqlite (call (.executeBatch readConn .begin))
  orFail .sqlite (call (.queryMaster readConn))
  let generation ← call .newUuid
  let ts ← nowMs
  let now ← call .instantNow
  let mgr : BackupManager pf.build :=
    { config := config
      s3 := S3Client.new config.s3
      generation := generation
      readConn := readConn
      walOffset := 0
      walIndex := 0
      walHeaderSalt := none
      manifest := GenerationManifest.new generation ts
      stats := StatsTracker.new
      lastSnapshotTime := now
      shutdownComplete := false
      hasReadTransaction := true }
  let (_, mgr) ← Op.runOn mgr (firstSnapshot pf)
  pure mgr

variable {config} in
theorem new_eq : new pf config = restoreFirst config >>= fun _ => connect config := by
  unfold new restoreFirst
  by_cases auto : config.autoRestore = true
  · rw [if_pos auto, if_pos auto, Op.bind_assoc]
    congr 1
    funext found
    by_cases missing : (found : Except String Bool) ≠ .ok true
    · rw [if_pos missing, if_pos missing]
      rfl
    · rw [if_neg missing, if_neg missing]
      rfl
  · rw [if_neg auto, if_neg auto]
    rfl

/-- A new manager before its first snapshot. -/
def Head.initial (generation : Str) (now : Nat) : Head :=
  ⟨generation, 0, 0, none, GenerationManifest.new generation now⟩

/-- The ways out of `new`. -/
inductive OpeningExit (w : World A) : Except Error Head → World A → Prop where
  | unopened {e : Error} {a : A} (opened : Opened config env w a) :
      OpeningExit w (.error e) { w with app := a }
  | made {generation : Str} {now : Nat} {a a' : A} {r : Except Error Unit} {h' : Head}
      {w' : World A} (opened : Opened config env w a) (fresh : Fresh w.bucket generation)
      (ticks : env.host.tick w.clock now)
      (exit : SnapshotExit config env
        { w with app := a, clock := now, log := .drew generation :: w.log }
        (Head.initial generation now) r h' w')
      (moved : env.host.during w'.app a') :
      OpeningExit w (r.map fun _ => h') { w' with app := a' }

/-- A manager that is opened has taken the first snapshot of its generation. -/
theorem OpeningExit.of_ok {config : BackupConfig pf.build} {env : Env A} {w w' : World A} {h' : Head}
    (exit : OpeningExit config env w (.ok h') w') :
    ∃ generation now a a' w₁, Opened config env w a ∧ Fresh w.bucket generation ∧
      env.host.tick w.clock now ∧
      SnapshotExit config env
        { w with app := a, clock := now, log := .drew generation :: w.log }
        (Head.initial generation now) (.ok ()) h' w₁ ∧
      env.host.during w₁.app a' ∧ w' = { w₁ with app := a' } := by
  generalize hr : (Except.ok h' : Except Error Head) = r at exit
  cases exit with
  | unopened => cases hr
  | @made generation now a a' r _ w₁ opened fresh ticks exit moved =>
    cases r with
    | error e => cases hr
    | ok =>
      injection hr with same
      subst same
      exact ⟨generation, now, a, a', w₁, opened, fresh, ticks, exit, moved, rfl⟩

def OpeningWatched (change : Bucket → Bucket → Prop) (w : World A) : Prop :=
  change w.bucket w.bucket ∧ ∀ generation now a, Opened config env w a →
    Fresh w.bucket generation → env.host.tick w.clock now →
    SnapshotWatched config env change
      { w with app := a, clock := now, log := .drew generation :: w.log }
      (Head.initial generation now)

/-- The calls of a restore. -/
def isRestoreCall (c : Call) : Prop :=
  isQuiet c = true ∨ (∃ path data, c = .writeFile path data) ∨
    ∃ conn, c = .executeBatch conn .walCheckpointTruncate

/-- The calls that fetch a backup into the local files. -/
def isFetchCall : Call → Bool
  | .getObject _ | .list _ | .sleep _ | .writeFile _ _ | .syncFile _ => true
  | _ => false

/-- The calls that let SQLite replay a restored WAL file. -/
def isReplayCall : Call → Bool
  | .syncFile _ | .openConn _ | .executeBatch _ _ | .closeConn _ => true
  | _ => false

/-- The segment keys of a restore without a manifest. -/
def listedKeys (s3 : S3Client) (generation : Str) : M Unit (List Str) := do
  match ← Op.attempt (s3.listKeys (generation ++ ['/', 'w', 'a', 'l', '/'])) with
  | .ok keys => pure keys
  | .error _ => pure []

section
variable {σ α : Type} {allowed : Call → Prop}

theorem uses_orFail (wrap : String → Error) {x : M σ (Except String α)}
    (hx : Op.Uses allowed x) : Op.Uses allowed (orFail wrap x) := by
  refine Op.uses_bind hx ?_
  rintro (_ | _)
  · exact Op.uses_throw _
  · exact Op.uses_pure _

theorem uses_replay (replays : ∀ c, isReplayCall c = true → allowed c) (targetPath : Str) :
    Op.Uses allowed (do
      orFail .io (call (.syncFile targetPath))
      let conn ← orFail .sqlite (call (.openConn targetPath))
      orFail .sqlite (call (.executeBatch conn .journalModeWal))
      orFail .sqlite (call (.executeBatch conn .walCheckpointTruncate))
      call (.closeConn conn) : M σ Unit) := by
  refine Op.uses_bind (uses_orFail _ (Op.uses_call (replays _ rfl))) fun _ => ?_
  refine Op.uses_bind (uses_orFail _ (Op.uses_call (replays _ rfl))) fun conn => ?_
  refine Op.uses_bind (uses_orFail _ (Op.uses_call (replays _ rfl))) fun _ => ?_
  refine Op.uses_bind (uses_orFail _ (Op.uses_call (replays _ rfl))) fun _ => ?_
  exact Op.uses_call (replays _ rfl)

variable (fetches : ∀ c, isFetchCall c = true → allowed c)
include fetches

theorem uses_retry {f : M σ α} (hf : Op.Uses allowed f) : Op.Uses allowed (S3Client.retry f) := by
  suffices ∀ left attempt, Op.Uses allowed (S3Client.retryFrom f left attempt) from this _ _
  intro left
  induction left with
  | zero => exact fun _ => hf
  | succ left ih =>
    intro attempt
    refine Op.uses_bind (Op.uses_attempt hf) ?_
    rintro (_ | _)
    · exact Op.uses_bind (Op.uses_call (fetches _ rfl)) fun _ => ih _
    · exact Op.uses_pure _

theorem uses_getObject (s3 : S3Client) (key : Str) :
    Op.Uses allowed (s3.getObject key : M σ Bytes) :=
  uses_retry fetches (uses_orFail _ (Op.uses_call (fetches _ rfl)))

theorem uses_listKeys (s3 : S3Client) (keyPrefix : Str) :
    Op.Uses allowed (s3.listKeys keyPrefix : M σ (List Str)) := by
  refine uses_retry fetches (Op.uses_bind ?_ fun _ => Op.uses_pure _)
  exact uses_orFail _ (Op.uses_call (fetches _ rfl))

theorem uses_listedKeys (s3 : S3Client) (generation : Str) :
    Op.Uses allowed (listedKeys s3 generation) := by
  refine Op.uses_bind (Op.uses_attempt (uses_listKeys fetches s3 _)) ?_
  rintro (_ | _)
  · exact Op.uses_pure _
  · exact Op.uses_pure _

theorem uses_writeSnapshot (s3 : S3Client) (targetPath generation : Str) :
    Op.Uses allowed (writeSnapshot pf s3 config targetPath generation) := by
  refine Op.uses_bind (uses_getObject fetches s3 _) fun _ => ?_
  refine Op.uses_bind (Op.uses_ofExcept _) fun _ => ?_
  exact uses_orFail _ (Op.uses_call (fetches _ rfl))

theorem uses_segmentKeysFromManifest (s3 : S3Client) (generation : Str) :
    Op.Uses allowed (segmentKeysFromManifest pf s3 config generation) := by
  have listed := uses_listedKeys fetches s3 generation
  refine Op.uses_bind (Op.uses_attempt (uses_getObject fetches s3 _)) ?_
  rintro (_ | data)
  · exact listed
  · dsimp only
    split
    · exact Op.uses_pure _
    · exact listed

theorem uses_readSegments (s3 : S3Client) (keys : List Str) :
    Op.Uses allowed (readSegments pf s3 config keys) := by
  induction keys with
  | nil => exact Op.uses_pure _
  | cons key keys ih =>
    refine Op.uses_bind (uses_getObject fetches s3 _) fun _ => ?_
    refine Op.uses_bind (Op.uses_ofExcept _) fun _ => ?_
    exact Op.uses_bind ih fun _ => Op.uses_pure _

variable (replays : ∀ c, isReplayCall c = true → allowed c)
include replays

theorem uses_replaySegments (s3 : S3Client) (targetPath : Str) (keys : List Str) :
    Op.Uses allowed (replaySegments pf s3 config targetPath keys) := by
  unfold replaySegments
  split
  · refine Op.uses_bind (uses_readSegments config fetches s3 keys) fun _ => ?_
    refine Op.uses_bind (uses_orFail _ (Op.uses_call (fetches _ rfl))) fun _ => ?_
    refine Op.uses_bind (uses_orFail _ (Op.uses_call (fetches _ rfl))) fun _ => ?_
    exact uses_replay replays targetPath
  · exact uses_replay replays targetPath

theorem uses_restoreLatest (s3 : S3Client) (targetPath : Str) :
    Op.Uses allowed (restoreLatest pf s3 config targetPath) := by
  refine Op.uses_bind (Op.uses_attempt (uses_getObject fetches s3 _)) ?_
  rintro (_ | genBytes)
  · exact Op.uses_throw _
  · dsimp only
    split
    · exact Op.uses_throw _
    · refine Op.uses_bind (uses_writeSnapshot config fetches s3 targetPath _) fun _ => ?_
      refine Op.uses_bind (uses_segmentKeysFromManifest config fetches s3 _) fun keys => ?_
      exact uses_replaySegments config fetches replays s3 targetPath keys

end

theorem isRestoreCall_of_fetch {c : Call} (h : isFetchCall c = true) : isRestoreCall c := by
  cases c with
  | writeFile path data => exact .inr (.inl ⟨path, data, rfl⟩)
  | getObject | list | sleep | syncFile => exact .inl rfl
  | _ => cases h

theorem isRestoreCall_of_replay {c : Call} (h : isReplayCall c = true) : isRestoreCall c := by
  cases c with
  | executeBatch conn batch => cases batch with
    | walCheckpointTruncate => exact .inr (.inr ⟨conn, rfl⟩)
    | _ => exact .inl rfl
  | syncFile | openConn | closeConn => exact .inl rfl
  | _ => cases h

/-- A restore leaves the bucket, the clock and the log alone. -/
theorem wp_restoreWithConfig {config : BackupConfig pf.build} {env : Env A}
    {change : Bucket → Bucket → Prop} {targetPath : Str} {w : World A}
    (hstay : change w.bucket w.bucket) :
    Op.wp env.serve (watch change) (restoreWithConfig pf config targetPath)
      (fun _ _ w' => ∃ a, Restoring env w.app a ∧ w' = { w with app := a })
      (fun _ _ w' => ∃ a, Restoring env w.app a ∧ w' = { w with app := a }) () w := by
  refine Op.Uses.wp ?_ (uses_restoreLatest config (fun _ => isRestoreCall_of_fetch)
    (fun _ => isRestoreCall_of_replay) _ targetPath) () w ⟨w.app, .refl, rfl⟩
  rintro _ c reply w' ⟨a₁, restoring, rfl⟩ allowed ⟨a₂, moved, -, acts⟩
  have drift : Restoring env w.app a₂ := restoring.tail (.inl moved)
  rcases allowed with quiet | ⟨path, data, rfl⟩ | ⟨conn, rfl⟩
  · obtain rfl := acts.quiet quiet
    exact ⟨hstay, a₂, drift, rfl⟩
  · obtain ⟨a₃, installed, rfl⟩ := acts
    exact ⟨hstay, a₃, drift.tail (.inr (.inr ⟨path, data, installed⟩)), rfl⟩
  · obtain ⟨a₃, cut, rfl⟩ := acts
    exact ⟨hstay, a₃, drift.tail (.inr (.inl cut)), rfl⟩

theorem Restoring.during {env : Env A} {a b c : A} (h : Restoring env a b)
    (moved : env.host.during b c) : Restoring env a c :=
  h.tail (.inl moved)

theorem Opened.during {config : BackupConfig pf.build} {env : Env A} {w : World A} {a b : A}
    (h : Opened config env w a) (moved : env.host.during a b) : Opened config env w b := by
  cases h with
  | direct first => exact .direct (env.host.during_trans first moved)
  | restored first auto missing allowed found restoring =>
    exact .restored first auto missing allowed found (restoring.during moved)

theorem wp_new {config : BackupConfig pf.build} {env : Env A}
    {change : Bucket → Bucket → Prop} {w : World A} (hdb : config.dbPath = env.host.dbPath)
    (watched : OpeningWatched config env change w) :
    Op.wp env.serve (watch change) (new pf config)
      (fun m _ w' => Uses config m ∧ OpeningExit config env w (.ok (head m)) w')
      (fun e _ w' => OpeningExit config env w (.error e) w') () w := by
  have connects : ∀ a, Opened config env w a →
      Op.wp env.serve (watch change) (connect config)
        (fun m _ w' => Uses config m ∧ OpeningExit config env w (.ok (head m)) w')
        (fun e _ w' => OpeningExit config env w (.error e) w') () { w with app := a } := by
    intro a opened
    unfold connect
    simp only [Op.wp_bind, wp_orFail, Op.wp_runOn, Op.wp_pure]
    refine wp_quiet rfl watched.1 fun a₁ reply moved₁ _ _ => ?_
    replace opened := opened.during moved₁
    cases reply with
    | error e => exact .unopened opened
    | ok readConn =>
    refine wp_quiet rfl watched.1 fun a₂ reply moved₂ _ _ => ?_
    replace opened := opened.during moved₂
    cases reply with
    | error e => exact .unopened opened
    | ok =>
    refine wp_quiet rfl watched.1 fun a₃ reply moved₃ _ _ => ?_
    replace opened := opened.during moved₃
    cases reply with
    | error e => exact .unopened opened
    | ok =>
    refine wp_quiet rfl watched.1 fun a₄ reply moved₄ _ _ => ?_
    replace opened := opened.during moved₄
    cases reply with
    | error e => exact .unopened opened
    | ok =>
    refine wp_newUuid watched.1 fun a₅ generation moved₅ fresh => ?_
    refine wp_nowMs watched.1 fun a₆ ts moved₆ ticks => ?_
    refine wp_quiet rfl watched.1 fun a₇ now moved₇ _ _ => ?_
    replace opened := ((opened.during moved₅).during moved₆).during moved₇
    have snapshots := watched.2 generation ts a₇ opened fresh ticks
    simp only [firstSnapshot, Op.wp_bind, Op.wp_attempt]
    refine Op.wp_mono (wp_snapshot ⟨rfl, rfl⟩ hdb snapshots) ?_ ?_
    · rintro ⟨⟩ m' w' ⟨hm', exit⟩
      exact ⟨hm', .made opened fresh ticks exit (env.host.during_refl _)⟩
    · rintro e m' w' ⟨hm', exit⟩
      simp only [drop, Op.wp_throw]
      refine wp_endReadTransaction (exit.stays snapshots) fun a' moved' => ?_
      exact .made opened fresh ticks exit moved'
  rw [new_eq, Op.wp_bind]
  refine Op.wp_ite (fun auto => ?_) fun _ => connects w.app (.direct (env.host.during_refl w.app))
  simp only [Op.wp_bind]
  refine wp_quiet rfl watched.1 fun a₁ reply moved allowed acts => ?_
  refine Op.wp_ite (fun missing => ?_) fun _ => connects a₁ (.direct moved)
  have restored : ∀ a, Restoring env a₁ a → Opened config env w a := by
    refine fun a restoring => .restored moved auto missing (hdb ▸ allowed) ?_ restoring
    rintro found rfl
    exact acts.1 hdb
  refine Op.wp_mono (wp_restoreWithConfig watched.1) ?_ ?_
  · rintro ⟨⟩ ⟨⟩ _ ⟨a, restoring, rfl⟩
    exact connects a (restored a restoring)
  · rintro e ⟨⟩ _ ⟨a, restoring, rfl⟩
    exact .unopened (restored a restoring)

end Waloy.Spec
