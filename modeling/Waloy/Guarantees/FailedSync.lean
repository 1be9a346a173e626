import Waloy.Guarantees.Representation

/-!
# Syncs that fail

A sync that stops before its segment is acknowledged changes nothing a later sync
relies on. One that stops after it, while it uploads the manifest, leaves the segment
in the list of the manager, and the next sync lists the same bytes again.
-/
namespace Waloy.Spec
open Waloy.Effect Waloy.Source

variable {pf : Platform} (config : BackupConfig pf.build) {A : Type}

/-- A host that keeps the files of a configuration, with the answers under consideration. -/
def located (host : Host A) (allows : World A → (c : Call) → c.Reply → Prop) : Env A :=
  ⟨{ host with dbPath := config.dbPath }, allows⟩

/-- One call of `sync_wal`, from its start to its return. -/
def Syncs (env : Env A) (m : BackupManager pf.build) (w : World A) (r : Except Error Bool)
    (m' : BackupManager pf.build) (w' : World A) : Prop :=
  Steps env.serve (BackupManager.syncWal pf m, w) (.pure (r, m'), w')

/-- Calls of `sync_wal` that fail or succeed, each of which meets a condition. -/
inductive SyncRun (env : Env A) (meets : World A → Except Error Bool → World A → Prop)
    (m₀ : BackupManager pf.build) (w₀ : World A) : BackupManager pf.build → World A → Prop where
  | start : SyncRun env meets m₀ w₀ m₀ w₀
  | synced {m m' : BackupManager pf.build} {w w' : World A} {r : Except Error Bool}
      (run : SyncRun env meets m₀ w₀ m w) (call : Syncs env m w r m' w') (met : meets w r w') :
      SyncRun env meets m₀ w₀ m' w'
  | idled {m : BackupManager pf.build} {w w' : World A} (run : SyncRun env meets m₀ w₀ m w)
      (moved : idleMove env.host w w') : SyncRun env meets m₀ w₀ m w'

/-- A call leaves the position and the segments of the manager as they were. -/
def Untouched (m m' : BackupManager pf.build) : Prop :=
  m'.manifest.segments = m.manifest.segments ∧ m'.walOffset = m.walOffset ∧
    m'.walIndex = m.walIndex

/-- A failed sync that starts no recovery does no harm, neither at once nor to the syncs
after it. -/
structure FailuresHarmless (host : Host A) (env : Env A)
    (meets : World A → Except Error Bool → World A → Prop) : Prop where
  unchanged : ∀ {m w e m' w'}, Uses config m → Ordered (head m) →
    Syncs env m w (.error e) m' w' → meets w (.error e) w' → drawn w'.log = drawn w.log →
    Untouched m m'
  /-- After a later success the manifest lists the WAL file, once. A call that finds
  nothing new leaves the list that was there. -/
  resumed : ∀ {m₀ w₀ m w found m' w'}, Uses config m₀ → Anchored config host (head m₀) w₀ →
    SyncRun env meets m₀ w₀ m w → Syncs env m w (.ok found) m' w' → meets w (.ok found) w' →
    found = true ∨ manifestAt config w₀.bucket m₀.generation = some m₀.manifest →
    Listed config host m' w'

/-- No write was acknowledged before the call failed. -/
def FailsEarly (w : World A) (r : Except Error Bool) (w' : World A) : Prop :=
  ∀ e, r = .error e → w'.log = w.log

/-- The manifest upload of the first sync fails after the segment is in the list. The
second sync lists the same bytes again, and a restore would read them twice. -/
theorem not_failuresHarmless :
    ¬ FailuresHarmless plainConfig (fileHost fun _ _ => True).appending
      (located plainConfig (fileHost fun _ _ => True).appending fun _ _ _ => True)
      (fun _ _ _ => True) := by
  let host : Host Files := (fileHost fun _ _ => True).appending
  let env : Env Files := located plainConfig host fun _ _ _ => True
  let answer (deny : Call → Bool) := hostAnswer env.host id (fun files _ _ => files) deny
  let m₀ := plainManager [] 0 0
  let w₀ : World Files := ⟨∅, ⟨some dbFile, some (walHeader 7 ++ walFrame 1)⟩, 1000, []⟩
  let manifestKey := objectKey plainConfig (.manifest (uuid 0))
  let deny := isPutTo manifestKey
  have served : ∀ deny w c reply w', answer deny w c = some (reply, w') →
      env.serve w c reply w' := fun deny w c reply w' answered =>
    ⟨w.app, env.host.during_refl _, trivial, hostAnswer_acts (fun _ => trivial)
      (fun _ _ _ => trivial) (fun _ _ => trivial) answered⟩
  have played : ((BackupManager.syncWal plain m₀).interp (answer deny) w₀).any (fun first =>
      ((BackupManager.syncWal plain first.1.2).interp (answer fun _ => false) first.2).any
        fun second => second.1.1.toOption = some true ∧
          second.1.2.manifest.segments.map SegmentMeta.index = [0, 0]) = true := by decide +kernel
  obtain ⟨⟨⟨r, m⟩, w⟩, failed, rest⟩ := (Option.any_eq_true _ _).mp played
  obtain ⟨⟨⟨r', m'⟩, w'⟩, done, twice⟩ := (Option.any_eq_true _ _).mp rest
  obtain ⟨succeeded, indices⟩ := of_decide_eq_true twice
  intro claim
  have run : SyncRun env (fun _ _ _ => True) m₀ w₀ m w :=
    .synced .start (Steps.of_interp (served deny) _ _ failed) trivial
  have anchored : Anchored plainConfig host (head m₀) w₀ := .start rfl rfl rfl
  cases r' with
  | error e => cases succeeded
  | ok found =>
    obtain rfl : found = true := Option.some.inj succeeded
    have call : Syncs env m w (.ok true) m' w' := Steps.of_interp (served _) _ _ done
    have listed := claim.resumed ⟨rfl, rfl⟩ anchored run call trivial (.inl rfl)
    have increasing := listed.increasing
    rw [indices] at increasing
    exact absurd increasing (by decide)

section
variable {config} {env : Env A} {host : Host A} {m m' m₀ : BackupManager pf.build}
  {w w' w₀ : World A} {h h' : Head} {r : Except Error Bool}

theorem Syncs.exit (hdb : config.dbPath = env.host.dbPath) (hm : Uses config m)
    (call : Syncs env m w r m' w') :
    Uses config m' ∧ SyncExit config env w (head m) r (head m') w' := by
  have result := Steps.result call (wp_syncWal hm hdb sync_any)
  cases r with
  | ok found => exact result
  | error e => exact result

/-- The two ways in which the upload of a sync fails: the list of the manager has grown
if and only if the segment was acknowledged. -/
theorem UploadExit.untouched_iff {walData : Bytes} {e : Error}
    (exit : UploadExit config env w h walData (.error e) h' w') :
    (h'.manifest.segments = h.manifest.segments ∧ h'.walOffset = h.walOffset ∧
      h'.walIndex = h.walIndex) ↔ w'.log = w.log := by
  cases exit with
  | unsaved => simp
  | unlisted => simp [Head.listed]

theorem SyncExit.untouched_iff {e : Error} (exit : SyncExit config env w h (.error e) h' w')
    (calm : drawn w'.log = drawn w.log) :
    (h'.manifest.segments = h.manifest.segments ∧ h'.walOffset = h.walOffset ∧
      h'.walIndex = h.walIndex) ↔ w'.log = w.log := by
  cases exit with
  | unread => simp
  | unrecovered read long broken exit =>
    obtain ⟨moved, fresh, ticks, taken, -, moved'⟩ := exit
    have more : drawn _ = drawn w.log + 1 := taken.drawn_eq
    exact absurd (more.symm.trans calm) (Nat.succ_ne_self _)
  | unsent read long continuous frames new exit => simpa using exit.untouched_iff

/-- One call of a run: the manager stays anchored, and the list in the bucket stays its
own or becomes so. -/
theorem Anchored.synced (anchored : Anchored config host h w) (inverts : env.Inverts config)
    (counts : env.Counts config) (parses : Parses pf.libs) (hwal : ∀ a, env.host.wal a = host.wal a)
    (grows : ∀ {a a'}, env.host.during a a' → host.walBytes a <+: host.walBytes a')
    (exit : SyncExit config env w h r h' w') (early : FailsEarly w r w') :
    Anchored config host h' w' ∧
      (r = .ok true ∨ manifestAt config w.bucket h.generation = some h.manifest →
        manifestAt config w'.bucket h'.generation = some h'.manifest) := by
  have reads := fun {a : A} {walData : Bytes} (read : ReadsWal env w a walData) =>
    anchored.read hwal grows read
  cases exit with
  | absent moved => exact ⟨anchored.moved (grows moved), fun listed => by simpa using listed⟩
  | unread moved => exact ⟨anchored.moved (grows moved), fun listed => by simpa using listed⟩
  | short read => exact ⟨(reads read).1, fun listed => by simpa using listed⟩
  | recovered read long broken => exact absurd broken (by simp [(reads read).2.2])
  | unrecovered read long broken => exact absurd broken (by simp [(reads read).2.2])
  | covered read =>
    obtain ⟨here, rfl, -⟩ := reads read
    exact ⟨here.captured, fun listed => by simpa using listed⟩
  | @uploaded walData a _ _ read long continuous frames new exit =>
    obtain ⟨here, rfl, -⟩ := reads read
    cases exit with
    | done moved sent ticks listed next =>
      rw [incrementU32_of_lt _ (counts _ _ _ sent.taken)] at next
      obtain rfl := Option.some.inj next
      refine ⟨Anchored.moved (here.captured.advanced (t := w.clock) ?_ ?_) (grows moved), fun _ => ?_⟩
      · simpa using new
      · exact sent.decodes inverts (by simp)
      · exact manifestAt_store (listed.decodes parses inverts)
  | @unsent walData e a _ _ read long continuous frames new exit =>
    obtain ⟨here, rfl, -⟩ := reads read
    have same := early e rfl
    cases exit with
    | unlisted => simp at same
    | unsaved moved failed partly =>
      -- an unacknowledged segment lies under an index that no listed segment has
      have captured := here.captured
      obtain rfl | ⟨encoded, sent, rfl⟩ := partly
      · exact ⟨captured.moved (grows moved), fun listed => by simpa using listed⟩
      · have unnamed : ∀ s ∈ (h.captured (host.walBytes a)).manifest.segments,
            Object.segment h.generation h.walIndex ≠ .segment h.generation s.index := by
          intro s hs named
          injection named with _ index
          have := captured.backed.below s hs
          simp only [Head.captured_walIndex] at this
          omega
        have saved : Anchored config host (h.captured (host.walBytes a))
            { w with
              app := a
              bucket := withSegment config w.bucket (h.captured (host.walBytes a)) encoded } :=
          { backed :=
              { toOrdered := captured.backed.toOrdered
                held := (segmentsData_store (by simpa using unnamed)).trans captured.backed.held
                length := captured.backed.length }
            follows := captured.follows }
        refine ⟨saved.moved (grows moved), fun listed => ?_⟩
        have same : manifestAt config (withSegment config w.bucket (h.captured (host.walBytes a))
            encoded) h.generation = manifestAt config w.bucket h.generation :=
          manifestAt_congr config (by simp [withSegment])
        simp only [Head.captured_generation, Head.captured_manifest, same]
        simpa using listed

theorem SyncRun.anchored (hdb : config.dbPath = env.host.dbPath) (inverts : env.Inverts config)
    (counts : env.Counts config) (parses : Parses pf.libs) (hwal : ∀ a, env.host.wal a = host.wal a)
    (grows : ∀ {a a'}, env.host.during a a' → host.walBytes a <+: host.walBytes a')
    (run : SyncRun env FailsEarly m₀ w₀ m w) (hm : Uses config m₀)
    (anchored : Anchored config host (head m₀) w₀) :
    Uses config m ∧ Anchored config host (head m) w ∧
      (manifestAt config w₀.bucket m₀.generation = some m₀.manifest →
        manifestAt config w.bucket m.generation = some m.manifest) := by
  induction run with
  | start => exact ⟨hm, anchored, id⟩
  | synced run call met ih =>
    obtain ⟨uses, kept, listed⟩ := ih
    obtain ⟨uses', exit⟩ := call.exit hdb uses
    obtain ⟨kept', listed'⟩ := kept.synced inverts counts parses hwal grows exit met
    exact ⟨uses', kept', fun start => listed' (.inr (listed start))⟩
  | idled run moved ih =>
    obtain ⟨uses, kept, listed⟩ := ih
    obtain ⟨a, t, moved, -, rfl⟩ := moved
    exact ⟨uses, kept.moved (grows moved), listed⟩

end

/-- When a failed sync does harm. -/
structure FailedSyncs (host : Host A) : Prop where
  /-- Whatever fails, a call that starts no recovery leaves the manager as it was exactly
  when no write was acknowledged before the failure. -/
  untouched_iff : ∀ {allows m w e m' w'}, Uses config m →
    Syncs (located config host allows) m w (.error e) m' w' → drawn w'.log = drawn w.log →
    (Untouched m m' ↔ FailsEarly w (.error e : Except Error Bool) w')
  /-- As long as all failures are of that kind, they are harmless. -/
  harmless : FailuresHarmless config host.appending
    (located config host.appending fun _ c _ => uploadsWell config c) FailsEarly

variable {config} in
/-- A failed sync does no harm exactly when no write was acknowledged before it failed. -/
theorem failed_syncs_harmless (parses : Parses pf.libs) (host : Host A) :
    FailedSyncs config host := by
  have single : ∀ {host : Host A} {allows m w e m' w'}, Uses config m →
      Syncs (located config host allows) m w (.error e) m' w' → drawn w'.log = drawn w.log →
      (Untouched m m' ↔ FailsEarly w (.error e : Except Error Bool) w') := by
    intro host allows m w e m' w' hm call calm
    obtain ⟨-, exit⟩ := call.exit rfl hm
    have iff := exit.untouched_iff calm
    constructor
    · exact fun untouched _ _ => iff.mp untouched
    · exact fun early => iff.mpr (early e rfl)
  refine ⟨single, ?_, ?_⟩
  · intro m w e m' w' hm ordered call early calm
    exact (single hm call calm).mpr early
  · intro m₀ w₀ m w found m' w' hm anchored run call early listed
    let env := located config host.appending fun (_ : World A) c _ => uploadsWell config c
    have inverts : env.Inverts config := Env.inverts_of_allows fun _ _ _ allowed => allowed
    have counts : env.Counts config := Env.counts_of_allows fun _ _ _ allowed => allowed
    have grows : ∀ {a a'}, env.host.during a a' → host.walBytes a <+: host.walBytes a' :=
      fun moved => moved.2
    have hwal : ∀ a, env.host.wal a = host.appending.wal a := fun _ => rfl
    obtain ⟨uses, kept, still⟩ := run.anchored rfl inverts counts parses hwal grows hm anchored
    obtain ⟨-, exit⟩ := call.exit rfl uses
    obtain ⟨kept', listed'⟩ := kept.synced inverts counts parses hwal grows exit early
    refine kept'.listed (listed' ?_)
    obtain rfl | start := listed
    · exact .inl rfl
    · exact .inr (still start)

theorem failed_syncs_harmless_plain : FailedSyncs plainConfig (fileHost fun _ _ => True) :=
  failed_syncs_harmless plain_codec.parses _

end Waloy.Spec
