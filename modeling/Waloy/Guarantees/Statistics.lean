import Waloy.Effect.Automaton
import Waloy.Spec.Confined

/-!
# The statistics of a manager

The counters that `stats` reports, against the answers of the bucket. A snapshot counts once the
marker names it and a segment once the manifest lists it, each with the bytes that were sent; a
write that is denied, a compaction and a cleaning count for nothing. So it is whatever the answers
are, and wherever the process stops. The counters are `u64`: they show the counts below `2 ^ 64`,
and beyond it what is left of them in a build without overflow checks.
-/
namespace Waloy.Spec
open Waloy.Effect Waloy.Source Waloy.Source.BackupManager

variable {pf : Platform} (config : BackupConfig pf.build)

/-- What is uploaded of the database. -/
inductive Upload where
  | snapshot
  | segment
  deriving DecidableEq

/-- The counters of a manager. -/
@[ext] structure Counters where
  generation : Str
  generationCount : Nat
  lastSyncTime : Option Nat
  lastSnapshotTime : Option Nat
  totalBytesUploaded : Nat
  syncCount : Nat

namespace Counters

/-- Before the first generation. -/
def zero : Counters := ⟨[], 0, none, none, 0, 0⟩

def draw (n : Counters) (generation : Str) : Counters :=
  { n with generation := generation, generationCount := n.generationCount + 1 }

def add (n : Counters) (size : Nat) : Upload → Counters
  | .snapshot => { n with totalBytesUploaded := n.totalBytesUploaded + size }
  | .segment =>
    { n with totalBytesUploaded := n.totalBytesUploaded + size, syncCount := n.syncCount + 1 }

def stamp (n : Counters) (now : Nat) : Upload → Counters
  | .snapshot => { n with lastSnapshotTime := some now }
  | .segment => { n with lastSyncTime := some now }

/-- What is left of the counts in `u64` counters. -/
def wrapped (n : Counters) : Counters :=
  { n with
    generationCount := n.generationCount % 2 ^ 64
    totalBytesUploaded := n.totalBytesUploaded % 2 ^ 64
    syncCount := n.syncCount % 2 ^ 64 }

/-- The counts that a `u64` can hold. -/
structure Representable (n : Counters) : Prop where
  generationCount : n.generationCount < 2 ^ 64
  totalBytesUploaded : n.totalBytesUploaded < 2 ^ 64
  syncCount : n.syncCount < 2 ^ 64

end Counters

/-- The counters among the statistics. -/
def counters (stats : BackupStats) : Counters :=
  ⟨stats.generation, stats.generationCount, stats.lastSyncTime, stats.lastSnapshotTime,
    stats.totalBytesUploaded, stats.syncCount⟩

/-- How far an upload is: a local file has been read, its bytes are in the bucket, they are
published there. -/
inductive UploadStage where
  | idle
  | opened
  | saved (upload : Upload) (size : Nat)
  | published (upload : Upload)

/-- The counters that the answers tell, and the upload that is under way. -/
structure Tally where
  counted : Counters
  stage : UploadStage

open Classical in
/-- The object that a key is the key of. -/
noncomputable def objectOf (key : Str) : Option Object :=
  if named : ∃ o, key = objectKey config o then some named.choose else none

namespace Tally

def save (t : Tally) (upload : Upload) (size : Nat) : Tally :=
  match t.stage with
  | .opened => { t with stage := .saved upload size }
  | _ => t

def publish (t : Tally) (upload : Upload) : Tally :=
  match t.stage with
  | .saved saved size =>
    if saved = upload then ⟨t.counted.add size upload, .published upload⟩ else t
  | _ => t

def stamp (t : Tally) (now : Nat) : Tally :=
  match t.stage with
  | .published upload => ⟨t.counted.stamp now upload, .idle⟩
  | _ => t

/-- A write that has succeeded. The marker publishes a snapshot and the manifest a segment. -/
def put (t : Tally) (size : Nat) : Object → Tally
  | .snapshot _ => t.save .snapshot size
  | .segment _ _ => t.save .segment size
  | .latest => t.publish .snapshot
  | .manifest _ => t.publish .segment

/-- The connection of a manager is configured when it is opened. -/
noncomputable def note (t : Tally) : (c : Call) → c.Reply → Tally
  | .executeBatch _ .configure, _ => ⟨.zero, .idle⟩
  | .newUuid, generation => { t with counted := t.counted.draw generation }
  | .readFile _, _ => { t with stage := .opened }
  | .getObject _, _ => { t with stage := .idle }
  | .putObject key data, .ok _ =>
    match objectOf config key with
    | some o => t.put data.length o
    | none => t
  | .instantNow, now => t.stamp now
  | _, _ => t

/-- Nothing is published that has no time yet. -/
def Settled (t : Tally) : Prop := ∀ upload, t.stage ≠ .published upload

end Tally

/-- All calls are permitted, their answers are counted. -/
noncomputable def tallying : Automaton Calls Tally where
  note := Tally.note config
  Permits _ _ := True

/-- Between two operations of every life, the statistics of the open manager are what the answers
tell, as far as a `u64` can tell it. Only a shutdown whose last sync fails is an error. -/
structure ReportsTruly : Prop where
  counted : ∀ {t m t'},
    ((tallying config).runs (process config)).Lives none (.idle none t) (.idle (some m) t') →
      t'.counted.Representable → counters (m.currentStats pf) = t'.counted
  wraps : pf.build.overflowChecks = false → ∀ {t m t'},
    ((tallying config).runs (process config)).Lives none (.idle none t) (.idle (some m) t') →
      counters (m.currentStats pf) = t'.counted.wrapped
  errors : ∀ {t m t'},
    ((tallying config).runs (process config)).Lives none (.idle none t) (.idle (some m) t') →
      (m.currentStats pf).errorCount ≤ if m.shutdownComplete then 1 else 0

/-- What the manager and the tally agree on, between the steps of an operation. -/
structure Reports (shut : Bool) (limit : Nat) (m : BackupManager pf.build) (t : Tally) : Prop where
  uses : Uses config m
  counted : counters (m.currentStats pf) = t.counted.wrapped
  settled : t.Settled
  closed : m.shutdownComplete = shut
  errors : m.stats.errorCount ≤ limit

section
variable {config}

theorem objectOf_key (o : Object) : objectOf config (objectKey config o) = some o := by
  have named : ∃ o', objectKey config o = objectKey config o' := ⟨o, rfl⟩
  have same : o = named.choose := (objectKey_inj config).mp named.choose_spec
  exact (dif_pos named).trans (congrArg some same.symm)

namespace Counters

theorem wrapped_of_representable {n : Counters} (held : n.Representable) : n.wrapped = n :=
  Counters.ext rfl (Nat.mod_eq_of_lt held.generationCount) rfl rfl
    (Nat.mod_eq_of_lt held.totalBytesUploaded) (Nat.mod_eq_of_lt held.syncCount)

end Counters

theorem Tally.Settled.stamp {t : Tally} (settled : t.Settled) (now : Nat) : t.stamp now = t := by
  obtain ⟨n, stage⟩ := t
  cases stage with
  | published upload => exact absurd rfl (settled upload)
  | _ => rfl

/-! What the calls are to the tally. -/

/-- The calls that are nothing to the tally. -/
def isSilent : Call → Bool
  | .sleep _ | .systemTime | .fillBytes _ | .tryExists _ | .deleteObject _ | .list _
  | .writeFile _ _ | .syncFile _ | .openConn _ | .queryMaster _ | .closeConn _ => true
  | .executeBatch _ batch => batch ≠ .configure
  | _ => false

theorem note_silent {c : Call} (silent : isSilent c = true) (t : Tally) (reply : c.Reply) :
    t.note config c reply = t := by
  cases c with
  | executeBatch conn batch => cases batch with
    | configure => cases silent
    | _ => rfl
  | putObject | getObject | instantNow | newUuid | readFile => cases silent
  | _ => rfl

theorem note_stored (t : Tally) (o : Object) (data : Bytes) :
    t.note config (.putObject (objectKey config o) data) (.ok ()) = t.put data.length o := by
  change (match objectOf config (objectKey config o) with
    | some o => t.put data.length o
    | none => t) = _
  rw [objectOf_key]

variable {σ α : Type} {s : σ} {t : Tally}

theorem tallied_call {c : Call} {ok : c.Reply → σ → Tally → Prop} {err : Error → σ → Tally → Prop}
    (hok : ∀ reply, ok reply s (t.note config c reply)) :
    Op.wp (tallying config).serve (tallying config).guard (call c) ok err s t := by
  rintro reply _ rfl
  exact ⟨trivial, hok reply⟩

theorem tallied_silent {c : Call} (silent : isSilent c = true) {ok : c.Reply → σ → Tally → Prop}
    {err : Error → σ → Tally → Prop} (hok : ∀ reply, ok reply s t) :
    Op.wp (tallying config).serve (tallying config).guard (call c) ok err s t := by
  refine tallied_call fun reply => ?_
  rw [note_silent silent]
  exact hok reply

theorem tallied_nowMs {ok : Nat → σ → Tally → Prop} {err : Error → σ → Tally → Prop}
    (hok : ∀ now, ok now s t) :
    Op.wp (tallying config).serve (tallying config).guard nowMs ok err s t := by
  refine (Op.wp_bind _ _).mpr (tallied_silent rfl fun reply => ?_)
  cases reply with
  | ok ms => exact hok _
  | error e => exact hok _

theorem tallied_pipelineEncode {raw : Bytes} {ok : Bytes → σ → Tally → Prop}
    {err : Error → σ → Tally → Prop} (hok : ∀ data, ok data s t) (herr : ∀ e, err e s t) :
    Op.wp (tallying config).serve (tallying config).guard (pipelineEncode pf config raw) ok err s
      t := by
  have tried : ∀ r : Except Error Bytes, Op.wp (tallying config).serve (tallying config).guard
      (Op.ofExcept r) ok err s t := by
    intro r
    cases r with
    | ok data => exact hok data
    | error e => exact herr e
  simp only [pipelineEncode, Op.wp_bind, Op.wp_ofExcept]
  cases compress pf raw config.compression with
  | error e => exact herr e
  | ok data =>
    refine Op.wp_ite (fun _ => ?_) fun _ => hok data
    cases config.encryptionKey with
    | none => exact hok data
    | some passphrase =>
      refine (Op.wp_bind _ _).mpr (tallied_silent rfl fun salt => ?_)
      exact (Op.wp_bind _ _).mpr (tallied_silent rfl fun nonce => tried _)

/-- The first write that succeeds is counted, the others are not there. -/
theorem tallied_putObject {o : Object} {data : Bytes} {ok : Unit → σ → Tally → Prop}
    {err : Error → σ → Tally → Prop} (hok : ok () s (t.put data.length o)) (herr : ∀ e, err e s t) :
    Op.wp (tallying config).serve (tallying config).guard
      ((S3Client.new config.s3).putObject o.key data) ok err s t := by
  refine wp_attempts (I := fun _ t' => t' = t) (J := fun _ t' => t' = t) ?_ ?_ ?_ rfl
  · rintro _ t rfl
    rw [wp_orFail]
    refine tallied_call fun reply => ?_
    cases reply with
    | ok => exact (note_stored t o data).symm ▸ hok
    | error e => exact ⟨rfl, rfl⟩
  · rintro _ _ ms _ _ rfl rfl
    exact ⟨trivial, rfl⟩
  · rintro e _ rfl
    exact herr e

/-- Whether it succeeds or not, a download ends what was under way. -/
theorem tallied_getObject {s3 : S3Client} {key : Str} {ok : Bytes → σ → Tally → Prop}
    {err : Error → σ → Tally → Prop} (hok : ∀ data, ok data s { t with stage := .idle })
    (herr : ∀ e, err e s { t with stage := .idle }) :
    Op.wp (tallying config).serve (tallying config).guard (s3.getObject key) ok err s t := by
  refine wp_attempts (I := fun _ t' => t'.counted = t.counted)
    (J := fun _ t' => t' = { t with stage := .idle }) ?_ ?_ ?_ rfl
  · rintro _ t' same
    rw [wp_orFail]
    refine tallied_call fun reply => ?_
    have ended : t'.note config (.getObject (s3.fullKey key)) reply = { t with stage := .idle } :=
      congrArg (Tally.mk · .idle) same
    cases reply with
    | ok data => exact ended.symm ▸ hok data
    | error e => exact ⟨rfl, ended⟩
  · rintro _ _ ms _ _ rfl rfl
    exact ⟨trivial, rfl⟩
  · rintro e _ rfl
    exact herr e

end

/-! The methods of a manager keep the statistics true. -/

section
variable {config} {shut : Bool} {limit : Nat} {m m' : BackupManager pf.build} {t t' : Tally}

/-- The methods that keep the statistics true. -/
abbrev Tells (config : BackupConfig pf.build) (shut : Bool) (limit : Nat) {α : Type}
    (x : Method pf α) : Prop :=
  Op.Secures (tallying config).serve (tallying config).guard (Reports config shut limit) x

/-- An assignment to what is no statistic. -/
theorem Reports.assigned (told : Reports config shut limit m t) (configured : m'.config = m.config)
    (connected : m'.s3 = m.s3) (named : m'.generation = m.generation)
    (closed : m'.shutdownComplete = m.shutdownComplete) (unchanged : m'.stats = m.stats) :
    Reports config shut limit m' t where
  uses := ⟨configured.trans told.uses.1, connected.trans told.uses.2⟩
  counted := by
    rw [← told.counted]
    simp only [counters, currentStats, named, unchanged]
  settled := told.settled
  closed := closed.trans told.closed
  errors := unchanged.symm ▸ told.errors

/-- A step of an upload that is not published yet. -/
theorem Reports.staged (told : Reports config shut limit m t) (same : t'.counted = t.counted)
    (settled : t'.Settled) : Reports config shut limit m t' :=
  ⟨told.uses, same.symm ▸ told.counted, settled, told.closed, told.errors⟩

/-- What `stats.rs` records of an upload. -/
def recordUpload : Upload → StatsTracker → Nat → Nat → StatsTracker
  | .snapshot => StatsTracker.recordSnapshot
  | .segment => StatsTracker.recordSync

/-- An upload that is published and recorded. -/
theorem Reports.published (told : Reports config shut limit m t) (upload : Upload) (size now : Nat)
    (configured : m'.config = m.config) (connected : m'.s3 = m.s3)
    (named : m'.generation = m.generation) (closed : m'.shutdownComplete = m.shutdownComplete)
    (recorded : m'.stats = recordUpload upload m.stats now size) :
    Reports config shut limit m' ⟨(t.counted.add size upload).stamp now upload, .idle⟩ where
  uses := ⟨configured.trans told.uses.1, connected.trans told.uses.2⟩
  counted := by
    obtain ⟨generation, drawn, synced, taken, bytes, syncs⟩ := Counters.ext_iff.mp told.counted
    have more := wrappingAddU64_eq bytes size
    have one := wrappingAddU64_eq syncs 1
    simp only [counters, currentStats, named, recorded]
    cases upload with
    | snapshot => exact Counters.ext generation drawn synced rfl more syncs
    | segment => exact Counters.ext generation drawn rfl taken more one
  settled _ := UploadStage.noConfusion
  closed := closed.trans told.closed
  errors := by
    rw [recorded]
    cases upload with
    | snapshot => exact told.errors
    | segment => exact told.errors

theorem tells_silent {c : Call} (silent : isSilent c = true) : Tells config shut limit (call c) :=
  fun _ _ told => tallied_silent silent fun _ => told

theorem tallied_uploadManifest {ok : Unit → BackupManager pf.build → Tally → Prop}
    {err : Error → BackupManager pf.build → Tally → Prop} (uses : Uses config m)
    (hok : ok () m (t.publish .segment)) (herr : ∀ e, err e m t) :
    Op.wp (tallying config).serve (tallying config).guard (uploadManifest pf) ok err m t := by
  simp only [uploadManifest, Op.wp_bind, Op.wp_get, Op.wp_ofExcept]
  generalize (pf.libs.jsonToVec m.manifest).mapError _ = serialized
  cases serialized with
  | error e => exact herr e
  | ok json =>
    dsimp only
    rw [uses.1, uses.2]
    refine tallied_pipelineEncode (fun encoded => ?_) herr
    exact tallied_putObject hok herr

theorem tallied_endReadTransaction {ok : Unit → BackupManager pf.build → Tally → Prop}
    {err : Error → BackupManager pf.build → Tally → Prop}
    (hok : ∀ held, ok () { m with hasReadTransaction := held } t) :
    Op.wp (tallying config).serve (tallying config).guard (endReadTransaction pf) ok err m t := by
  simp only [endReadTransaction, Op.wp_bind, Op.wp_get]
  refine Op.wp_ite (fun _ => ?_) fun _ => hok _
  exact (Op.wp_bind _ _).mpr (tallied_silent rfl fun _ => hok false)

theorem tells_endReadTransaction : Tells config shut limit (endReadTransaction pf) :=
  fun _ _ told => tallied_endReadTransaction fun _ => told.assigned rfl rfl rfl rfl rfl

theorem tells_snapshot : Tells config shut limit (snapshot pf) := by
  intro m t told
  have opened : Reports config shut limit m { t with stage := .opened } :=
    told.staged rfl fun _ => UploadStage.noConfusion
  have saved : ∀ size, Reports config shut limit m { t with stage := .saved .snapshot size } :=
    fun size => told.staged rfl fun _ => UploadStage.noConfusion
  simp only [snapshot, Op.wp_bind, Op.wp_get, Op.wp_modify, wp_orFail]
  refine tallied_call fun read => ?_
  cases read with
  | error e => exact opened
  | ok rawData =>
    dsimp only
    rw [told.uses.1, told.uses.2]
    refine tallied_pipelineEncode (fun data => ?_) fun _ => opened
    refine tallied_putObject ?_ fun _ => opened
    refine tallied_putObject ?_ fun _ => saved data.length
    refine tallied_call fun snapshotTime => tallied_call fun lastSnapshotTime => ?_
    refine tallied_nowMs fun now => ?_
    refine tallied_uploadManifest told.uses ?_ fun _ => ?_
    · exact told.published .snapshot data.length snapshotTime rfl rfl rfl rfl rfl
    · exact told.published .snapshot data.length snapshotTime rfl rfl rfl rfl rfl

theorem tells_beginReadTransaction : Tells config shut limit (beginReadTransaction pf) := by
  refine Op.secures_get fun self _ _ => Op.Secures.ite (fun _ => Op.secures_pure _) fun _ => ?_
  refine (secures_orFail (tells_silent rfl)).bind fun _ => ?_
  refine (secures_orFail (tells_silent rfl)).bind fun _ => ?_
  exact Op.secures_modify fun _ _ told => told.assigned rfl rfl rfl rfl rfl

theorem tells_startGeneration : Tells config shut limit (startGeneration pf) := by
  intro m t told
  simp only [startGeneration, Op.wp_bind, Op.wp_modify]
  refine tallied_call fun generation => tallied_nowMs fun now => ?_
  exact
    { uses := told.uses
      counted := by
        obtain ⟨-, drawn, synced, taken, bytes, syncs⟩ := Counters.ext_iff.mp told.counted
        refine Counters.ext rfl ?_ synced taken bytes syncs
        exact wrappingAddU64_eq drawn 1
      settled := told.settled
      closed := told.closed
      errors := told.errors }

theorem tells_recover : Tells config shut limit (recover pf) := by
  refine tells_endReadTransaction.bind fun _ => tells_startGeneration.bind fun _ => ?_
  exact tells_snapshot.bind fun _ => tells_beginReadTransaction

/-- The segment is cut out of the file that has just been read. -/
theorem tallied_uploadSegment (told : Reports config shut limit m t) (opened : t.stage = .opened)
    (walData : Bytes) (alignedLen : Nat) :
    Op.wp (tallying config).serve (tallying config).guard (uploadSegment pf walData alignedLen)
      (fun _ => Reports config shut limit) (fun _ => Reports config shut limit) m t := by
  obtain ⟨n, _⟩ := t
  cases opened
  have saved : ∀ size, Reports config shut limit m ⟨n, .saved .segment size⟩ :=
    fun size => told.staged rfl fun _ => UploadStage.noConfusion
  simp only [uploadSegment, Op.wp_bind, Op.wp_get, Op.wp_modify, Op.wp_ofOption]
  intro newData _
  rw [told.uses.1, told.uses.2]
  refine tallied_pipelineEncode (fun encoded => ?_) fun _ => told
  refine tallied_putObject ?_ fun _ => told
  refine tallied_nowMs fun now => ?_
  refine tallied_uploadManifest told.uses ?_ fun _ => ?_
  · refine tallied_call fun syncTime nextIndex _ => ?_
    exact told.published .segment encoded.length syncTime rfl rfl rfl rfl rfl
  · exact (saved encoded.length).assigned rfl rfl rfl rfl rfl

theorem tells_syncWal : Tells config shut limit (syncWal pf) := by
  intro m t told
  have opened : Reports config shut limit m { t with stage := .opened } :=
    told.staged rfl fun _ => UploadStage.noConfusion
  simp only [syncWal, Op.wp_bind, Op.wp_get]
  refine tallied_silent rfl fun found => Op.wp_ite (fun _ => told) fun _ => ?_
  simp only [Op.wp_bind, wp_orFail]
  refine tallied_call fun read => ?_
  cases read with
  | error e => exact opened
  | ok walData =>
    refine Op.wp_ite (fun _ => opened) fun _ => Op.wp_ite (fun _ => ?_) fun _ => ?_
    · exact (Op.wp_bind _ _).mpr (tells_recover _ _ opened)
    · have captured : Reports config shut limit (m.captureSalt pf walData)
          { t with stage := .opened } := by
        unfold captureSalt
        split
        · exact opened.assigned rfl rfl rfl rfl rfl
        · exact opened
      refine (Op.wp_bind _ _).mpr ?_
      refine Op.wp_ite (fun _ => captured) fun _ => (Op.wp_bind _ _).mpr ?_
      exact tallied_uploadSegment captured rfl walData _

theorem tells_checkpoint : Tells config shut limit (checkpoint pf) := by
  refine tells_syncWal.bind fun _ => tells_endReadTransaction.bind fun _ => ?_
  refine Op.secures_get fun self _ _ => ?_
  refine (secures_orFail (tells_silent rfl)).bind fun _ => tells_startGeneration.bind fun _ => ?_
  refine tells_snapshot.attempt.bind fun snapshotResult => ?_
  exact tells_beginReadTransaction.bind fun _ => Op.secures_ofExcept snapshotResult

theorem tells_maybeSnapshot : Tells config shut limit (maybeSnapshot pf) := by
  intro m t told
  simp only [maybeSnapshot, Op.wp_bind, Op.wp_get]
  cases m.config.snapshotInterval with
  | none => exact told
  | some interval =>
    refine (Op.wp_bind _ _).mpr (tallied_call fun now => ?_)
    have same : t.note config .instantNow now = t := told.settled.stamp now
    rw [same]
    refine Op.wp_ite (fun _ => ?_) fun _ => told
    exact (Op.wp_bind _ _).mpr (tells_checkpoint _ _ told)

/-- The only error that is recorded is that of a last sync. -/
theorem tallied_shutdown (told : Reports config shut shut.toNat m t) :
    Op.wp (tallying config).serve (tallying config).guard (shutdown pf)
      (fun _ => Reports config true 1) (fun _ => Reports config true 1) m t := by
  have ends : ∀ {m t}, Reports config shut 1 m t →
      Op.wp (tallying config).serve (tallying config).guard (do
        endReadTransaction pf
        modify fun self => { self with shutdownComplete := true })
        (fun _ => Reports config true 1) (fun _ => Reports config true 1) m t := by
    intro m t told
    refine (Op.wp_bind _ _).mpr (tallied_endReadTransaction fun held => ?_)
    exact { told with closed := rfl }
  simp only [shutdown, Op.wp_bind, Op.wp_get]
  refine Op.wp_ite (fun already => ?_) fun waits => ?_
  · obtain rfl : shut = true := told.closed.symm.trans already
    exact told
  · obtain rfl : shut = false := by rw [← told.closed, Bool.eq_false_of_not_eq_true waits]
    refine (Op.wp_bind _ _).mpr ((Op.wp_attempt _).mpr ?_)
    refine Op.wp_mono (tells_syncWal _ _ told) ?_ ?_
    · exact fun _ m t told => ends { told with errors := told.errors.trans (by decide) }
    · intro e m t told
      have recorded : wrappingAddU64 m.stats.errorCount 1 ≤ 1 :=
        (Nat.mod_le _ _).trans (Nat.succ_le_succ told.errors)
      exact (Op.wp_bind _ _).mpr (ends { told with errors := recorded })

/-- The calls of a cleaning. -/
def isCleaning : Call → Bool
  | .getObject _ | .list _ | .deleteObject _ | .systemTime => true
  | c => isLocalCall c

theorem cleaning_deletes : PermitsDeletes config (isCleaning · = true) where
  quiet c h := by
    cases c with
    | putObject | newUuid | writeFile | executeBatch => cases h
    | _ => rfl
  time := rfl
  get _ := rfl
  list _ := rfl
  delete _ := rfl

/-- A cleaning publishes nothing. -/
theorem note_cleaning {c : Call} (cleaning : isCleaning c = true) {reply : c.Reply}
    (settled : t.Settled) :
    (t.note config c reply).counted = t.counted ∧ (t.note config c reply).Settled := by
  cases c with
  | putObject | newUuid | writeFile | executeBatch => cases cleaning
  | getObject => exact ⟨rfl, fun _ => UploadStage.noConfusion⟩
  | readFile => exact ⟨rfl, fun _ => UploadStage.noConfusion⟩
  | instantNow =>
    have same : t.note config .instantNow reply = t := settled.stamp reply
    rw [same]
    exact ⟨rfl, settled⟩
  | _ => exact ⟨rfl, settled⟩

theorem tells_within {α : Type} {x : Method pf α}
    (hx : ∀ m, Uses config m → Op.Within (isCleaning · = true) (fun m' => m' = m) x) :
    Tells config shut limit x := by
  intro m t told
  have step : ∀ (t' : Tally) (c : Call) (reply : c.Reply) t'',
      t'.counted = t.counted ∧ t'.Settled → isCleaning c = true →
      (tallying config).serve t' c reply t'' →
      (tallying config).guard t' c reply t'' ∧ t''.counted = t.counted ∧ t''.Settled := by
    rintro t' c reply _ ⟨same, settled⟩ cleaning rfl
    obtain ⟨unchanged, settled⟩ := note_cleaning cleaning settled
    exact ⟨trivial, unchanged.trans same, settled⟩
  refine Op.wp_mono ((hx m told.uses).wp step rfl ⟨rfl, told.settled⟩) ?_ ?_
  · rintro _ _ _ ⟨rfl, same, settled⟩
    exact told.staged same settled
  · rintro _ _ _ ⟨rfl, same, settled⟩
    exact told.staged same settled

theorem tells_enforceRetention : Tells config shut limit (enforceRetention pf) :=
  tells_within fun _ uses => within_enforceRetention cleaning_deletes fun same => same ▸ uses

/-- Between a download and the next reading of a file. -/
def Rests (config : BackupConfig pf.build) (shut : Bool) (limit : Nat) (m : BackupManager pf.build)
    (t : Tally) : Prop :=
  Reports config shut limit m t ∧ t.stage = .idle

theorem tallied_download (told : Reports config shut limit m t) (s3 : S3Client) (key : Str) :
    Op.wp (tallying config).serve (tallying config).guard (s3.getObject key)
      (fun _ => Rests config shut limit) (fun _ => Rests config shut limit) m t := by
  have rests : Rests config shut limit m { t with stage := .idle } :=
    ⟨told.staged rfl fun _ => UploadStage.noConfusion, rfl⟩
  exact tallied_getObject (fun _ => rests) fun _ => rests

theorem rests_downloadSegments (self : BackupManager pf.build) (keys : List Str) :
    Op.Secures (tallying config).serve (tallying config).guard (Rests config shut limit)
      (downloadSegments pf self keys) := by
  induction keys with
  | nil => exact Op.secures_pure _
  | cons key keys ih =>
    have downloads : Op.Secures (tallying config).serve (tallying config).guard
        (Rests config shut limit) (self.s3.getObject key) :=
      fun m t rests => tallied_download rests.1 self.s3 key
    refine downloads.bind fun _ => (Op.secures_ofExcept _).bind fun _ => ?_
    exact ih.bind fun _ => Op.secures_pure _

theorem tallied_downloadSegments (told : Reports config shut limit m t)
    (self : BackupManager pf.build) {keys : List Str} (nonempty : keys ≠ []) :
    Op.wp (tallying config).serve (tallying config).guard (downloadSegments pf self keys)
      (fun _ => Rests config shut limit) (fun _ => Rests config shut limit) m t := by
  cases keys with
  | nil => exact absurd rfl nonempty
  | cons key keys =>
    refine (Op.wp_bind _ _).mpr (Op.wp_mono (tallied_download told self.s3 key) ?_ fun _ _ _ h => h)
    refine fun data => (Op.secures_ofExcept _).bind fun decoded => ?_
    exact (rests_downloadSegments self keys).bind fun _ => Op.secures_pure _

/-- What is downloaded is not counted when it is uploaded again. -/
theorem rests_uploadChunks {self : BackupManager pf.build} (uses : Uses config self)
    (allData : Bytes) (maxSize fuel offset newIndex : Nat) :
    Op.Secures (tallying config).serve (tallying config).guard (Rests config shut limit)
      (uploadChunks pf self allData maxSize fuel offset newIndex) := by
  induction fuel generalizing offset newIndex with
  | zero =>
    unfold uploadChunks
    exact Op.Secures.ite (fun _ => Op.secures_halt) fun _ => Op.secures_pure _
  | succ fuel ih =>
    unfold uploadChunks
    refine Op.Secures.ite (fun _ => ?_) fun _ => Op.secures_pure _
    rw [uses.1, uses.2]
    rintro m ⟨n, _⟩ ⟨told, rfl⟩
    have rests : Rests config shut limit m ⟨n, .idle⟩ := ⟨told, rfl⟩
    simp only [Op.wp_bind]
    refine tallied_pipelineEncode (fun encoded => ?_) fun _ => rests
    refine tallied_putObject (tallied_nowMs fun now => ?_) fun _ => rests
    refine (Op.wp_ofOption _).mpr fun next _ => ?_
    exact Op.wp_mono (ih _ _ m _ rests) (fun _ _ _ h => h) fun _ _ _ h => h

theorem rests_uploadManifest :
    Op.Secures (tallying config).serve (tallying config).guard (Rests config shut limit)
      (uploadManifest pf) := by
  rintro m ⟨n, _⟩ ⟨told, rfl⟩
  exact tallied_uploadManifest told.uses ⟨told, rfl⟩ fun _ => ⟨told, rfl⟩

/-- There are two segments at least to compact, so something is downloaded before the uploads. -/
theorem tells_compact (maxSegmentSize : Option Nat) (fuel : Nat) :
    Tells config shut limit (compact pf maxSegmentSize fuel) := by
  refine Op.secures_get fun self t hself => ?_
  refine Op.Secures.ite (fun _ => Op.secures_pure _) fun several m t told => ?_
  have nonempty : (self.manifest.segments.map fun s =>
      (Object.segment self.generation s.index).key) ≠ [] := by
    intro empty
    rw [List.map_eq_nil_iff.mp empty] at several
    exact several (Nat.zero_le 1)
  have deletes : ∀ keys, Tells config shut limit (self.s3.deleteObjects keys) := by
    intro keys
    rw [hself.uses.2]
    exact tells_within fun _ _ => within_deleteObjects cleaning_deletes keys
  have fails : ∀ (_ : Error) m t, Rests config shut limit m t → Reports config shut limit m t :=
    fun _ _ _ rests => rests.1
  refine (Op.wp_bind _ _).mpr (Op.wp_mono (tallied_downloadSegments told self nonempty) ?_ fails)
  intro allData m t rests
  refine (rests_uploadChunks hself.uses allData _ _ _ _).next rests ?_ fails
  intro chunks m t rests
  have listed : Rests config shut limit
      { m with manifest := { m.manifest with segments := chunks.1 } } t :=
    ⟨rests.1.assigned rfl rfl rfl rfl rfl, rests.2⟩
  refine rests_uploadManifest.next listed (fun _ m t rests => ?_) fails
  have cleans : Tells config shut limit (do
      modify fun self => { self with walIndex := chunks.2 }
      self.s3.deleteObjects (self.manifest.segments.map fun s =>
        (Object.segment self.generation s.index).key)
      pure
        { segmentsBefore := self.manifest.segments.length % 2 ^ 32
          segmentsAfter := chunks.1.length % 2 ^ 32 } : Method pf CompactionResult) :=
    Op.Secures.bind (Op.secures_modify fun _ _ told => told.assigned rfl rfl rfl rfl rfl)
      fun _ => (deletes _).bind fun _ => Op.secures_pure _
  exact cleans m t rests.1

/-- A manager that is opened has nothing to count yet but its first snapshot. -/
theorem tells_firstSnapshot : Tells config shut limit (firstSnapshot pf) := by
  refine tells_snapshot.attempt.bind ?_
  rintro (e | _)
  · exact tells_endReadTransaction.bind fun _ => Op.secures_throw _
  · exact Op.secures_pure _

/-- Nothing holds of the tally before the connection is configured. -/
theorem tallied_new (t : Tally) :
    Op.wp (tallying config).serve (tallying config).guard (new pf config)
      (fun m _ => Reports config false 0 m) (fun _ _ _ => True) () t := by
  have quiet : ∀ {α : Type} {x : M Unit α}, Op.Within (fun _ => True) (fun _ => True) x →
      Op.Secures (tallying config).serve (tallying config).guard (fun _ _ => True) x :=
    fun hx => Automaton.accepts_within (fun _ _ _ => trivial) hx
  have fails : ∀ (_ : Error) (_ : Unit) (_ : Tally), True → True := fun _ _ _ h => h
  rw [new_eq]
  refine (quiet (within_restoreFirst (permits_any config))).next trivial (fun _ _ _ _ => ?_) fails
  refine (quiet (within_orFail (Op.within_call trivial))).next trivial ?_ fails
  intro readConn _ t _
  simp only [Op.wp_bind, wp_orFail, Op.wp_runOn]
  refine tallied_call fun configured => ?_
  cases configured with
  | error e => trivial
  | ok =>
    refine tallied_silent rfl fun begun => ?_
    cases begun with
    | error e => trivial
    | ok =>
      refine tallied_silent rfl fun queried => ?_
      cases queried with
      | error e => trivial
      | ok =>
        refine tallied_call fun generation => tallied_nowMs fun ts => tallied_call fun now => ?_
        refine Op.wp_mono (tells_firstSnapshot _ _ ?_) (fun _ _ _ h => h) fun _ _ _ _ => trivial
        exact
          { uses := ⟨rfl, rfl⟩
            counted := rfl
            settled := fun _ => UploadStage.noConfusion
            closed := rfl
            errors := Nat.le_refl 0 }

/-- What holds of the open manager between two operations. -/
def Standing (config : BackupConfig pf.build) (s : Manager pf) (t : Tally) : Prop :=
  ∀ m, s = some m → ∃ shut : Bool, Reports config shut shut.toNat m t

theorem standing_method {α : Type} {x : Method pf α} (answer : α → Answer)
    (hx : ∀ {shut limit}, Tells config shut limit x) (told : Reports config shut shut.toNat m t) :
    (method answer x m).wp (tallying config).serve (tallying config).guard
      (fun out t => Standing config out.2 t) t := by
  refine (wp_method answer x m).mpr (Op.wp_mono (hx m t told) ?_ ?_)
  · rintro _ _ _ told _ ⟨⟩
    exact ⟨shut, told⟩
  · rintro _ _ _ told _ ⟨⟩
    exact ⟨shut, told⟩

theorem tallying_accepts : (tallying config).Accepts (process config) (Standing config) where
  body := by
    intro q s t _ standing
    have opens : (opening config).wp (tallying config).serve (tallying config).guard
        (fun out t => Standing config out.2 t) t := by
      refine (wp_opening config).mpr (Op.wp_mono (tallied_new t) ?_ ?_)
      · rintro _ _ _ told _ ⟨⟩
        exact ⟨false, told⟩
      · exact fun _ _ _ _ => Manager.unopened
    cases s with
    | none =>
      cases q with
      | new => exact opens
      | _ => trivial
    | some m =>
      obtain ⟨shut, told⟩ := standing m rfl
      cases q with
      | new => exact opens
      | syncWal => exact standing_method _ tells_syncWal told
      | snapshot => exact standing_method _ tells_snapshot told
      | checkpoint => exact standing_method _ tells_checkpoint told
      | maybeSnapshot => exact standing_method _ tells_maybeSnapshot told
      | compact => exact standing_method _ (tells_compact _ _) told
      | enforceRetention => exact standing_method _ tells_enforceRetention told
      | shutdown =>
        refine (wp_method _ _ m).mpr (Op.wp_mono (tallied_shutdown told) ?_ ?_)
        · rintro _ _ _ told _ ⟨⟩
          exact ⟨true, told⟩
        · rintro _ _ _ told _ ⟨⟩
          exact ⟨true, told⟩

end

/-- The statistics are true, whatever happened to the uploads. -/
theorem reports_truly : ReportsTruly config where
  counted life held := by
    obtain ⟨shut, told⟩ := tallying_accepts.rests_always (fun _ => Manager.unopened) life _ rfl
    exact told.counted.trans (Counters.wrapped_of_representable held)
  wraps _ _ _ _ life := by
    obtain ⟨shut, told⟩ := tallying_accepts.rests_always (fun _ => Manager.unopened) life _ rfl
    exact told.counted
  errors {_ m _} life := by
    obtain ⟨shut, told⟩ := tallying_accepts.rests_always (fun _ => Manager.unopened) life _ rfl
    have errors : m.stats.errorCount ≤ shut.toNat := told.errors
    rw [told.closed]
    cases shut with
    | false => exact errors
    | true => exact errors

end Waloy.Spec
