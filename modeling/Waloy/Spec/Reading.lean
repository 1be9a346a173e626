import Waloy.Spec.Opening
import Waloy.Spec.Selection

/-!
# Restores over a bucket whose reads fail

Single gets and lists of a bucket at rest may be denied; the client tries each four
times. A restore leaves on most failures, but it goes on without a manifest or a listing
that it cannot get, so what it writes depends on the reads that were given up.
-/
namespace Waloy.Spec
open Waloy.Effect Waloy.Source Waloy.Source.BackupManager

variable {pf : Platform} (config : BackupConfig pf.build)

/-- The local files, and the reads of the bucket that were denied, newest first. -/
structure Local where
  files : List (Str × Bytes)
  denied : List Call
  deriving DecidableEq

def Local.write (l : Local) (path : Str) (data : Bytes) : Local :=
  { l with files := (path, data) :: l.files }

/-- The same read is denied a number of times. -/
def Local.deny (l : Local) (c : Call) (times : Nat) : Local :=
  { l with denied := List.replicate times c ++ l.denied }

/-- A bucket at rest, any single read of which may be denied. -/
def unreliable (b : Bucket) : Server Calls Local := fun l c reply l' =>
  match c, reply with
  | .getObject key, .ok data => b.lookup key = some data ∧ l' = l
  | .getObject key, .error _ => b.lookup key = none ∧ l' = l ∨ l' = l.deny (.getObject key) 1
  | .list keyPrefix, .ok pages =>
    pages.flatten.Perm (b.keys.filter (keyPrefix.isPrefixOf ·)) ∧ l' = l
  | .list keyPrefix, .error _ => l' = l.deny (.list keyPrefix) 1
  | .sleep _, _ => l' = l
  | .writeFile path data, .ok _ => l' = l.write path data
  | .syncFile _, .ok _ => l' = l
  | .openConn _, .ok _ => l' = l
  | .executeBatch _ _, .ok _ => l' = l
  | .closeConn _, _ => l' = l
  | _, _ => False

/-- A read was denied at every attempt. -/
def GaveUp (denied : List Call) (c : Call) : Prop := maxRetries < denied.count c

instance (denied : List Call) (c : Call) : Decidable (GaveUp denied c) :=
  inferInstanceAs (Decidable (_ < _))

/-- The call that gets an object. -/
def getCall (key : Str) : Call := .getObject ((S3Client.new config.s3).fullKey key)

def listCall (keyPrefix : Str) : Call := .list ((S3Client.new config.s3).fullKey keyPrefix)

def walDirectory (generation : Str) : Str := generation ++ ['/', 'w', 'a', 'l', '/']

/-- The keys that `restore_latest` replays when these reads were denied. -/
def standIn (b : Bucket) (denied : List Call) (generation : Str) : List Str :=
  match
    if GaveUp denied (getCall config (Object.manifest generation).key) then none
    else manifestAt config b generation with
  | some manifest => manifest.segments.map fun s => (Object.segment generation s.index).key
  | none =>
    if GaveUp denied (listCall config (walDirectory generation)) then []
    else listing config b (walDirectory generation)

/-- The manifest under a key when these reads were denied. -/
def readBut (b : Bucket) (denied : List Call) (key : Str) : Option GenerationManifest :=
  if GaveUp denied (getCall config key) then none else readAt config b key

/-- The manifests that a point-in-time restore reads when these reads were denied. -/
def readableBut (b : Bucket) (denied : List Call) : List GenerationManifest :=
  (manifestKeys config b).filterMap (readBut config b denied)

/-- What a restore selects when these reads were denied. -/
def selectionBut (b : Bucket) (denied : List Call) : Option Nat → Option (Str × List Str)
  | none => ((object config b .latest).bind fromUtf8).map fun generation =>
    (generation, standIn config b denied generation)
  | some timestampMs => (selectManifest (readableBut config b denied) timestampMs).map
    fun manifest =>
      (manifest.generation, (manifest.segments.filter fun s => s.timestampMs ≤ timestampMs).map
        fun s => (Object.segment manifest.generation s.index).key)

section
variable {config} {b : Bucket} {l l' : Local} {c c' : Call} {σ α : Type}

@[simp] theorem Local.deny_files (l : Local) (c : Call) (times : Nat) :
    (l.deny c times).files = l.files := rfl

@[simp] theorem Local.deny_zero (l : Local) (c : Call) : l.deny c 0 = l := rfl

theorem Local.deny_deny (l : Local) (c : Call) (k n : Nat) :
    (l.deny c k).deny c n = l.deny c (n + k) := by
  unfold Local.deny
  rw [List.replicate_add, List.append_assoc]

theorem Local.count_deny (l : Local) (c c' : Call) (times : Nat) :
    (l.deny c times).denied.count c' = (if c = c' then times else 0) + l.denied.count c' := by
  unfold Local.deny
  rw [List.count_append, List.count_replicate]
  simp

/-- A read with its retries: it returns before it is given up, and fails when it is given
up or what it reads is not there. -/
structure Tried (c : Call) (l : Local) (failed missing : Prop) (l' : Local) (times : Nat) : Prop where
  denied : l' = l.deny c times
  few : ¬ failed → times ≤ maxRetries
  all : failed → missing ∨ times = maxRetries + 1

theorem runs_retry {x : M Unit α} {found : α → Prop} {missing : Prop} {r : Except Error α}
    (once : ∀ l r l', Op.Runs (unreliable b) x () l r () l' →
      (∃ value, r = .ok value ∧ found value ∧ l' = l) ∨
        (∃ e, r = .error e) ∧ (missing ∧ l' = l ∨ l' = l.deny c 1))
    (run : Op.Runs (unreliable b) (S3Client.retry x) () l r () l') :
    ∃ times, Tried c l (∃ e, r = .error e) missing l' times ∧
      ((∃ e, r = .error e) ∨ ∃ value, r = .ok value ∧ found value) := by
  suffices ∀ left attempt l,
      Op.Runs (unreliable b) (S3Client.retryFrom x left attempt) () l r () l' →
      ∃ times, l' = l.deny c times ∧
        ((∃ e, r = .error e) ∧ (missing ∨ times = left + 1) ∨
          ∃ value, r = .ok value ∧ found value ∧ times ≤ left) by
    obtain ⟨times, same, failed | ⟨value, ok, good, few⟩⟩ := this _ _ _ run
    · exact ⟨times, ⟨same, fun returned => absurd failed.1 returned, fun _ => failed.2⟩, .inl failed.1⟩
    · refine ⟨times, ⟨same, fun _ => few, ?_⟩, .inr ⟨value, ok, good⟩⟩
      rintro ⟨e, failed⟩
      cases ok.symm.trans failed
  intro left
  induction left with
  | zero =>
    intro attempt l run
    obtain ⟨value, ok, good, rfl⟩ | ⟨failed, ⟨gone, rfl⟩ | rfl⟩ := once _ _ _ run
    · exact ⟨0, rfl, .inr ⟨value, ok, good, Nat.le_refl _⟩⟩
    · exact ⟨0, rfl, .inl ⟨failed, .inl gone⟩⟩
    · exact ⟨1, rfl, .inl ⟨failed, .inr rfl⟩⟩
  | succ left ih =>
    intro attempt l run
    rw [S3Client.retryFrom, Op.runs_bind] at run
    obtain ⟨first, s₁, l₁, tried, rest⟩ | ⟨e, tried, -⟩ := run
    swap
    · obtain ⟨_, -, same⟩ := Op.runs_attempt.mp tried
      cases same
    obtain ⟨_, tried, same⟩ := Op.runs_attempt.mp tried
    cases same
    obtain ⟨value, rfl, good, rfl⟩ | ⟨⟨e, rfl⟩, kept⟩ := once _ _ _ tried
    · obtain ⟨rfl, -, rfl⟩ := Op.runs_pure.mp rest
      exact ⟨0, rfl, .inr ⟨value, rfl, good, Nat.zero_le _⟩⟩
    · obtain ⟨_, s₂, l₂, slept, again⟩ | ⟨_, slept, -⟩ := Op.runs_bind.mp rest
      swap
      · obtain ⟨_, -, same, -⟩ := Op.runs_call.mp slept
        cases same
      obtain ⟨_, rfl, -, -⟩ := Op.runs_call.mp slept
      obtain ⟨times, rfl, outcome⟩ := ih _ _ again
      obtain ⟨gone, rfl⟩ | rfl := kept
      · refine ⟨times, rfl, ?_⟩
        obtain ⟨failed, -⟩ | ⟨value, ok, good, few⟩ := outcome
        · exact .inl ⟨failed, .inl gone⟩
        · exact .inr ⟨value, ok, good, by omega⟩
      · refine ⟨times + 1, Local.deny_deny _ _ _ _, ?_⟩
        obtain ⟨failed, gone | all⟩ | ⟨value, ok, good, few⟩ := outcome
        · exact .inl ⟨failed, .inl gone⟩
        · exact .inl ⟨failed, .inr (by omega)⟩
        · exact .inr ⟨value, ok, good, by omega⟩

theorem Tried.gaveUp {failed missing : Prop} {times : Nat}
    (tried : Tried c l failed missing l' times) (fresh : l.denied.count c = 0)
    (present : ¬ missing) : GaveUp l'.denied c ↔ failed := by
  unfold GaveUp
  rw [tried.denied, Local.count_deny, if_pos rfl, fresh]
  by_cases h : failed
  · have := (tried.all h).resolve_left present
    exact iff_of_true (by omega) h
  · have := tried.few h
    exact iff_of_false (by omega) h

theorem Tried.others {failed missing : Prop} {times : Nat}
    (tried : Tried c l failed missing l' times) (other : c' ≠ c) :
    l'.denied.count c' = l.denied.count c' := by
  rw [tried.denied, Local.count_deny, if_neg other.symm, Nat.zero_add]

theorem Tried.files {failed missing : Prop} {times : Nat}
    (tried : Tried c l failed missing l' times) : l'.files = l.files := by
  rw [tried.denied]
  rfl

variable (config) in
/-- A read that is tried up to four times. -/
theorem runs_getObject {key : Str} {r : Except Error Bytes}
    (run : Op.Runs (unreliable b) ((S3Client.new config.s3).getObject key) () l r () l') :
    ∃ times, Tried (getCall config key) l (∃ e, r = .error e)
        (b.lookup ((S3Client.new config.s3).fullKey key) = none) l' times ∧
      ((∃ e, r = .error e) ∨
        ∃ data, r = .ok data ∧ b.lookup ((S3Client.new config.s3).fullKey key) = some data) := by
  apply runs_retry _ run
  intro l r l' run
  obtain ⟨reply, called, rfl, -⟩ := (runs_orFail_call Op.runs_call).mp run
  cases reply with
  | ok data => exact .inl ⟨data, rfl, called.1, called.2⟩
  | error e => exact .inr ⟨⟨_, rfl⟩, called⟩

variable (config) in
theorem runs_listKeys {keyPrefix : Str} {r : Except Error (List Str)}
    (run : Op.Runs (unreliable b) ((S3Client.new config.s3).listKeys keyPrefix) () l r () l') :
    ∃ times, Tried (listCall config keyPrefix) l (∃ e, r = .error e) False l' times ∧
      ((∃ e, r = .error e) ∨ ∃ keys, r = .ok keys ∧ keys = listing config b keyPrefix) := by
  apply runs_retry _ run
  intro l r l' run
  obtain ⟨results, s₁, l₁, listed, rest⟩ | ⟨e, failed, rfl⟩ := Op.runs_bind.mp run
  · obtain ⟨reply, served, same, -⟩ := (runs_orFail_call Op.runs_call).mp listed
    cases reply with
    | error e => cases same
    | ok pages =>
      cases same
      obtain ⟨perm, rfl⟩ := served
      obtain ⟨rfl, -, rfl⟩ := Op.runs_pure.mp rest
      refine .inl ⟨_, rfl, ?_, rfl⟩
      exact sortKeys_flatten perm
  · obtain ⟨reply, served, same, -⟩ := (runs_orFail_call Op.runs_call).mp failed
    cases reply with
    | ok pages => cases same
    | error e => exact .inr ⟨⟨_, rfl⟩, .inr served⟩

/-- Only the gets of some keys are denied in between. -/
def GetsOnly (config : BackupConfig pf.build) (keys : List Str) (l l' : Local) : Prop :=
  ∀ c, (∀ key ∈ keys, c ≠ getCall config key) → l'.denied.count c = l.denied.count c

theorem runs_readSegments {keys : List Str} {data : Bytes}
    (run : Op.Runs (unreliable b) (readSegments pf (S3Client.new config.s3) config keys) () l
      (.ok data) () l') :
    keysData config b keys = some data ∧ l'.files = l.files ∧ GetsOnly config keys l l' := by
  induction keys generalizing l data with
  | nil =>
    obtain ⟨same, -, rfl⟩ := Op.runs_pure.mp run
    cases same
    exact ⟨rfl, rfl, fun _ _ => rfl⟩
  | cons key keys ih =>
    obtain ⟨raw, _, l₁, got, run⟩ := Op.runs_bind_ok.mp run
    obtain ⟨decoded, _, l₂, decodes, run⟩ := Op.runs_bind_ok.mp run
    obtain ⟨rest, _, l₃, later, run⟩ := Op.runs_bind_ok.mp run
    obtain ⟨same, -, rfl⟩ := Op.runs_pure.mp run
    cases same
    obtain ⟨same, -, rfl⟩ := Op.runs_ofExcept.mp decodes
    obtain ⟨times, tried, ⟨e, failed⟩ | ⟨_, ok, present⟩⟩ := runs_getObject config got
    · cases failed
    cases ok
    obtain ⟨held, files, only⟩ := ih later
    refine ⟨?_, files.trans tried.files, fun c other => ?_⟩
    · rw [keysData, present, Option.bind_eq_bind, Option.bind_some, ← same, held]
      rfl
    · obtain ⟨here, there⟩ := List.forall_mem_cons.mp other
      exact (only c there).trans (tried.others here)

/-- A download that stops has missed a segment, or was denied one at every attempt. -/
theorem runs_readSegments_error {keys : List Str} {e : Error}
    (run : Op.Runs (unreliable b) (readSegments pf (S3Client.new config.s3) config keys) () l
      (.error e) () l') :
    l'.files = l.files ∧ GetsOnly config keys l l' ∧
      (keysData config b keys = none ∨ ∃ key ∈ keys, GaveUp l'.denied (getCall config key)) := by
  induction keys generalizing l e with
  | nil => cases (Op.runs_pure.mp run).1
  | cons key keys ih =>
    obtain ⟨raw, _, l₁, got, decoding⟩ | ⟨e, failed, -⟩ := Op.runs_bind.mp run
    swap
    · obtain ⟨times, tried, -⟩ := runs_getObject config failed
      refine ⟨tried.files, fun c other => tried.others (other key List.mem_cons_self), ?_⟩
      obtain missing | all := tried.all ⟨e, rfl⟩
      · exact .inl (by rw [keysData, missing]; rfl)
      · refine .inr ⟨key, List.mem_cons_self, ?_⟩
        unfold GaveUp
        rw [tried.denied, Local.count_deny, if_pos rfl]
        omega
    obtain ⟨times, tried, ⟨e, failed⟩ | ⟨_, ok, present⟩⟩ := runs_getObject config got
    · cases failed
    cases ok
    obtain ⟨decoded, _, l₂, decodes, reading⟩ | ⟨e, corrupt, -⟩ := Op.runs_bind.mp decoding
    swap
    · obtain ⟨same, -, rfl⟩ := Op.runs_ofExcept.mp corrupt
      refine ⟨tried.files, fun c other => tried.others (other key List.mem_cons_self), .inl ?_⟩
      rw [keysData, present, Option.bind_eq_bind, Option.bind_some, ← same]
      rfl
    obtain ⟨same, -, rfl⟩ := Op.runs_ofExcept.mp decodes
    obtain ⟨rest, _, l₃, later, joining⟩ | ⟨e, failed, -⟩ := Op.runs_bind.mp reading
    · cases (Op.runs_pure.mp joining).1
    obtain ⟨files, only, outcome⟩ := ih failed
    refine ⟨files.trans tried.files, fun c other => ?_, ?_⟩
    · obtain ⟨here, there⟩ := List.forall_mem_cons.mp other
      exact (only c there).trans (tried.others here)
    obtain unread | ⟨key', member, gave⟩ := outcome
    · apply Or.inl
      rw [keysData, present, Option.bind_eq_bind, Option.bind_some, ← same, unread]
      rfl
    · exact .inr ⟨key', List.mem_cons_of_mem _ member, gave⟩

/-- A snapshot that is not fetched is not written either. -/
theorem runs_writeSnapshot_error {targetPath generation : Str} {e : Error}
    (run : Op.Runs (unreliable b) (writeSnapshot pf (S3Client.new config.s3) config targetPath
      generation) () l (.error e) () l') : l'.files = l.files := by
  obtain ⟨raw, _, l₁, got, rest⟩ | ⟨e, failed, -⟩ := Op.runs_bind.mp run
  · obtain ⟨times, tried, -⟩ := runs_getObject config got
    obtain ⟨decoded, _, l₂, decodes, writes⟩ | ⟨e, corrupt, -⟩ := Op.runs_bind.mp rest
    · obtain ⟨reply, written, same, -⟩ := (runs_orFail_call Op.runs_call).mp writes
      cases reply with
      | ok => cases same
      | error => cases written
    · obtain ⟨-, -, rfl⟩ := Op.runs_ofExcept.mp corrupt
      exact tried.files
  · obtain ⟨times, tried, -⟩ := runs_getObject config failed
    exact tried.files

theorem runs_writeSnapshot {targetPath generation : Str}
    (run : Op.Runs (unreliable b) (writeSnapshot pf (S3Client.new config.s3) config targetPath
      generation) () l (.ok ()) () l') :
    ∃ snapshot, content config b (.snapshot generation) = some snapshot ∧
      l'.files = (targetPath, snapshot) :: l.files ∧
      GetsOnly config [(Object.snapshot generation).key] l l' := by
  obtain ⟨raw, _, l₁, got, rest⟩ := Op.runs_bind_ok.mp run
  obtain ⟨decoded, _, l₂, decodes, writes⟩ := Op.runs_bind_ok.mp rest
  obtain ⟨same, -, rfl⟩ := Op.runs_ofExcept.mp decodes
  obtain ⟨reply, written, -, -⟩ := (runs_orFail_call Op.runs_call).mp writes
  obtain ⟨times, tried, ⟨e, failed⟩ | ⟨_, ok, present⟩⟩ := runs_getObject config got
  · cases failed
  cases ok
  cases reply with
  | error e => cases written
  | ok =>
    cases written
    refine ⟨decoded, ?_, ?_, fun c other => tried.others (other _ List.mem_cons_self)⟩
    · rw [content, object, objectKey, present, Option.bind_some, ← same]
      rfl
    · exact congrArg _ tried.files

theorem unreliable_replay {reply : c.Reply} (hc : isReplayCall c = true)
    (served : unreliable b l c reply l') : l' = l := by
  cases c with
  | closeConn => exact served
  | syncFile => cases reply with
    | ok => exact served
    | error => cases served
  | openConn => cases reply with
    | ok => exact served
    | error => cases served
  | executeBatch => cases reply with
    | ok => exact served
    | error => cases served
  | _ => cases hc

theorem runs_replay {targetPath : Str}
    (run : Op.Runs (unreliable b) (do
      orFail .io (call (.syncFile targetPath))
      let conn ← orFail .sqlite (call (.openConn targetPath))
      orFail .sqlite (call (.executeBatch conn .journalModeWal))
      orFail .sqlite (call (.executeBatch conn .walCheckpointTruncate))
      call (.closeConn conn)) () l (.ok ()) () l') : l' = l := by
  obtain ⟨_, _, l₁, synced, opens⟩ := Op.runs_bind_ok.mp run
  obtain ⟨conn, _, l₂, opened, configures⟩ := Op.runs_bind_ok.mp opens
  obtain ⟨_, _, l₃, configured, truncates⟩ := Op.runs_bind_ok.mp configures
  obtain ⟨_, _, l₄, truncated, closes⟩ := Op.runs_bind_ok.mp truncates
  obtain ⟨_, served₁, -, -⟩ := (runs_orFail_call Op.runs_call).mp synced
  obtain ⟨_, served₂, -, -⟩ := (runs_orFail_call Op.runs_call).mp opened
  obtain ⟨_, served₃, -, -⟩ := (runs_orFail_call Op.runs_call).mp configured
  obtain ⟨_, served₄, -, -⟩ := (runs_orFail_call Op.runs_call).mp truncated
  obtain ⟨_, served₅, -, -⟩ := Op.runs_call.mp closes
  calc
    l' = l₄ := unreliable_replay rfl served₅
    _ = l₃ := unreliable_replay rfl served₄
    _ = l₂ := unreliable_replay rfl served₃
    _ = l₁ := unreliable_replay rfl served₂
    _ = l := unreliable_replay rfl served₁

/-- The second half of a restore. -/
theorem runs_replaySegments {targetPath : Str} {keys : List Str}
    (run : Op.Runs (unreliable b) (replaySegments pf (S3Client.new config.s3) config targetPath keys)
      () l (.ok ()) () l') :
    ∃ wal, keysData config b keys = some wal ∧
      l'.files = (if keys = [] then l.files
        else (targetPath ++ ['-', 'w', 'a', 'l'], wal) :: l.files) ∧ GetsOnly config keys l l' := by
  unfold replaySegments at run
  by_cases empty : keys = []
  · subst empty
    rw [if_neg (by simp)] at run
    obtain rfl := runs_replay run
    exact ⟨[], rfl, rfl, fun _ _ => rfl⟩
  · rw [if_pos empty] at run
    obtain ⟨wal, _, l₁, reads, writes⟩ := Op.runs_bind_ok.mp run
    obtain ⟨_, _, l₂, written, syncs⟩ := Op.runs_bind_ok.mp writes
    obtain ⟨_, _, l₃, synced, replays⟩ := Op.runs_bind_ok.mp syncs
    obtain ⟨held, files, only⟩ := runs_readSegments reads
    obtain ⟨reply, served, -, -⟩ := (runs_orFail_call Op.runs_call).mp written
    obtain ⟨_, still, -, -⟩ := (runs_orFail_call Op.runs_call).mp synced
    have last := runs_replay replays
    have same : l' = l₂ := last.trans (unreliable_replay rfl still)
    cases reply with
    | error => cases served
    | ok =>
      refine ⟨wal, held, ?_, fun c other => ?_⟩
      · rw [if_neg empty, same, served, ← files]
        rfl
      · rw [same, served]
        exact only c other

/-- The listing that stands in for a manifest. -/
theorem runs_listed {generation : Str} {r : Except Error (List Str)}
    (fresh : l.denied.count (listCall config (walDirectory generation)) = 0)
    (run : Op.Runs (unreliable b) (listedKeys (S3Client.new config.s3) generation) () l r () l') :
    r = .ok (if GaveUp l'.denied (listCall config (walDirectory generation)) then []
        else listing config b (walDirectory generation)) ∧ l'.files = l.files ∧
      ∀ c, c ≠ listCall config (walDirectory generation) → l'.denied.count c = l.denied.count c := by
  change Op.Runs _ (Op.attempt ((S3Client.new config.s3).listKeys (walDirectory generation)) >>= _)
    _ _ _ _ _ at run
  obtain ⟨result, _, l₁, listed, rest⟩ := Op.runs_bind_attempt.mp run
  obtain ⟨times, tried, outcome⟩ := runs_listKeys config listed
  have gaveUp := tried.gaveUp fresh not_false
  obtain ⟨e, rfl⟩ | ⟨keys, rfl, rfl⟩ := outcome
  · obtain ⟨rfl, -, rfl⟩ := Op.runs_pure.mp rest
    rw [if_pos (gaveUp.mpr ⟨e, rfl⟩)]
    exact ⟨rfl, tried.files, fun c other => tried.others other⟩
  · obtain ⟨rfl, -, rfl⟩ := Op.runs_pure.mp rest
    rw [if_neg]
    · exact ⟨rfl, tried.files, fun c other => tried.others other⟩
    · intro gave
      obtain ⟨e, same⟩ := gaveUp.mp gave
      cases same

/-- The keys to replay: a manifest that was not fetched counts as missing. -/
theorem runs_segmentKeys {generation : Str} {r : Except Error (List Str)}
    (freshGet : l.denied.count (getCall config (Object.manifest generation).key) = 0)
    (freshList : l.denied.count (listCall config (walDirectory generation)) = 0)
    (run : Op.Runs (unreliable b) (segmentKeysFromManifest pf (S3Client.new config.s3) config
      generation) () l r () l') :
    r = .ok (standIn config b l'.denied generation) ∧ l'.files = l.files := by
  have differ : getCall config (Object.manifest generation).key ≠
      listCall config (walDirectory generation) := by simp [getCall, listCall]
  obtain ⟨result, _, l₁, got, rest⟩ := Op.runs_bind_attempt.mp run
  obtain ⟨times, tried, outcome⟩ := runs_getObject config got
  have fallback : manifestAt config b generation = none ∨
      GaveUp l₁.denied (getCall config (Object.manifest generation).key) →
      Op.Runs (unreliable b) (listedKeys (S3Client.new config.s3) generation) () l₁ r () l' →
      r = .ok (standIn config b l'.denied generation) ∧ l'.files = l.files := by
    intro unread lists
    have still : l₁.denied.count (listCall config (walDirectory generation)) = 0 :=
      (tried.others differ.symm).trans freshList
    obtain ⟨rfl, files, only⟩ := runs_listed still lists
    have nothing : (if GaveUp l'.denied (getCall config (Object.manifest generation).key) then none
        else manifestAt config b generation) = none := by
      obtain missing | gave := unread
      · rw [missing, ite_self]
      · apply if_pos
        unfold GaveUp at gave ⊢
        rwa [only _ differ]
    unfold standIn
    rw [nothing]
    exact ⟨rfl, files.trans tried.files⟩
  obtain ⟨e, rfl⟩ | ⟨data, rfl, present⟩ := outcome
  · refine fallback ?_ rest
    by_cases missing : b.lookup ((S3Client.new config.s3).fullKey (Object.manifest generation).key) =
        none
    · exact .inl (by rw [manifestAt, object, objectKey, missing, Option.bind_none])
    · exact .inr ((tried.gaveUp freshGet missing).mpr ⟨e, rfl⟩)
  · have found : manifestAt config b generation = (decodeManifest pf data config).toOption := by
      rw [manifestAt, object, objectKey, present, Option.bind_some]
    cases decoded : decodeManifest pf data config with
    | error e =>
      simp only [decoded] at rest
      exact fallback (.inl (by rw [found, decoded]; rfl)) rest
    | ok manifest =>
      simp only [decoded] at rest
      obtain ⟨rfl, -, rfl⟩ := Op.runs_pure.mp rest
      have kept : ¬ GaveUp l'.denied (getCall config (Object.manifest generation).key) := by
        rw [tried.gaveUp freshGet (by rw [present]; simp)]
        rintro ⟨e, same⟩
        cases same
      unfold standIn
      rw [if_neg kept, found, decoded]
      exact ⟨rfl, tried.files⟩

theorem getCall_inj {key key' : Str} : getCall config key = getCall config key' ↔ key = key' := by
  unfold getCall
  rw [Call.getObject.injEq]
  exact ⟨fun same => S3Client.fullKey_injective _ same, congrArg _⟩

/-- The manifests of a point-in-time restore: what was not fetched is left out. -/
theorem runs_pitrManifests {keys : List Str} {r : Except Error (List GenerationManifest)}
    (distinct : keys.Nodup)
    (fresh : ∀ key ∈ keys, manifestSuffix.isSuffixOf key = true →
      l.denied.count (getCall config key) = 0)
    (run : Op.Runs (unreliable b) (pitrManifests pf (S3Client.new config.s3) config keys)
      () l r () l') :
    r = .ok ((keys.filter manifestSuffix.isSuffixOf).filterMap (readBut config b l'.denied)) ∧
      l'.files = l.files ∧ GetsOnly config keys l l' := by
  induction keys generalizing l r with
  | nil =>
    obtain ⟨rfl, -, rfl⟩ := Op.runs_pure.mp run
    exact ⟨rfl, rfl, fun _ _ => rfl⟩
  | cons key keys ih =>
    obtain ⟨first, distinct⟩ := List.nodup_cons.mp distinct
    obtain ⟨fresh_key, fresh⟩ := List.forall_mem_cons.mp fresh
    unfold pitrManifests at run
    by_cases isManifest : manifestSuffix.isSuffixOf key = true
    swap
    · rw [if_neg isManifest] at run
      obtain ⟨rfl, files, only⟩ := ih distinct fresh run
      rw [List.filter_cons_of_neg isManifest]
      exact ⟨rfl, files, fun c other => only c (List.forall_mem_cons.mp other).2⟩
    rw [if_pos isManifest] at run
    rw [List.filter_cons_of_pos isManifest, List.filterMap_cons]
    obtain ⟨result, _, l₁, got, rest⟩ := Op.runs_bind_attempt.mp run
    obtain ⟨times, tried, outcome⟩ := runs_getObject config got
    have gaveUp := tried.gaveUp (fresh_key isManifest)
    have apart : ∀ key' ∈ keys, getCall config key ≠ getCall config key' := by
      intro key' hkey' same
      rw [getCall_inj.mp same] at first
      exact first hkey'
    have later : ∀ {r}, Op.Runs (unreliable b) (pitrManifests pf (S3Client.new config.s3) config keys)
        () l₁ r () l' →
        r = .ok ((keys.filter manifestSuffix.isSuffixOf).filterMap (readBut config b l'.denied)) ∧
        (GaveUp l'.denied (getCall config key) ↔ GaveUp l₁.denied (getCall config key)) ∧
        l'.files = l.files ∧ GetsOnly config (key :: keys) l l' := by
      intro r reads
      obtain ⟨same, files, only⟩ := ih distinct (fun key' hkey' suffixed =>
        (tried.others (apart key' hkey').symm).trans (fresh key' hkey' suffixed)) reads
      refine ⟨same, ?_, files.trans tried.files, fun c other => ?_⟩
      · unfold GaveUp
        rw [only _ apart]
      · obtain ⟨here, there⟩ := List.forall_mem_cons.mp other
        exact (only c there).trans (tried.others here)
    obtain ⟨e, rfl⟩ | ⟨data, rfl, present⟩ := outcome
    · obtain ⟨rfl, kept, rest⟩ := later rest
      have unread : readBut config b l'.denied key = none := by
        unfold readBut readAt
        by_cases missing : b.lookup ((S3Client.new config.s3).fullKey key) = none
        · rw [missing, Option.bind_none, ite_self]
        · exact if_pos (kept.mpr ((gaveUp missing).mpr ⟨e, rfl⟩))
      rw [unread]
      exact ⟨rfl, rest⟩
    · have got : ¬ GaveUp l₁.denied (getCall config key) := by
        rw [gaveUp (by rw [present]; simp)]
        rintro ⟨e, same⟩
        cases same
      have found : ¬ GaveUp l'.denied (getCall config key) → readBut config b l'.denied key =
          (decodeManifest pf data config).toOption := by
        intro kept
        rw [readBut, if_neg kept, readAt, present, Option.bind_some]
      cases decoded : decodeManifest pf data config with
      | error e =>
        simp only [decoded] at rest
        obtain ⟨rfl, kept, rest⟩ := later rest
        rw [found (mt kept.mp got), decoded]
        exact ⟨rfl, rest⟩
      | ok manifest =>
        simp only [decoded] at rest
        obtain ⟨others, _, l₂, reads, rest⟩ | ⟨e, failed, -⟩ := Op.runs_bind.mp rest
        · obtain ⟨rfl, -, rfl⟩ := Op.runs_pure.mp rest
          obtain ⟨same, kept, returns⟩ := later reads
          cases same
          rw [found (mt kept.mp got), decoded]
          exact ⟨rfl, returns⟩
        · cases (later failed).1

/-- The keys that are replayed are not those of manifests. -/
theorem manifest_notMem_standIn {generation : Str} {denied : List Call} :
    (Object.manifest generation).key ∉ standIn config b denied generation := by
  unfold standIn
  split
  · intro member
    obtain ⟨s, -, same⟩ := List.mem_map.mp member
    cases Object.key_injective same
  · split
    · exact List.not_mem_nil
    · intro member
      have inside := (mem_listing.mp member).2
      unfold walDirectory Object.key manifestSuffix at inside
      rw [List.prefix_append_right_inj] at inside
      exact absurd inside (by decide)

theorem gaveUp_congr {denied denied' : List Call} (same : denied.count c = denied'.count c) :
    GaveUp denied c ↔ GaveUp denied' c := by
  unfold GaveUp
  rw [same]

theorem standIn_congr {generation : Str} {denied denied' : List Call}
    (get : denied.count (getCall config (Object.manifest generation).key) =
      denied'.count (getCall config (Object.manifest generation).key))
    (list : denied.count (listCall config (walDirectory generation)) =
      denied'.count (listCall config (walDirectory generation))) :
    standIn config b denied generation = standIn config b denied' generation := by
  unfold standIn
  simp only [gaveUp_congr get, gaveUp_congr list]

/-- Reading the segments does not change which ones they are. -/
theorem standIn_lasting {generation : Str}
    (only : GetsOnly config (standIn config b l.denied generation) l l') :
    standIn config b l'.denied generation = standIn config b l.denied generation := by
  apply standIn_congr
  · apply only
    intro key member equal
    rw [← getCall_inj.mp equal] at member
    exact manifest_notMem_standIn member
  · exact only _ fun key _ => by simp [listCall, getCall]

theorem readableBut_congr {denied denied' : List Call}
    (same : ∀ key, manifestSuffix <:+ key →
      denied.count (getCall config key) = denied'.count (getCall config key)) :
    readableBut config b denied = readableBut config b denied' := by
  unfold readableBut manifestKeys
  apply List.filterMap_congr
  intro key member
  unfold readBut
  simp only [gaveUp_congr (same key (List.isSuffixOf_iff_suffix.mp (List.mem_filter.mp member).2))]

/-- A key of another kind is not the one of a manifest. -/
theorem getCall_ne_of_suffix {o : Object} {key : Str} (suffixed : manifestSuffix <:+ key)
    (other : ∀ own, o ≠ .manifest own) : getCall config key ≠ getCall config o.key := by
  intro same
  rw [getCall_inj.mp same] at suffixed
  obtain ⟨own, rfl⟩ := eq_manifest_of_suffix suffixed
  exact other own rfl

/-- A restore that returns has written what it selected among the reads it was granted. -/
theorem runs_restoreInner {time : Option Nat} {targetPath : Str} (fresh : l.denied = [])
    (run : Op.Runs (unreliable b) (restoreInner pf config targetPath time) () l (.ok ()) () l') :
    ∃ generation keys snapshot wal, selectionBut config b l'.denied time = some (generation, keys) ∧
      content config b (.snapshot generation) = some snapshot ∧
      keysData config b keys = some wal ∧
      l'.files = overwritten targetPath keys snapshot wal l.files := by
  have count : ∀ c, l.denied.count c = 0 := by simp [fresh]
  have files : ∀ {keys : List Str} {l₁ l₂ : Local} {snapshot wal : Bytes},
      l₂.files = (targetPath, snapshot) :: l₁.files → l₁.files = l.files →
      l'.files = (if keys = [] then l₂.files
        else (targetPath ++ ['-', 'w', 'a', 'l'], wal) :: l₂.files) →
      l'.files = overwritten targetPath keys snapshot wal l.files := by
    intro keys l₁ l₂ snapshot wal written kept last
    rw [last, written, kept, overwritten]
  cases time with
  | none =>
    obtain ⟨result, _, l₁, got, rest⟩ := Op.runs_bind_attempt.mp run
    obtain ⟨times, tried, ⟨e, rfl⟩ | ⟨genBytes, rfl, marked⟩⟩ := runs_getObject config got
    · cases (Op.runs_throw.mp rest).1
    cases named : fromUtf8 genBytes with
    | none =>
      simp only [named] at rest
      cases (Op.runs_throw.mp rest).1
    | some generation =>
      simp only [named] at rest
      obtain ⟨_, _, l₂, writes, selects⟩ := Op.runs_bind_ok.mp rest
      obtain ⟨keys, _, l₃, picks, replays⟩ := Op.runs_bind_ok.mp selects
      obtain ⟨snapshot, snap, files₂, only₂⟩ := runs_writeSnapshot writes
      have other : ∀ {o o' : Object}, o ≠ o' → getCall config o.key ≠ getCall config o'.key :=
        fun differ same => differ (Object.key_injective (getCall_inj.mp same))
      have freshGet : l₂.denied.count (getCall config (Object.manifest generation).key) = 0 := by
        rw [only₂ _ (by simpa using other (by simp)), tried.others (other (by simp)), count]
      have freshList : l₂.denied.count (listCall config (walDirectory generation)) = 0 := by
        rw [only₂ _ (by simp [listCall, getCall]), tried.others (by simp [listCall, getCall]), count]
      obtain ⟨same, files₃⟩ := runs_segmentKeys freshGet freshList picks
      obtain rfl := Except.ok.inj same
      obtain ⟨wal, held, files₄, only₄⟩ := runs_replaySegments replays
      refine ⟨generation, standIn config b l₃.denied generation, snapshot, wal, ?_, snap, held, ?_⟩
      · have marked' : object config b .latest = some genBytes := marked
        rw [selectionBut, marked', Option.bind_some, named, Option.map_some, standIn_lasting only₄]
      · rw [files₃] at files₄
        exact files files₂ tried.files files₄
  | some timestampMs =>
    obtain ⟨allKeys, _, l₁, lists, rest⟩ := Op.runs_bind_ok.mp run
    obtain ⟨manifests, _, l₂, reads, rest⟩ := Op.runs_bind_ok.mp rest
    obtain ⟨times, tried, ⟨e, failed⟩ | ⟨_, ok, rfl⟩⟩ := runs_listKeys config lists
    · cases failed
    cases ok
    have fresh₁ : ∀ key, l₁.denied.count (getCall config key) = 0 := fun key => by
      rw [tried.others (by simp [listCall, getCall]), count]
    obtain ⟨same, files₂, -⟩ := runs_pitrManifests nodup_listing (fun key _ _ => fresh₁ key) reads
    obtain rfl : manifests = readableBut config b l₂.denied := Except.ok.inj same
    split at rest
    · cases (Op.runs_throw.mp rest).1
    cases picked : selectManifest (readableBut config b l₂.denied) timestampMs with
    | none =>
      simp only [picked] at rest
      cases (Op.runs_throw.mp rest).1
    | some manifest =>
      simp only [picked] at rest
      obtain ⟨_, _, l₃, writes, replays⟩ := Op.runs_bind_ok.mp rest
      obtain ⟨snapshot, snap, files₃, only₃⟩ := runs_writeSnapshot writes
      obtain ⟨wal, held, files₄, only₄⟩ := runs_replaySegments replays
      refine ⟨manifest.generation, _, snapshot, wal, ?_, snap, held, ?_⟩
      · have lasting : readableBut config b l'.denied = readableBut config b l₂.denied := by
          apply readableBut_congr
          intro key suffixed
          refine (only₄ _ ?_).trans (only₃ _ ?_)
          · intro key' member
            obtain ⟨s, -, rfl⟩ := List.mem_map.mp member
            exact getCall_ne_of_suffix suffixed (by simp)
          · intro key' member
            rw [List.mem_singleton.mp member]
            exact getCall_ne_of_suffix suffixed (by simp)
        rw [selectionBut, lasting, picked, Option.map_some]
      · exact files files₃ (files₂.trans tried.files) files₄

end

end Waloy.Spec
