import Waloy.Effect.Unhalted
import Waloy.Spec.Aligned
import Waloy.Spec.Machine
import Waloy.Spec.Sync

/-!
# Segments are cut at frame boundaries

Successive syncs read a WAL file with any content, while all other calls may be answered in
any way. No sync panics over a slice, and every segment it uploads goes on where the last one
ended, or starts anew, and ends at the last frame boundary of the file.
-/
namespace Waloy.Spec
open Waloy.Effect Waloy.Source Waloy.Source.BackupManager

variable {pf : Platform}

section
variable (s3 : S3Client)

/-- An upload to the key of a segment. -/
def IsSegmentPut (c : Call) : Prop :=
  ∃ generation index data, c = .putObject (s3.fullKey (Object.segment generation index).key) data

/-- What a method keeps that may take a snapshot: the WAL offset, unless it is reset. -/
structure Settled (I : BackupManager pf.build → Prop) : Prop where
  client : ∀ {m}, I m → m.s3 = s3
  keeps : ∀ {m m' : BackupManager pf.build}, I m → m'.s3 = m.s3 →
    m'.walOffset = m.walOffset ∨ m'.walOffset = 0 → I m'

end

/-- The client is the same, and so is the WAL offset unless it was reset. -/
def KeepsOffset (m m' : BackupManager pf.build) : Prop :=
  m'.s3 = m.s3 ∧ (m'.walOffset = m.walOffset ∨ m'.walOffset = 0)

theorem settled_keepsOffset (m : BackupManager pf.build) : Settled m.s3 (KeepsOffset m) where
  client h := h.1
  keeps := by
    rintro m' m'' ⟨client, kept⟩ same (still | reset)
    · exact ⟨same.trans client, still ▸ kept⟩
    · exact ⟨same.trans client, .inr reset⟩

section
variable {s3 : S3Client} {allowed : Call → Prop} (permits : ∀ c, ¬ IsSegmentPut s3 c → allowed c)
include permits

theorem permits_of_other {c : Call} (other : ∀ key data, c ≠ .putObject key data) : allowed c := by
  refine permits c ?_
  rintro ⟨generation, index, data, same⟩
  exact other _ _ same

section
variable {σ α : Type} {I : σ → Prop}

omit permits in
theorem unhalted_orFail {wrap : String → Error} {x : M σ (Except String α)}
    (hx : Op.Unhalted allowed I x) : Op.Unhalted allowed I (orFail wrap x) := by
  refine hx.bind ?_
  rintro (_ | _)
  · exact Op.unhalted_throw _
  · exact Op.unhalted_pure _

theorem unhalted_retry {f : M σ α} (hf : Op.Unhalted allowed I f) :
    Op.Unhalted allowed I (S3Client.retry f) := by
  suffices ∀ left attempt, Op.Unhalted allowed I (S3Client.retryFrom f left attempt) from this _ _
  intro left
  induction left with
  | zero => exact fun _ => hf
  | succ left ih =>
    intro attempt
    refine hf.attempt.bind ?_
    rintro (_ | _)
    · exact (Op.unhalted_call (permits_of_other permits (by simp))).bind fun _ => ih _
    · exact Op.unhalted_pure _

theorem unhalted_nowMs : Op.Unhalted allowed I (nowMs : M σ Nat) := by
  refine (Op.unhalted_call (permits_of_other permits (by simp))).bind ?_
  rintro (_ | _)
  · exact Op.unhalted_pure _
  · exact Op.unhalted_pure _

theorem unhalted_pipelineEncode {config : BackupConfig pf.build} (data : Bytes) :
    Op.Unhalted allowed I (pipelineEncode pf config data : M σ Bytes) := by
  unfold pipelineEncode
  refine (Op.unhalted_ofExcept _).bind fun compressed => ?_
  refine Op.Unhalted.ite (fun _ => ?_) fun _ => Op.unhalted_pure _
  cases config.encryptionKey with
  | none => exact Op.unhalted_pure _
  | some key =>
    refine (Op.unhalted_call (permits_of_other permits (by simp))).bind fun salt => ?_
    refine (Op.unhalted_call (permits_of_other permits (by simp))).bind fun nonce => ?_
    exact Op.unhalted_ofExcept _

theorem unhalted_putObject {o : Object} (other : ∀ generation index, o ≠ .segment generation index)
    (data : Bytes) : Op.Unhalted allowed I (s3.putObject o.key data : M σ Unit) := by
  refine unhalted_retry permits (unhalted_orFail (Op.unhalted_call (permits _ ?_)))
  rintro ⟨generation, index, data', same⟩
  have key := S3Client.fullKey_injective s3 (Call.putObject.inj same).1
  exact other generation index (Object.key_injective key)

end

section
variable {I : BackupManager pf.build → Prop} (settled : Settled s3 I)
include settled

theorem unhalted_uploadManifest : Op.Unhalted allowed I (uploadManifest pf) := by
  refine Op.unhalted_get fun self hself => ?_
  refine (Op.unhalted_ofExcept _).bind fun json => ?_
  rw [settled.client hself]
  exact (unhalted_pipelineEncode permits json).bind fun encoded =>
    unhalted_putObject permits (by simp) _

theorem unhalted_snapshot : Op.Unhalted allowed I (snapshot pf) := by
  have quiet : ∀ {c : Call}, (∀ key data, c ≠ .putObject key data) → allowed c :=
    permits_of_other permits
  refine Op.unhalted_get fun self hself => ?_
  rw [settled.client hself]
  refine (unhalted_orFail (Op.unhalted_call (quiet (by simp)))).bind fun rawData => ?_
  refine (unhalted_pipelineEncode permits rawData).bind fun data => ?_
  refine (unhalted_putObject permits (by simp) _).bind fun _ => ?_
  refine (unhalted_putObject permits (by simp) _).bind fun _ => ?_
  refine Op.Unhalted.bind (Op.unhalted_modify fun _ h => settled.keeps h rfl (.inr rfl)) fun _ => ?_
  refine (Op.unhalted_call (quiet (by simp))).bind fun _ => ?_
  refine Op.Unhalted.bind (Op.unhalted_modify fun _ h => settled.keeps h rfl (.inl rfl)) fun _ => ?_
  refine (Op.unhalted_call (quiet (by simp))).bind fun _ => ?_
  refine Op.Unhalted.bind (Op.unhalted_modify fun _ h => settled.keeps h rfl (.inl rfl)) fun _ => ?_
  refine (unhalted_nowMs permits).bind fun now => ?_
  refine Op.Unhalted.bind (Op.unhalted_modify fun _ h => settled.keeps h rfl (.inl rfl)) fun _ => ?_
  exact unhalted_uploadManifest permits settled

theorem unhalted_recover : Op.Unhalted allowed I (recover pf) := by
  have quiet : ∀ {c : Call}, (∀ key data, c ≠ .putObject key data) → allowed c :=
    permits_of_other permits
  have ended : Op.Unhalted allowed I (endReadTransaction pf) := by
    refine Op.unhalted_get fun self _ => Op.Unhalted.ite (fun _ => ?_) fun _ => Op.unhalted_pure _
    refine (Op.unhalted_call (quiet (by simp))).bind fun _ => ?_
    exact Op.unhalted_modify fun _ h => settled.keeps h rfl (.inl rfl)
  have started : Op.Unhalted allowed I (startGeneration pf) := by
    refine (Op.unhalted_call (quiet (by simp))).bind fun generation => ?_
    refine Op.Unhalted.bind (Op.unhalted_modify fun _ h => settled.keeps h rfl (.inl rfl)) fun _ => ?_
    refine (unhalted_nowMs permits).bind fun now => ?_
    exact Op.unhalted_modify fun _ h => settled.keeps h rfl (.inl rfl)
  have begun : Op.Unhalted allowed I (beginReadTransaction pf) := by
    refine Op.unhalted_get fun self _ => Op.Unhalted.ite (fun _ => Op.unhalted_pure _) fun _ => ?_
    refine (unhalted_orFail (Op.unhalted_call (quiet (by simp)))).bind fun _ => ?_
    refine (unhalted_orFail (Op.unhalted_call (quiet (by simp)))).bind fun _ => ?_
    exact Op.unhalted_modify fun _ h => settled.keeps h rfl (.inl rfl)
  refine ended.bind fun _ => started.bind fun _ => ?_
  exact (unhalted_snapshot permits settled).bind fun _ => begun

end
end

section
variable {m : BackupManager pf.build} {walData : Bytes} {alignedLen : Nat}

/-- The index of a segment has a successor: it is counted without overflow checks, or small. -/
def Countable (build : Build) (index : Nat) : Prop :=
  build.overflowChecks = true → index + 1 < 2 ^ 32

theorem Countable.isSome {build : Build} {index : Nat} (countable : Countable build index) :
    (incrementU32 build index).isSome := by
  unfold incrementU32
  by_cases room : index + 1 < 2 ^ 32
  · rw [if_pos room]
    rfl
  · have unchecked : ¬ build.overflowChecks = true := fun checks => room (countable checks)
    rw [if_neg room, if_neg unchecked]
    rfl

theorem ends_uploadSegment (sliced : (slice walData m.walOffset alignedLen).isSome)
    (countable : Countable pf.build m.walIndex) :
    (uploadSegment pf walData alignedLen m).Ends (fun _ => True) fun _ => True := by
  let I (m' : BackupManager pf.build) : Prop := m'.s3 = m.s3
  have any : ∀ c, ¬ IsSegmentPut m.s3 c → True := fun _ _ => trivial
  have settled : Settled m.s3 I := ⟨fun h => h, fun h same _ => same.trans h⟩
  obtain ⟨newData, cut⟩ := Option.isSome_iff_exists.mp sliced
  have put (o : Object) (data : Bytes) : Op.Unhalted (fun _ => True) I
      (m.s3.putObject o.key data : Method pf Unit) :=
    unhalted_retry any (unhalted_orFail (Op.unhalted_call trivial))
  unfold uploadSegment
  rw [Op.ends_get, cut]
  refine Op.Unhalted.next (I := I) (Op.unhalted_pure newData) rfl fun _ _ same => ?_
  refine Op.Unhalted.next (I := I) (unhalted_pipelineEncode any _) same fun encoded _ same => ?_
  refine (put _ _).next same fun _ _ same => ?_
  refine Op.Unhalted.next (I := I) (unhalted_nowMs any) same fun now _ same => ?_
  rw [Op.ends_modify]
  refine (unhalted_uploadManifest any settled).next same fun _ _ same => ?_
  refine Op.Unhalted.next (I := I) (Op.unhalted_call trivial) same fun time _ same => ?_
  rw [Op.ends_modify]
  refine Op.Unhalted.next (I := I) (Op.unhalted_ofOption countable.isSome) same fun _ _ _ => ?_
  trivial

/-- No sync panics, whatever the WAL file contains and whatever the calls are answered. -/
theorem ends_syncWal (countable : Countable pf.build m.walIndex) :
    (syncWal pf m).Ends (fun _ => True) fun _ => True := by
  have any : ∀ c, ¬ IsSegmentPut m.s3 c → True := fun _ _ => trivial
  have settled : Settled m.s3 fun m' : BackupManager pf.build => m'.s3 = m.s3 :=
    ⟨fun h => h, fun h same _ => same.trans h⟩
  unfold syncWal
  rw [Op.ends_get]
  refine Op.Unhalted.next (I := (m = ·)) (Op.unhalted_call trivial) rfl ?_
  rintro found _ rfl
  by_cases missing : found ≠ .ok true
  · rw [if_pos missing]
    trivial
  rw [if_neg missing]
  refine Op.Unhalted.next (I := (m = ·)) (unhalted_orFail (Op.unhalted_call trivial)) rfl ?_
  rintro walData _ rfl
  dsimp only
  by_cases short : walData.length ≤ walHeaderSize
  · rw [if_pos short]
    trivial
  by_cases broken : m.walNeedsRecovery pf walData walData.length = true
  · rw [if_neg short, if_pos broken]
    exact (unhalted_recover any settled).next rfl fun _ _ _ => trivial
  rw [if_neg short, if_neg broken, Op.ends_modify]
  by_cases covered : walAlignedLen walData ≤ walHeaderSize ∨ walAlignedLen walData ≤ m.walOffset
  · rw [if_pos covered]
    trivial
  rw [if_neg covered]
  have same : (m.captureSalt pf walData).walOffset = m.walOffset ∧
      (m.captureSalt pf walData).walIndex = m.walIndex := by
    unfold captureSalt
    split <;> exact ⟨rfl, rfl⟩
  have new : m.walOffset < walAlignedLen walData := by omega
  have uploads : (uploadSegment pf walData (walAlignedLen walData)
      (m.captureSalt pf walData)).Ends (fun _ => True) fun _ => True := by
    refine ends_uploadSegment ?_ ?_
    · rw [same.1, slice_aligned walData new]
      rfl
    · rw [same.2]
      exact countable
  refine Prog.ends_bind.mpr (uploads.mono ?_)
  rintro ⟨_ | _, _⟩ _ <;> trivial

end

/-- The WAL file has one content whenever it is read; all other calls may be answered in any
way. The world tells whether a segment was put. -/
def syncing (m : BackupManager pf.build) (walData : Bytes) : Server Calls Bool :=
  fun sent c reply sent' =>
    (match c, reply with
      | .readFile path, .ok data => path = m.walPath pf → data = walData
      | .fillBytes n, bytes => bytes.length = n
      | _, _ => True) ∧
    (IsSegmentPut m.s3 c ∧ sent' = true ∨ ¬ IsSegmentPut m.s3 c ∧ sent' = sent)

/-- A segment is the part of the WAL file from the offset to the last frame boundary. -/
def cutsFrames (m : BackupManager pf.build) (walData : Bytes) : Server Calls Bool :=
  fun _ c _ _ => IsSegmentPut m.s3 c → ∃ stop chunk data, LastBoundary walData stop ∧
    m.walOffset < stop ∧ slice walData m.walOffset stop = some chunk ∧
    Encodes pf m.config chunk data ∧
    c = .putObject (m.s3.fullKey (Object.segment m.generation m.walIndex).key) data

section
variable {m : BackupManager pf.build} {walData : Bytes}

/-- What asks for no upload of a segment puts none, and keeps the offset or resets it. -/
theorem wp_cuts {α : Type} {x : Method pf α} {m' : BackupManager pf.build} {sent : Bool}
    (hx : Op.Unhalted (fun c => ¬ IsSegmentPut m.s3 c) (KeepsOffset m) x) (kept : KeepsOffset m m') :
    Op.wp (syncing m walData) (cutsFrames m walData) x
      (fun _ m' sent' => KeepsOffset m m' ∧ sent' = sent)
      (fun _ m' sent' => KeepsOffset m m' ∧ sent' = sent) m' sent := by
  refine hx.within.wp (J := (· = sent)) ?_ kept rfl
  rintro before c reply after rfl other ⟨-, ⟨segment, -⟩ | ⟨-, same⟩⟩
  · exact absurd segment other
  · exact ⟨fun segment => absurd segment other, same⟩

theorem wp_uploadSegment_cuts (frames : walHeaderSize < walAlignedLen walData)
    (new : m.walOffset < walAlignedLen walData) :
    Op.wp (syncing m walData) (cutsFrames m walData)
      (uploadSegment pf walData (walAlignedLen walData))
      (fun _ m' sent => sent = true ∧ m'.walOffset = walAlignedLen walData)
      (fun _ m' _ => KeepsOffset m m') m false := by
  have kept : KeepsOffset m m := ⟨rfl, .inl rfl⟩
  simp only [uploadSegment, Op.wp_bind, Op.wp_get, Op.wp_ofOption]
  intro chunk cut
  refine wp_pipelineEncode_of m.config (J := (· = false)) ?_ rfl ?_ fun _ _ _ _ => kept
  · rintro _ n bytes sent rfl ⟨filled, ⟨⟨_, _, _, same⟩, -⟩ | ⟨other, same⟩⟩
    · cases same
    · exact ⟨fun segment => absurd segment other, filled, same⟩
  rintro encoded _ rfl encodes
  have boundary := lastBoundary_walAlignedLen frames
  have segment : IsSegmentPut m.s3
      (.putObject (m.s3.fullKey (Object.segment m.generation m.walIndex).key) encoded) :=
    ⟨_, _, _, rfl⟩
  -- every attempt puts the same bytes under the same key
  refine wp_attempts (I := fun _ _ => True) (J := fun _ _ => True) ?_ ?_ (fun _ _ _ => kept) trivial
  · intro _ before _
    refine (wp_orFail _ _).mpr (Op.wp_call.mpr fun reply after served => ?_)
    refine ⟨fun _ => ⟨_, chunk, encoded, boundary, new, cut, encodes, rfl⟩, ?_⟩
    cases reply with
    | error e => exact ⟨rfl, trivial⟩
    | ok =>
      obtain ⟨-, sent⟩ | ⟨other, -⟩ := served.2
      · subst sent
        have quiet : ∀ c, ¬ IsSegmentPut m.s3 c → ¬ IsSegmentPut m.s3 c := fun _ h => h
        refine Op.wp_mono (wp_cuts (unhalted_nowMs quiet) kept) ?_ fun _ _ _ ended => ended.1
        rintro now m₁ _ ⟨kept, rfl⟩
        rw [Op.wp_modify]
        refine Op.wp_mono (wp_cuts (unhalted_uploadManifest quiet (settled_keepsOffset m)) kept) ?_
          fun _ _ _ ended => ended.1
        rintro _ m₂ _ ⟨kept, rfl⟩
        have time : ¬ IsSegmentPut m.s3 .instantNow := by
          rintro ⟨_, _, _, same⟩
          cases same
        refine Op.wp_mono (wp_cuts (Op.unhalted_call time) kept) ?_ fun _ _ _ ended => ended.1
        rintro now m₃ _ ⟨-, rfl⟩ next -
        exact ⟨rfl, rfl⟩
      · exact absurd segment other
  · rintro _ before ms reply after - -
    refine ⟨?_, trivial⟩
    rintro ⟨_, _, _, same⟩
    cases same

variable (m walData) in
theorem captureSalt_cuts : syncing (m.captureSalt pf walData) walData = syncing m walData ∧
    cutsFrames (m.captureSalt pf walData) walData = cutsFrames m walData ∧
    KeepsOffset (m.captureSalt pf walData) = KeepsOffset m ∧
    (m.captureSalt pf walData).walOffset = m.walOffset := by
  unfold captureSalt
  split <;> exact ⟨rfl, rfl, rfl, rfl⟩

/-- A sync puts nothing but the next segment, and reports whether it did. -/
theorem wp_syncWal_cuts : Op.wp (syncing m walData) (cutsFrames m walData) (syncWal pf)
    (fun uploaded m' sent => sent = uploaded ∧ (uploaded = true →
        walHeaderSize < walAlignedLen walData ∧ m'.walOffset = walAlignedLen walData) ∧
      (uploaded = false → KeepsOffset m m'))
    (fun _ m' _ => KeepsOffset m m') m false := by
  have kept : KeepsOffset m m := ⟨rfl, .inl rfl⟩
  have nothing {m'} (h : KeepsOffset m m') : false = false ∧ (false = true →
      walHeaderSize < walAlignedLen walData ∧ m'.walOffset = walAlignedLen walData) ∧
      (false = false → KeepsOffset m m') := ⟨rfl, by simp, fun _ => h⟩
  have found : ¬ IsSegmentPut m.s3 (.tryExists (m.walPath pf)) := by
    rintro ⟨_, _, _, same⟩
    cases same
  have reads : ¬ IsSegmentPut m.s3 (.readFile (m.walPath pf)) := by
    rintro ⟨_, _, _, same⟩
    cases same
  simp only [syncWal, Op.wp_bind, Op.wp_get]
  refine Op.wp_call.mpr fun reply sent served => ⟨fun segment => absurd segment found, ?_⟩
  obtain ⟨-, ⟨segment, -⟩ | ⟨-, rfl⟩⟩ := served
  · exact absurd segment found
  refine Op.wp_ite (fun _ => nothing kept) fun _ => ?_
  simp only [Op.wp_bind, wp_orFail]
  refine Op.wp_call.mpr fun reply sent served => ⟨fun segment => absurd segment reads, ?_⟩
  obtain ⟨content, ⟨segment, -⟩ | ⟨-, rfl⟩⟩ := served
  · exact absurd segment reads
  cases reply with
  | error e => exact kept
  | ok data =>
    obtain rfl : data = walData := content rfl
    refine Op.wp_ite (fun _ => nothing kept) fun _ => Op.wp_ite (fun _ => ?_) fun _ => ?_
    · simp only [Op.wp_bind]
      have quiet : ∀ c, ¬ IsSegmentPut m.s3 c → ¬ IsSegmentPut m.s3 c := fun _ h => h
      refine Op.wp_mono (wp_cuts (unhalted_recover quiet (settled_keepsOffset m)) kept) ?_
        fun _ _ _ ended => ended.1
      rintro _ m' _ ⟨kept, rfl⟩
      exact nothing kept
    · obtain ⟨sameServer, sameGuard, sameKept, sameOffset⟩ := captureSalt_cuts m data
      simp only [Op.wp_bind, Op.wp_modify]
      refine Op.wp_ite (fun _ => nothing (sameKept ▸ ⟨rfl, .inl rfl⟩)) fun new => ?_
      rw [not_or, Nat.not_le, Nat.not_le] at new
      have uploads := wp_uploadSegment_cuts new.1 (sameOffset.symm ▸ new.2)
      rw [sameServer, sameGuard, sameKept] at uploads
      simp only [Op.wp_bind]
      refine Op.wp_mono uploads ?_ fun _ _ _ kept => kept
      rintro _ m' _ ⟨rfl, offset⟩
      exact ⟨rfl, fun _ => ⟨new.1, offset⟩, by simp⟩

end

/-- Syncs one after the other, each with its own content of the WAL file, from offset zero on;
with the end of the last segment that one of them uploaded without an error. -/
inductive Synced : List Bytes → Nat → BackupManager pf.build → Prop where
  | start {m : BackupManager pf.build} (offset : m.walOffset = 0) : Synced [] 0 m
  | uploaded {contents : List Bytes} {last stop : Nat} {m m' : BackupManager pf.build}
      {walData : Bytes} {value : Bool} (before : Synced contents last m)
      (run : Op.Runs (syncing m walData) (syncWal pf) m false (.ok value) m' true)
      (boundary : LastBoundary walData stop) : Synced (contents ++ [walData]) stop m'
  | other {contents : List Bytes} {last : Nat} {m m' : BackupManager pf.build} {walData : Bytes}
      {r : Except Error Bool} {sent : Bool} (before : Synced contents last m)
      (run : Op.Runs (syncing m walData) (syncWal pf) m false r m' sent)
      (without : ∀ value, r = .ok value → sent = false) : Synced (contents ++ [walData]) last m'

/-- The next sync, with any content of the WAL file. -/
structure CutsAligned (contents : List Bytes) (last : Nat) (m : BackupManager pf.build)
    (walData : Bytes) : Prop where
  checked : walAlignedLenU64 walData = some (walAlignedLen walData)
  inside : walAlignedLen walData ≤ walData.length
  sliced : m.walOffset < walAlignedLen walData →
    (slice walData m.walOffset (walAlignedLen walData)).isSome
  unhalted : Countable pf.build m.walIndex → (syncWal pf m).Ends (fun _ => True) fun _ => True
  grows : ∀ earlier ∈ contents, earlier <+: walData → walAlignedLen earlier ≤ walAlignedLen walData
  starts : m.walOffset = 0 ∨ m.walOffset = last
  cuts : Op.wp (syncing m walData) (cutsFrames m walData) (syncWal pf)
    (fun uploaded _ sent => sent = uploaded) (fun _ _ _ => True) m false

section
variable {contents : List Bytes} {last : Nat} {m : BackupManager pf.build} {walData : Bytes}

theorem LastBoundary.unique {stop stop' : Nat} (h : LastBoundary walData stop)
    (h' : LastBoundary walData stop') : stop = stop' := by
  obtain ⟨k, rfl, largest⟩ := h.largest
  obtain ⟨k', rfl, largest'⟩ := h'.largest
  have le : k ≤ k' := (largest' k).mp ((largest k).mpr (Nat.le_refl k))
  have ge : k' ≤ k := (largest k').mp ((largest' k').mpr (Nat.le_refl k'))
  rw [Nat.le_antisymm le ge]

/-- The offset is zero or the end of the last segment that was uploaded. -/
theorem Synced.offset (synced : Synced contents last m) : m.walOffset = 0 ∨ m.walOffset = last := by
  have resets {m m' : BackupManager pf.build} {last : Nat} (kept : KeepsOffset m m')
      (ih : m.walOffset = 0 ∨ m.walOffset = last) : m'.walOffset = 0 ∨ m'.walOffset = last := by
    obtain ⟨-, same | reset⟩ := kept
    · rwa [same]
    · exact .inl reset
  induction synced with
  | start offset => exact .inl offset
  | uploaded before run boundary ih =>
    obtain ⟨reported, advanced, -⟩ := (run.of_wp wp_syncWal_cuts).1 _ rfl
    obtain ⟨frames, offset⟩ := advanced reported.symm
    rw [offset]
    exact .inr ((lastBoundary_walAlignedLen frames).unique boundary)
  | @other contents last m m' walData r sent before run without ih =>
    obtain ⟨returned, failed⟩ := run.of_wp wp_syncWal_cuts
    cases r with
    | error e => exact resets (failed e rfl) ih
    | ok value =>
      obtain ⟨reported, -, kept⟩ := returned value rfl
      exact resets (kept (reported ▸ without value rfl)) ih

/-- Whatever the contents before, the next sync cuts its segment at frame boundaries. -/
theorem cutsAligned_of_synced (synced : Synced contents last m) (fits : walData.length < 2 ^ 64) :
    CutsAligned contents last m walData where
  checked := walAlignedLenU64_eq fits
  inside := walAlignedLen_le_length walData
  sliced new := by
    rw [slice_aligned walData new]
    rfl
  unhalted := ends_syncWal
  grows _ _ := walAlignedLen_mono
  starts := synced.offset
  cuts := Op.wp_mono wp_syncWal_cuts (fun _ _ _ exit => exit.1) fun _ _ _ _ => trivial

end

/-- A manager takes its first segment from a WAL file, and everything succeeds. -/
def firstSync (walData : Bytes) (sent : Bool) : (c : Call) → Option (c.Reply × Bool)
  | .tryExists _ => some (.ok true, sent)
  | .readFile _ => some (.ok walData, sent)
  | .putObject key _ =>
    if key = objectKey plainConfig (.segment (uuid 0) 0) then some (.ok (), true)
    else if key = objectKey plainConfig (.manifest (uuid 0)) then some (.ok (), sent)
    else none
  | .systemTime => some (.ok 2000, sent)
  | .instantNow => some (0, sent)
  | _ => none

theorem firstSync_served {walData : Bytes} {sent sent' : Bool} {c : Call} {reply : c.Reply}
    (h : firstSync walData sent c = some (reply, sent')) :
    syncing (plainManager [] 0 0) walData sent c reply sent' := by
  cases c with
  | putObject key data =>
    simp only [firstSync] at h
    split at h
    case isTrue segment =>
      cases h
      exact ⟨trivial, .inl ⟨⟨_, _, data, congrArg (Call.putObject · data) segment⟩, rfl⟩⟩
    case isFalse =>
      split at h
      case isTrue manifest =>
        cases h
        refine ⟨trivial, .inr ⟨?_, rfl⟩⟩
        rintro ⟨generation, index, data', same⟩
        have key := S3Client.fullKey_injective _ (manifest.symm.trans (Call.putObject.inj same).1)
        cases Object.key_injective key
      case isFalse => cases h
  | readFile path =>
    cases h
    refine ⟨fun _ => rfl, .inr ⟨?_, rfl⟩⟩
    rintro ⟨_, _, _, ⟨⟩⟩
  | tryExists | systemTime | instantNow =>
    cases h
    refine ⟨trivial, .inr ⟨?_, rfl⟩⟩
    rintro ⟨_, _, _, ⟨⟩⟩
  | _ => cases h

/-- A second frame is there at the second sync, and a part of a third one. -/
theorem cutsAligned_of_synced_second : ∃ m : BackupManager plain.build, m.walOffset = 568 ∧
    CutsAligned [walHeader 7 ++ walFrame 1] 568 m
      (walHeader 7 ++ walFrame 1 ++ walFrame 2 ++ List.replicate 100 3) := by
  have played : ((syncWal plain (plainManager [] 0 0)).interp
      (firstSync (walHeader 7 ++ walFrame 1)) false).any (fun out =>
        out.1.1.toOption = some true ∧ out.1.2.walOffset = 568 ∧ out.2 = true) = true := by
    decide +kernel
  obtain ⟨⟨⟨r, m⟩, sent⟩, ran, checked⟩ := (Option.any_eq_true _ _).mp played
  obtain ⟨returned, offset, rfl⟩ := of_decide_eq_true checked
  obtain rfl := eq_ok_of_toOption returned
  have boundary : LastBoundary (walHeader 7 ++ walFrame 1) 568 := by
    have frames : walAlignedLen (walHeader 7 ++ walFrame 1) = 568 := by decide +kernel
    exact frames ▸ lastBoundary_walAlignedLen (by decide +kernel)
  have run : Op.Runs (syncing (plainManager [] 0 0) (walHeader 7 ++ walFrame 1)) (syncWal plain)
      (plainManager [] 0 0) false (.ok true) m true :=
    Steps.of_interp (fun _ _ _ _ => firstSync_served) _ _ ran
  have synced : Synced [walHeader 7 ++ walFrame 1] 568 m := .uploaded (.start rfl) run boundary
  exact ⟨m, offset, cutsAligned_of_synced synced (by decide +kernel)⟩

end Waloy.Spec
