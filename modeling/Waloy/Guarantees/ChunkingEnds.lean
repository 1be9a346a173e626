import Waloy.Guarantees.CrashSafety
import Waloy.Spec.Cutting

/-!
# The chunking loop ends

A caller may ask for chunks of any size, and the code does not look at it. With a size of zero
the loop uploads an empty chunk in each iteration and goes on for good, unless there is nothing
to upload.
-/
namespace Waloy.Spec
open Waloy.Effect Waloy.Source Waloy.Source.BackupManager

variable {pf : Platform}

/-- From some fuel on, more fuel makes no difference: the loop comes to its end. -/
def LoopEnds (m : BackupManager pf.build) (allData : Bytes) (maxSize : Nat) : Prop :=
  ∃ enough, ∀ fuel, enough ≤ fuel →
    uploadChunks pf m allData maxSize fuel 0 m.walIndex =
      uploadChunks pf m allData maxSize enough 0 m.walIndex

/-- The random sources fill what they are given. -/
def filling : Server Calls Unit := fun _ c reply _ =>
  match c, reply with
  | .fillBytes n, bytes => bytes.length = n
  | _, _ => True

/-- What is uploaded encodes a chunk that is not empty. -/
def putsSomething (config : BackupConfig pf.build) : Server Calls Unit := fun _ c _ _ =>
  ∀ key data, c = .putObject key data → ∃ chunk, chunk ≠ [] ∧ Encodes pf config chunk data

/-- Each iteration uploads a chunk that is not empty, however far the loop runs. -/
def UploadsSomething (m : BackupManager pf.build) (allData : Bytes) (maxSize : Nat) : Prop :=
  ∀ fuel, Op.wp filling (putsSomething m.config)
    (uploadChunks pf m allData maxSize fuel 0 m.walIndex) (fun _ _ _ => True) (fun _ _ _ => True)
    m ()

/-- What the crates promise of an encoding: it does not fail, and what it encodes can be told
from it. -/
structure Lossless (config : BackupConfig pf.build) : Prop where
  encodes : ∀ data r, EncodesTo pf config data r → ∃ encoded, r = .ok encoded
  distinct : ∀ {data data' encoded}, Encodes pf config data encoded →
    Encodes pf config data' encoded → data = data'

section
variable {config : BackupConfig pf.build} {σ : Type} {s : σ} {m self : BackupManager pf.build}
  {allData : Bytes} {maxSize : Nat}

theorem Lossless.exists_encoded (lossless : Lossless config) (data : Bytes) :
    ∃ encoded, Encodes pf config data encoded := by
  obtain ⟨encoded, same⟩ := lossless.encodes data _
    ⟨List.replicate saltLen 0, List.replicate nonceLen 0, List.length_replicate,
      List.length_replicate, rfl⟩
  exact ⟨encoded, _, _, List.length_replicate, List.length_replicate, same⟩

/-- Random sources that may fill in any bytes lead to any encoding. -/
theorem runs_pipelineEncode {W : Type} {serve : Server Calls W} {w : W} {data encoded : Bytes}
    (fills : ∀ n bytes, bytes.length = n → serve w (.fillBytes n) bytes w)
    (encodes : Encodes pf config data encoded) :
    Op.Runs serve (pipelineEncode pf config data) s w (.ok encoded) s w := by
  obtain ⟨salt, nonce, salted, nonced, result⟩ := encodes
  unfold pipelineEncode
  cases compressed : compress pf data config.compression with
  | error e => simp [encodeWith, compressed, bind, Except.bind] at result
  | ok bytes =>
    refine Op.Runs.bind (Op.runs_ofExcept.mpr ⟨rfl, rfl, rfl⟩) ?_
    by_cases feature : pf.build.encryption = true
    · cases hkey : config.encryptionKey with
      | none =>
        simp only [encodeWith, compressed, feature, hkey, if_true, bind, Except.bind] at result
        cases result
        simp [feature]
      | some key =>
        simp only [encodeWith, compressed, feature, hkey, if_true, bind, Except.bind] at result
        simp only [feature, if_true, encrypt]
        refine Op.runs_bind_call.mpr ⟨salt, w, fills _ _ salted, ?_⟩
        refine Op.runs_bind_call.mpr ⟨nonce, w, fills _ _ nonced, ?_⟩
        exact Op.runs_ofExcept.mpr ⟨result.symm, rfl, rfl⟩
    · simp only [encodeWith, compressed, feature, bind, Except.bind, Bool.false_eq_true,
        if_false] at result
      cases result
      simp [feature]

/-- An upload with its retries puts these bytes and nothing else. -/
theorem meets_putObject {s3 : S3Client} {key : Str} {chunk data : Bytes} (some : chunk ≠ [])
    (encodes : Encodes pf config chunk data) :
    Op.Meets filling (putsSomething config) (s3.putObject key data : M σ Unit) := by
  have uses : Op.Uses (fun c => isFetchCall c = true ∨ c = Call.putObject (s3.fullKey key) data)
      (s3.putObject key data : M σ Unit) :=
    uses_retry (fun _ h => .inl h) (uses_orFail _ (Op.uses_call (.inr rfl)))
  refine uses.meets ?_
  rintro _ c reply _ (fetch | rfl) -
  · intro key data same
    subst same
    cases fetch
  · intro key' data' same
    cases same
    exact ⟨chunk, some, encodes⟩

theorem meets_nowMs : Op.Meets filling (putsSomething config) (nowMs : M σ Nat) := by
  refine (Op.meets_call fun _ _ _ _ _ _ same => ?_).bind ?_
  · cases same
  · rintro (_ | _)
    · exact Op.meets_pure _
    · exact Op.meets_pure _

/-- A step of one byte or more leaves no chunk empty. -/
theorem meets_uploadChunks (positive : 0 < maxSize) (fuel offset index : Nat) :
    Op.Meets filling (putsSomething m.config)
      (uploadChunks pf m allData maxSize fuel offset index) := by
  induction fuel generalizing offset index with
  | zero =>
    unfold uploadChunks
    exact Op.Meets.ite (fun _ => Op.meets_halt) fun _ => Op.meets_pure _
  | succ fuel ih =>
    unfold uploadChunks
    refine Op.Meets.ite (fun more => ?_) fun _ => Op.meets_pure _
    have chunk : (allData.drop offset).take (min (offset + maxSize) allData.length - offset) ≠ [] := by
      rw [← List.length_pos_iff, List.length_take, List.length_drop]
      omega
    intro s w
    refine (Op.wp_bind _ _).mpr (wp_pipelineEncode_of m.config (J := fun _ => True) ?_ trivial ?_
      fun _ _ _ _ => trivial)
    · rintro _ n bytes _ - filled
      refine ⟨fun _ _ same => ?_, filled, trivial⟩
      cases same
    · intro encoded w' _ encodes
      refine ((meets_putObject chunk encodes).bind fun _ => ?_) s w'
      refine meets_nowMs.bind fun now => (Op.meets_ofOption _).bind fun next => ?_
      exact (ih _ _).bind fun _ => Op.meets_pure _

/-- What is known of an upload is known of its first attempt. -/
theorem wp_putObject_first {W : Type} {serve guard : Server Calls W} {s3 : S3Client} {key : Str}
    {data : Bytes} {w w' : W} {ok : Unit → σ → W → Prop} {err : Error → σ → W → Prop}
    (h : Op.wp serve guard (s3.putObject key data) ok err s w)
    (served : serve w (.putObject (s3.fullKey key) data) (.ok ()) w') :
    guard w (.putObject (s3.fullKey key) data) (.ok ()) w' ∧ ok () s w' := by
  unfold S3Client.putObject S3Client.retry at h
  rw [show maxRetries = 2 + 1 from rfl, S3Client.retryFrom, Op.wp_bind, Op.wp_attempt,
    wp_orFail] at h
  exact h (.ok ()) w' served

/-- The first iteration with a step of zero, on the way where nothing fails. -/
theorem wp_uploadChunks_zero {W : Type} {serve guard : Server Calls W} {w w' : W}
    {ok : List SegmentMeta × Nat → BackupManager pf.build → W → Prop}
    {err : Error → BackupManager pf.build → W → Prop} {fuel index : Nat} {encoded : Bytes}
    (data : allData ≠ [])
    (h : Op.wp serve guard (uploadChunks pf m allData 0 (fuel + 1) 0 index) ok err self w)
    (fills : ∀ n bytes, bytes.length = n → serve w (.fillBytes n) bytes w)
    (encodes : Encodes pf m.config [] encoded)
    (stored : serve w (.putObject (m.s3.fullKey (Object.segment m.generation index).key) encoded)
      (.ok ()) w') :
    guard w (.putObject (m.s3.fullKey (Object.segment m.generation index).key) encoded) (.ok ()) w' ∧
      Op.wp serve guard (nowMs >>= fun now => Op.ofOption (incrementU32 pf.build index) >>= fun next =>
        uploadChunks pf m allData 0 fuel 0 next >>= fun rest =>
          pure (⟨index, now, 0, 0⟩ :: rest.1, rest.2)) ok err self w' := by
  have nothing : (allData.drop 0).take (min (0 + 0) allData.length - 0) = [] := by simp
  have stay : min (0 + 0) allData.length = 0 := by simp
  unfold uploadChunks at h
  rw [if_pos (List.length_pos_iff.mpr data)] at h
  dsimp only at h
  rw [nothing, stay, Op.wp_bind] at h
  have sent := ((runs_pipelineEncode fills encodes).of_wp h).1 encoded rfl
  rw [Op.wp_bind] at sent
  exact wp_putObject_first sent stored

/-- Of a step of zero the first chunk is empty already. -/
theorem not_uploadsSomething_zero (lossless : Lossless m.config) (data : allData ≠ []) :
    ¬ UploadsSomething m allData 0 := by
  intro uploads
  obtain ⟨encoded, encodes⟩ := lossless.exists_encoded []
  obtain ⟨guarded, -⟩ := wp_uploadChunks_zero data (uploads 1) (fun _ _ length => length) encodes
    (show filling () _ _ () from trivial)
  obtain ⟨chunk, nonempty, encodes'⟩ := guarded _ _ rfl
  exact nonempty (lossless.distinct encodes' encodes)

/-- Counts the uploads that were acknowledged. -/
def counting : Server Calls Nat := fun n c reply n' =>
  match c, reply with
  | .putObject _ _, .ok _ => n' = n + 1
  | .fillBytes k, bytes => bytes.length = k ∧ n' = n
  | _, _ => n' = n

/-- The guarantee that no more uploads than so many are acknowledged. -/
def upTo (most : Nat) : Server Calls Nat := fun _ _ _ n' => n' ≤ most

theorem wp_nowMs_counting {n most : Nat} (start : n ≤ most) {ok : Nat → σ → Nat → Prop}
    {err : Error → σ → Nat → Prop} (hok : ∀ now, ok now s n) :
    Op.wp counting (upTo most) nowMs ok err s n := by
  refine (Op.wp_bind _ _).mpr (Op.wp_call.mpr fun reply n' same => ?_)
  obtain rfl : n' = n := same
  refine ⟨start, ?_⟩
  cases reply with
  | ok ms => exact hok _
  | error e => exact hok _

/-- The loop makes one upload for each unit of its fuel at most. -/
theorem wp_uploadChunks_upTo {fuel offset index n most : Nat} (room : n + fuel ≤ most) :
    Op.wp counting (upTo most) (uploadChunks pf m allData maxSize fuel offset index)
      (fun _ _ _ => True) (fun _ _ _ => True) self n := by
  induction fuel generalizing offset index n self with
  | zero =>
    unfold uploadChunks
    exact Op.wp_ite (fun _ => trivial) fun _ => trivial
  | succ fuel ih =>
    have start : n ≤ most := by omega
    unfold uploadChunks
    refine Op.wp_ite (fun _ => ?_) fun _ => trivial
    refine (Op.wp_bind _ _).mpr (wp_pipelineEncode_of m.config (J := fun n' => n' = n) ?_ rfl ?_
      fun _ _ _ _ => trivial)
    · rintro _ k bytes _ rfl ⟨filled, rfl⟩
      exact ⟨start, filled, rfl⟩
    intro encoded n' same _
    obtain rfl : n' = n := same
    refine (Op.wp_bind _ _).mpr (wp_attempts (I := fun _ i => i = n') (J := fun _ i => i = n')
      ?_ ?_ (fun _ _ _ => trivial) rfl)
    · rintro _ i same
      obtain rfl : i = n' := same
      refine (wp_orFail _ _).mpr (Op.wp_call.mpr fun reply i served => ?_)
      cases reply with
      | error e =>
        cases served
        exact ⟨start, rfl, rfl⟩
      | ok =>
        cases served
        have one : i + 1 ≤ most := by omega
        refine ⟨one, (Op.wp_bind _ _).mpr (wp_nowMs_counting one fun now => ?_)⟩
        rw [Op.wp_bind, Op.wp_ofOption]
        intro next _
        rw [Op.wp_bind]
        exact ih (by omega)
    · rintro _ i ms reply i' same served
      obtain rfl : i = n' := same
      obtain rfl : i' = i := served
      exact ⟨start, rfl⟩

/-- With a step of zero and an index that wraps, the loop makes an upload for each unit. -/
theorem room_of_wp_zero (lossless : Lossless m.config) (wraps : pf.build.overflowChecks = false)
    (data : allData ≠ []) {fuel index n most : Nat} (start : n ≤ most)
    (h : Op.wp counting (upTo most) (uploadChunks pf m allData 0 fuel 0 index)
      (fun _ _ _ => True) (fun _ _ _ => True) self n) : n + fuel ≤ most := by
  induction fuel generalizing index n self with
  | zero => exact start
  | succ fuel ih =>
    obtain ⟨encoded, encodes⟩ := lossless.exists_encoded []
    have stored : counting n (.putObject (m.s3.fullKey (Object.segment m.generation index).key) encoded)
        (.ok ()) (n + 1) := rfl
    obtain ⟨guarded, later⟩ := wp_uploadChunks_zero data h (fun _ _ length => ⟨length, rfl⟩) encodes
      stored
    obtain ⟨next, counted⟩ : ∃ next, incrementU32 pf.build index = some next := by
      unfold incrementU32
      split
      · exact ⟨_, rfl⟩
      · rw [wraps]
        exact ⟨0, rfl⟩
    simp only [nowMs, Op.wp_bind] at later
    have timed := (later (Except.ok 0) (n + 1) rfl).2
    rw [counted] at timed
    have := ih guarded timed
    omega

/-- In a build whose index wraps, the loop with a step of zero has no end. -/
theorem not_loopEnds_zero (lossless : Lossless m.config) (wraps : pf.build.overflowChecks = false)
    (data : allData ≠ []) : ¬ LoopEnds m allData 0 := by
  rintro ⟨enough, ends⟩
  have few : Op.wp counting (upTo enough) (uploadChunks pf m allData 0 enough 0 m.walIndex)
      (fun _ _ _ => True) (fun _ _ _ => True) m 0 := wp_uploadChunks_upTo (Nat.zero_add _).le
  rw [← ends (enough + 1) (Nat.le_succ _)] at few
  have := room_of_wp_zero lossless wraps data (Nat.zero_le _) few
  omega

theorem loopEnds_of_pos (positive : 0 < maxSize) : LoopEnds m allData maxSize := by
  refine ⟨allData.length, fun fuel enough => uploadChunks_fuel positive ?_ ?_⟩
  · rwa [Nat.zero_add]
  · rw [Nat.zero_add]

theorem chunkSize_pos {maxSegmentSize : Option Nat} (nonzero : maxSegmentSize ≠ some 0) :
    0 < maxSegmentSize.getD (4 * 1024 * 1024) := by
  cases maxSegmentSize with
  | none => decide
  | some size => exact Nat.pos_of_ne_zero fun zero => nonzero (congrArg some zero)

end

/-- The chunking loop of a compaction ends, and each of its iterations uploads a chunk that is
not empty. -/
def ChunkingEnds (m : BackupManager pf.build) (maxSegmentSize : Option Nat) (allData : Bytes) :
    Prop :=
  let maxSize := maxSegmentSize.getD (4 * 1024 * 1024)
  LoopEnds m allData maxSize ∧ UploadsSomething m allData maxSize

/-- The loop does so unless it is given data and a size of zero. -/
theorem chunkingEnds_iff {m : BackupManager pf.build} (lossless : Lossless m.config)
    (maxSegmentSize : Option Nat) (allData : Bytes) :
    ChunkingEnds m maxSegmentSize allData ↔ maxSegmentSize ≠ some 0 ∨ allData = [] := by
  constructor
  · rintro ⟨-, uploads⟩
    by_cases data : allData = []
    · exact .inr data
    · refine .inl fun zero => ?_
      subst zero
      exact not_uploadsSomething_zero lossless data uploads
  · rintro (nonzero | rfl)
    · exact ⟨loopEnds_of_pos (chunkSize_pos nonzero), fun fuel =>
        meets_uploadChunks (chunkSize_pos nonzero) fuel 0 m.walIndex m ()⟩
    · have done : ∀ maxSize fuel, uploadChunks pf m [] maxSize fuel 0 m.walIndex =
          pure ([], m.walIndex) := by
        intro maxSize fuel
        unfold uploadChunks
        exact if_neg (Nat.lt_irrefl 0)
      refine ⟨⟨0, fun fuel _ => by rw [done, done]⟩, fun fuel => ?_⟩
      rw [done]
      trivial

theorem lossless_twoSegments (walIndex : Nat) : Lossless (twoSegments walIndex).config where
  encodes := by
    rintro data r ⟨salt, nonce, -, -, rfl⟩
    exact ⟨data, rfl⟩
  distinct := by
    rintro data data' encoded ⟨_, _, _, _, same⟩ ⟨_, _, _, _, same'⟩
    cases same
    cases same'
    rfl

theorem chunkingEnds_iff_two :
    ChunkingEnds (twoSegments 2) (some 1) [1, 2] ↔ (some 1 ≠ some 0 ∨ ([1, 2] : Bytes) = []) :=
  chunkingEnds_iff (lossless_twoSegments 2) (some 1) [1, 2]

/-- In a release build a compaction to segments of no bytes uploads empty ones without end. -/
theorem not_chunkingEnds :
    ¬ LoopEnds (twoSegments 2) [1, 2] 0 ∧ ¬ UploadsSomething (twoSegments 2) [1, 2] 0 :=
  ⟨not_loopEnds_zero (lossless_twoSegments 2) rfl (by simp),
    not_uploadsSomething_zero (lossless_twoSegments 2) (by simp)⟩

end Waloy.Spec
