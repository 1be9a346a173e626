import Waloy.Guarantees.Representation
import Waloy.Spec.Frames
import Waloy.Spec.Progress

/-!
# Compactions that are cut short

A compaction writes its chunks under indices that no listed segment has, swaps the
manifest and deletes the old segments last, so at each of its writes a restore finds the
same bytes. The index is a `u32`, which a build without overflow checks counts modulo
`2 ^ 32`: there the chunks may come round to the listed segments.
-/
namespace Waloy.Spec
open Waloy.Effect Waloy.Source Waloy.Source.BackupManager

variable {pf : Platform} (config : BackupConfig pf.build) {A : Type}

/-- The segment invariant of a manager in a bucket. -/
structure Compactable (m : BackupManager pf.build) (b : Bucket) : Prop where
  uses : Uses config m
  /-- The id is the text of a UUID. -/
  plain : '/' ∉ m.generation
  listed : manifestAt config b m.generation = some m.manifest
  increasing : (m.manifest.segments.map SegmentMeta.index).Pairwise (· < ·)
  below : ∀ s ∈ m.manifest.segments, s.index < m.walIndex
  /-- The index is a `u32`. -/
  small : m.walIndex < 2 ^ 32
  present : ∀ s ∈ m.manifest.segments, (object config b (.segment m.generation s.index)).isSome

/-- A restore finds every segment that the manifest of a generation names, and writes
the same files as from another bucket. -/
structure Preserved (generation : Str) (b b' : Bucket) : Prop where
  named : ∀ manifest, manifestAt config b' generation = some manifest →
    ∀ s ∈ manifest.segments, (object config b' (.segment generation s.index)).isSome
  restored : ∀ targetPath, restoredLatest config b' targetPath = restoredLatest config b targetPath

/-- Every point of a compaction, finished or not, preserves the restore. -/
def CrashSafe (host : Host A) (m : BackupManager pf.build) (w : World A)
    (maxSegmentSize : Option Nat) : Prop :=
  ∀ fuel p w', Steps (free host).serve (compact pf maxSegmentSize fuel m, w) (p, w') →
    Preserved config m.generation w.bucket w'.bucket

/-- The data can be encoded, and decoding inverts each of its encodings. -/
def Invertible (data : Bytes) : Prop :=
  (∃ encoded, Encodes pf config data encoded) ∧
    ∀ encoded, Encodes pf config data encoded → pipelineDecode pf encoded config = .ok data

/-- The chunks of the listed segments and the manifests that list them go through the
pipeline and back. -/
structure Encodable (m : BackupManager pf.build) (b : Bucket) (maxSize : Nat) : Prop where
  chunks : ∀ allData, segmentsData config b m.generation m.manifest.segments = some allData →
    ∀ k, k * maxSize < allData.length → Invertible config (chunkAt allData maxSize (k * maxSize))
  manifests : ∀ segments, ∃ json,
    pf.libs.jsonToVec { m.manifest with segments := segments } = .ok json ∧
      pf.libs.jsonFromSlice json = .ok { m.manifest with segments := segments } ∧
      Invertible config json

/-- No chunk comes round to the index of a listed segment. -/
def NoCollision (m : BackupManager pf.build) (b : Bucket) (maxSize : Nat) : Prop :=
  pf.build.overflowChecks = true ∨ m.manifest.segments.length ≤ 1 ∨
    ∀ allData, segmentsData config b m.generation m.manifest.segments = some allData →
      ∀ k, k * maxSize < allData.length →
        ∀ s ∈ m.manifest.segments, (m.walIndex + k) % 2 ^ 32 ≠ s.index

section
variable {config} {env : Env A} {m : BackupManager pf.build} {b b' : Bucket} {w : World A}
  {allData : Bytes} {maxSize offset' index' clock' : Nat} {pairs : List (SegmentMeta × Bytes)}

/-- The indices of the chunks, the one that is stored next included. -/
theorem NoCollision.apart (free : NoCollision config m b maxSize)
    (state : Compactable config m b) (several : 1 < m.manifest.segments.length)
    (downloaded : segmentsData config b m.generation m.manifest.segments = some allData) {k : Nat}
    (more : k * maxSize < allData.length)
    (counted : pf.build.overflowChecks = true → m.walIndex + k < 2 ^ 32) :
    ∀ s ∈ m.manifest.segments, (m.walIndex + k) % 2 ^ 32 ≠ s.index := by
  obtain checks | few | apart := free
  · intro s hs
    have below := state.below s hs
    rw [Nat.mod_eq_of_lt (counted checks)]
    omega
  · omega
  · exact apart allData downloaded k more

/-- A collision is certain after `2 ^ 32` chunks, so without one they are distinct. -/
theorem NoCollision.few (free : NoCollision config m b maxSize)
    (state : Compactable config m b) (several : 1 < m.manifest.segments.length)
    (downloaded : segmentsData config b m.generation m.manifest.segments = some allData)
    (inside : ∀ k < pairs.length, k * maxSize < allData.length)
    (counted : pf.build.overflowChecks = true → m.walIndex + pairs.length < 2 ^ 32) :
    pairs.length ≤ 2 ^ 32 := by
  by_cases checks : pf.build.overflowChecks = true
  · have := counted checks
    omega
  · apply Nat.le_of_not_lt
    intro many
    obtain ⟨s, hs⟩ := List.exists_mem_of_length_pos (Nat.lt_of_succ_lt several)
    have below := state.below s hs
    have small := state.small
    have hit := free.apart state several downloaded
      (inside (s.index + 2 ^ 32 - m.walIndex) (by omega)) (absurd · checks) s hs
    omega

theorem Chunked.apart (chunked : Chunked config env m.generation allData maxSize 0 m.walIndex w.clock
    pairs offset' index' clock') (free : NoCollision config m b maxSize)
    (state : Compactable config m b) (several : 1 < m.manifest.segments.length)
    (downloaded : segmentsData config b m.generation m.manifest.segments = some allData) :
    (∀ s ∈ m.manifest.segments, ∀ p ∈ pairs, s.index ≠ p.1.index) ∧
      (pairs.map (·.1.index)).Nodup ∧
      (offset' < allData.length → ∀ s ∈ m.manifest.segments, s.index ≠ index') := by
  obtain ⟨indices, last⟩ := chunked.wrapped state.small
  obtain ⟨offset_eq, inside⟩ := chunked.offsets (Nat.zero_le _)
  simp only [Nat.zero_add] at offset_eq inside
  have counted : pf.build.overflowChecks = true → m.walIndex + pairs.length < 2 ^ 32 :=
    fun checks => chunked.checked checks state.small
  refine ⟨?_, ?_, ?_⟩
  · intro s hs p hp same
    have member : p.1.index ∈ pairs.map (·.1.index) := List.mem_map_of_mem hp
    rw [indices] at member
    obtain ⟨k, hk, index⟩ := List.mem_map.mp member
    have before := List.mem_range.mp hk
    refine free.apart state several downloaded (inside k before) (fun checks => ?_) s hs
      (index.trans same.symm)
    have := counted checks
    omega
  · rw [indices]
    have few := free.few state several downloaded inside counted
    refine List.Nodup.map_on ?_ List.nodup_range
    intro i hi j hj same
    have := List.mem_range.mp hi
    have := List.mem_range.mp hj
    omega
  · intro more s hs same
    have room : pairs.length * maxSize < allData.length := by omega
    exact free.apart state several downloaded room counted s hs (last.symm.trans same.symm)

theorem restoredLatest_congr {targetPath : Str}
    (latest : object config b' .latest = object config b .latest)
    (same : ∀ generation, rebuilt config b' generation = rebuilt config b generation) :
    restoredLatest config b' targetPath = restoredLatest config b targetPath := by
  rw [restoredLatest_eq, restoredLatest_eq, latest]
  congr 1
  funext generation
  exact same generation

theorem Compactable.restored (state : Compactable config m b)
    (beside : Beside config m.generation b b')
    (own : rebuilt config b' m.generation = rebuilt config b m.generation) (targetPath : Str) :
    restoredLatest config b' targetPath = restoredLatest config b targetPath := by
  refine restoredLatest_congr (beside.object (by simp [ownerOf])) fun generation => ?_
  by_cases same : generation = m.generation
  · rw [same]
    exact own
  · exact beside.rebuilt state.plain same

/-- Before the manifest is swapped the listed segments are all there. -/
theorem Compactable.before (state : Compactable config m b)
    (beside : Beside config m.generation b b')
    (marks : ∀ o, isMark o = true → object config b' o = object config b o)
    (kept : ∀ s ∈ m.manifest.segments, object config b' (.segment m.generation s.index) =
      object config b (.segment m.generation s.index)) :
    Preserved config m.generation b b' := by
  have listed : manifestAt config b' m.generation = some m.manifest :=
    (manifestAt_congr config (marks _ rfl)).trans state.listed
  constructor
  · intro manifest found s hs
    obtain rfl := Option.some.inj (found.symm.trans listed)
    rw [kept s hs]
    exact state.present s hs
  · exact state.restored beside
      (rebuilt_congr state.listed listed (marks _ rfl) (segmentsData_congr config kept))

/-- After it, the new segments hold the same bytes. -/
theorem Compactable.after (state : Compactable config m b) {manifest : GenerationManifest}
    (downloaded : segmentsData config b m.generation m.manifest.segments = some allData)
    (beside : Beside config m.generation b b')
    (snapshot : object config b' (.snapshot m.generation) =
      object config b (.snapshot m.generation))
    (listed : manifestAt config b' m.generation = some manifest)
    (held : segmentsData config b' m.generation manifest.segments = some allData) :
    Preserved config m.generation b b' := by
  constructor
  · intro manifest' found
    obtain rfl := Option.some.inj (found.symm.trans listed)
    exact segmentsData_present held
  · exact state.restored beside
      (rebuilt_congr state.listed listed snapshot (held.trans downloaded.symm))

/-- The buckets of a sequence of deletes. -/
theorem along_eraseTrail {P : Bucket → Prop} {generation : Str} {segments : List SegmentMeta}
    (h : ∀ deleted left, segments = deleted ++ left →
      P (eraseSegments config generation deleted b)) :
    Along (fun _ b' => P b') b (eraseTrail config generation segments b) := by
  induction segments generalizing b with
  | nil => exact h [] [] rfl
  | cons s rest ih =>
    refine ⟨h [] (s :: rest) rfl, h [s] rest rfl, ih fun deleted left split => ?_⟩
    exact h (s :: deleted) left (by rw [split]; rfl)

theorem Encodable.listing (codec : Encodable config m b maxSize) {segments : List SegmentMeta}
    {encoded : Bytes}
    (sent : SendsManifest config env m.generation { m.manifest with segments := segments } encoded) :
    decodeManifest pf encoded config = .ok { m.manifest with segments := segments } := by
  obtain ⟨json, written, parsed, -, decodes⟩ := codec.manifests segments
  obtain ⟨json', written', sent⟩ := sent
  obtain rfl := Except.ok.inj (written.symm.trans written')
  exact decodeManifest_of_decode (decodes encoded sent.encodes) parsed

/-- The manifest of the chunks lists the downloaded bytes. -/
theorem Recut.held {lastIndex : Nat}
    (recut : Recut config env w (head m) maxSize allData pairs lastIndex clock')
    (free : NoCollision config m w.bucket maxSize) (state : Compactable config m w.bucket)
    (codec : Encodable config m w.bucket maxSize) :
    segmentsData config (withChunks config w.bucket (head m) pairs) m.generation
      (pairs.map Prod.fst) = some allData := by
  obtain ⟨several, downloaded, offset', finished, chunked⟩ := recut
  obtain ⟨-, distinct, -⟩ := chunked.apart free state several downloaded
  obtain ⟨offset_eq, -⟩ := chunked.offsets (Nat.zero_le _)
  have whole : offset' = allData.length := by omega
  refine (chunked.held (Nat.zero_le _) ?_ distinct).trans ?_
  · intro k index encoded inside sent
    rw [Nat.zero_add] at inside sent ⊢
    exact (codec.chunks allData downloaded k inside).2 encoded sent.encodes
  · simp [whole]

theorem preserved_compact (state : Compactable config m w.bucket)
    (codec : Encodable config m w.bucket maxSize) (free : NoCollision config m w.bucket maxSize) :
    CompactWatched config env (fun _ b' => Preserved config m.generation w.bucket b') w (head m)
      maxSize where
  start := state.before (.refl _) (fun _ _ => rfl) fun _ _ => rfl
  chunks allData several downloaded := by
    have stored : ∀ {pairs offset' index' clock'},
        Chunked config env m.generation allData maxSize 0 m.walIndex w.clock pairs offset' index'
          clock' →
        Preserved config m.generation w.bucket (storeSegments config m.generation pairs w.bucket) := by
      intro pairs offset' index' clock' chunked
      obtain ⟨apart, -, -⟩ := chunked.apart free state several downloaded
      refine state.before ((Beside.refl _).storeSegments _) (fun o mark => object_storeSegments _ _ mark)
        fun s hs => object_storeSegments_of_ne fun p hp same => ?_
      injection same with _ index
      exact apart s hs p hp index
    refine ⟨stored, fun {pairs offset' index' clock' encoded} chunked more sent =>
      ⟨stored chunked, ?_, ?_⟩⟩ <;>
    · obtain ⟨apart, -, next⟩ := chunked.apart free state several downloaded
      refine state.before (((Beside.refl _).storeSegments _).store rfl _) (fun o mark => ?_)
        fun s hs => ?_
      · rw [object_store, if_neg, object_storeSegments _ _ mark]
        rintro rfl
        cases mark
      · rw [object_store, if_neg, object_storeSegments_of_ne]
        · intro p hp same
          injection same with _ index
          exact apart s hs p hp index
        · intro same
          injection same with _ index
          exact next more s hs index
  listed allData pairs lastIndex clock' manifest recut sent := by
    obtain ⟨several, downloaded, offset', finished, chunked⟩ := id recut
    obtain ⟨apart, -, -⟩ := chunked.apart free state several downloaded
    have stored : Preserved config m.generation w.bucket (withChunks config w.bucket (head m) pairs) := by
      refine state.before ((Beside.refl _).storeSegments _) (fun o mark => object_storeSegments _ _ mark)
        fun s hs => object_storeSegments_of_ne fun p hp same => ?_
      injection same with _ index
      exact apart s hs p hp index
    have swapped : Preserved config m.generation w.bucket
        (withChunkList config w.bucket (head m) pairs manifest) := by
      refine state.after downloaded (((Beside.refl _).storeSegments _).store rfl _) ?_
        (manifestAt_store (codec.listing sent)) ?_
      · simp [withChunkList, withChunks]
      · exact (segmentsData_store (by simp)).trans (recut.held free state codec)
    exact ⟨stored, swapped, swapped⟩
  deleted allData pairs lastIndex clock' manifest recut sent := by
    obtain ⟨several, downloaded, offset', finished, chunked⟩ := id recut
    obtain ⟨apart, -, -⟩ := chunked.apart free state several downloaded
    refine along_eraseTrail fun deleted left split => ?_
    refine state.after downloaded
      ((((Beside.refl _).storeSegments _).store rfl _).eraseSegments deleted) ?_
      ((manifestAt_eraseSegments _ _).trans (manifestAt_store (codec.listing sent))) ?_
    · simp [withChunkList, withChunks]
    · refine (segmentsData_eraseSegments ?_).trans
        ((segmentsData_store (by simp)).trans (recut.held free state codec))
      intro s hs s' hs' same
      obtain ⟨p, hp, rfl⟩ := List.mem_map.mp hs
      refine apart s' ?_ p hp same.symm
      change s' ∈ (head m).manifest.segments
      rw [split]
      exact List.mem_append_left _ hs'

theorem object_eraseSegments_none {generation : Str} {o : Object} (segments : List SegmentMeta)
    (gone : object config b o = none) :
    object config (eraseSegments config generation segments b) o = none := by
  induction segments generalizing b with
  | nil => exact gone
  | cons s rest ih =>
    apply ih
    rw [object_erase]
    split
    · rfl
    · exact gone

theorem object_eraseSegments_self {generation : Str} {segments : List SegmentMeta} {s : SegmentMeta}
    (hs : s ∈ segments) :
    object config (eraseSegments config generation segments b) (.segment generation s.index) = none := by
  induction segments generalizing b with
  | nil => cases hs
  | cons s' rest ih =>
    obtain rfl | later := List.mem_cons.mp hs
    · exact object_eraseSegments_none rest (by simp)
    · exact ih later

/-- Where a chunk comes round to a listed segment, it is deleted with the old segments. -/
theorem collided {r : Except Error Unit} {w' : World A} {h' : Head} (codec : Encodable config m w.bucket maxSize)
    (small : m.walIndex < 2 ^ 32)
    (downloaded : segmentsData config w.bucket m.generation m.manifest.segments = some allData)
    {k : Nat} (more : k * maxSize < allData.length) {s : SegmentMeta} (hs : s ∈ m.manifest.segments)
    (collides : (m.walIndex + k) % 2 ^ 32 = s.index) (several : 1 < m.manifest.segments.length)
    (exit : CompactExit config env w (head m) maxSize r h' w') (ok : r = .ok ()) :
    ¬ Preserved config m.generation w.bucket w'.bucket := by
  subst ok
  intro preserved
  cases exit with
  | few few => exact absurd several (Nat.not_lt.mpr few)
  | @done allData' manifest pairs lastIndex clock' a recut sent moved =>
    obtain ⟨-, downloaded', offset', finished, chunked⟩ := recut
    obtain rfl := Option.some.inj (downloaded.symm.trans downloaded')
    obtain ⟨offset_eq, -⟩ := chunked.offsets (Nat.zero_le _)
    have reached : k < pairs.length := by
      by_contra few
      have := Nat.mul_le_mul_right maxSize (Nat.le_of_not_lt few)
      omega
    have listed : manifestAt config (eraseSegments config m.generation m.manifest.segments
        (withChunkList config w.bucket (head m) pairs manifest)) m.generation =
        some ((head m).relisted pairs).manifest :=
      (manifestAt_eraseSegments _ _).trans (manifestAt_store (codec.listing sent))
    have member : (m.walIndex + k) % 2 ^ 32 ∈ pairs.map (·.1.index) := by
      rw [(chunked.wrapped small).1]
      exact List.mem_map.mpr ⟨k, List.mem_range.mpr reached, rfl⟩
    obtain ⟨p, hp, index⟩ := List.mem_map.mp member
    have found := preserved.named _ listed p.1 (List.mem_map_of_mem hp)
    have same : p.1.index = s.index := index.trans collides
    rw [same] at found
    have gone : object config (eraseSegments config m.generation m.manifest.segments
        (withChunkList config w.bucket (head m) pairs manifest)) (.segment m.generation s.index) = none :=
      object_eraseSegments_self hs
    rw [show (head m).generation = m.generation from rfl] at found
    simp only [head] at found gone
    rw [gone] at found
    cases found

end

variable {config} in
/-- A compaction is safe at every point exactly where no chunk comes round to the index of
a listed segment. -/
theorem compact_crash_safe_iff {host : Host A} {m : BackupManager pf.build} {w : World A}
    {maxSegmentSize : Option Nat} (state : Compactable config m w.bucket)
    (codec : Encodable config m w.bucket (maxSegmentSize.getD (4 * 1024 * 1024)))
    (ticks : host.Ticks) (positive : 1 ≤ maxSegmentSize.getD (4 * 1024 * 1024)) :
    CrashSafe config host m w maxSegmentSize ↔
      NoCollision config m w.bucket (maxSegmentSize.getD (4 * 1024 * 1024)) := by
  constructor
  · intro safe
    by_contra collision
    simp only [NoCollision, not_or, not_forall, not_not] at collision
    obtain ⟨wraps, several, allData, downloaded, k, more, s, hs, collides⟩ := collision
    have enough : allData.length ≤ allData.length * maxSegmentSize.getD (4 * 1024 * 1024) :=
      Nat.le_mul_of_pos_right _ positive
    obtain ⟨result, m', w', steps, -⟩ := may_compact state.uses ticks (Bool.eq_false_iff.mpr wraps)
      downloaded enough (fun k more => (codec.chunks allData downloaded k more).1) fun segments => by
        obtain ⟨json, written, -, ⟨encoded, encodes⟩, -⟩ := codec.manifests segments
        exact ⟨json, encoded, written, encodes⟩
    have watched : CompactWatched config (free host) anyChange w (head m) _ :=
      request_any (.compact maxSegmentSize 0) (some m)
    obtain ⟨-, exit⟩ := Steps.result steps (wp_compact state.uses maxSegmentSize _ watched)
    exact collided codec state.small downloaded more hs collides (Nat.lt_of_not_le several) exit rfl
      (safe _ _ _ steps)
  · intro free fuel p w' steps
    have watched : CompactWatched config (Spec.free host)
        (fun _ b' => Preserved config m.generation w.bucket b') w (head m)
        (maxSegmentSize.getD (4 * 1024 * 1024)) :=
      preserved_compact state codec free
    exact Steps.always steps (wp_compact state.uses maxSegmentSize fuel watched) watched.start

/-- The plain build without overflow checks. -/
def unchecked : Platform := { plain with build := { plain.build with overflowChecks := false } }

def uncheckedConfig : BackupConfig unchecked.build := { plainConfig with compression := .none }

/-- A manager with two segments of one byte each, and its backup. -/
def twoSegments (walIndex : Nat) : BackupManager unchecked.build :=
  { plainManager [⟨0, 1000, 0, 1⟩, ⟨1, 1001, 1, 1⟩] 2 walIndex with config := uncheckedConfig }

def twoSegmentsBucket (walIndex : Nat) : Bucket :=
  let objects : List (Object × Bytes) :=
    [(.manifest (uuid 0), asBytes (manifestText (twoSegments walIndex).manifest)),
      (.segment (uuid 0) 0, [1]), (.segment (uuid 0) 1, [2]),
      (.snapshot (uuid 0), dbFile), (.latest, asBytes (uuid 0))]
  objects.foldr (fun o b => store uncheckedConfig b o.1 o.2) ∅

theorem compactable_twoSegments (walIndex : Nat) (above : 2 ≤ walIndex) (small : walIndex < 2 ^ 32) :
    Compactable uncheckedConfig (twoSegments walIndex) (twoSegmentsBucket walIndex) where
  uses := ⟨rfl, rfl⟩
  plain := by
    change '/' ∉ uuid 0
    decide
  listed := by
    refine manifestAt_store ?_
    change (jsonFromSlice _).mapError _ = _
    rw [jsonFromSlice_jsonToVec rfl]
    rfl
  increasing := by
    change [0, 1].Pairwise (· < ·)
    decide
  below s hs := by
    have : s.index ≤ 1 := by
      simp [twoSegments, plainManager] at hs
      obtain rfl | rfl := hs <;> decide
    exact Nat.lt_of_le_of_lt this above
  small := small
  present s hs := by
    simp [twoSegments, plainManager] at hs
    obtain rfl | rfl := hs <;> simp [twoSegmentsBucket, twoSegments, plainManager]

theorem held_twoSegments (walIndex : Nat) :
    segmentsData uncheckedConfig (twoSegmentsBucket walIndex) (uuid 0)
      (twoSegments walIndex).manifest.segments = some [1, 2] := by
  simp [segmentsData, content, twoSegmentsBucket, twoSegments, plainManager]
  rfl

theorem encodable_twoSegments (walIndex : Nat) :
    Encodable uncheckedConfig (twoSegments walIndex) (twoSegmentsBucket walIndex) 1 where
  chunks allData downloaded k more := by
    have held := held_twoSegments walIndex
    obtain rfl := Option.some.inj (downloaded.symm.trans held)
    have few : k < 2 := by simpa using more
    refine ⟨⟨_, List.replicate saltLen 0, List.replicate nonceLen 0, rfl, rfl, rfl⟩, ?_⟩
    rintro encoded ⟨salt, nonce, -, -, encodes⟩
    cases encodes
    match k, few with
    | 0, _ => rfl
    | 1, _ => rfl
  manifests segments := by
    refine ⟨_, rfl, jsonFromSlice_jsonToVec rfl,
      ⟨_, List.replicate saltLen 0, List.replicate nonceLen 0, rfl, rfl, rfl⟩, ?_⟩
    rintro encoded ⟨salt, nonce, -, -, encodes⟩
    cases encodes
    rfl

theorem crash_safe_twoSegments :
    restoredLatest uncheckedConfig (twoSegmentsBucket 2) ['t'] = some ⟨dbFile, [1, 2]⟩ ∧
    CrashSafe uncheckedConfig (fileHost fun _ _ => True) (twoSegments 2)
      ⟨twoSegmentsBucket 2, ⟨none, none⟩, 2000, []⟩ (some 1) := by
  refine ⟨by decide +kernel, ?_⟩
  have state := compactable_twoSegments 2 (by decide) (by decide)
  have held := held_twoSegments 2
  refine (compact_crash_safe_iff state (encodable_twoSegments 2)
    (fun _ => ⟨0, by decide, trivial⟩) (by decide)).mpr (.inr (.inr ?_))
  intro allData downloaded k more s hs
  obtain rfl := Option.some.inj (downloaded.symm.trans held)
  have few : k < 2 := by simpa using more
  have below := state.below s hs
  change (2 + k) % 2 ^ 32 ≠ s.index
  change s.index < 2 at below
  omega

/-- From the last index on, the second chunk takes the index of the first old segment, and
is deleted with it. -/
theorem not_crashSafe :
    Compactable uncheckedConfig (twoSegments (2 ^ 32 - 1)) (twoSegmentsBucket (2 ^ 32 - 1)) ∧
    Encodable uncheckedConfig (twoSegments (2 ^ 32 - 1)) (twoSegmentsBucket (2 ^ 32 - 1)) 1 ∧
    ¬ CrashSafe uncheckedConfig (fileHost fun _ _ => True) (twoSegments (2 ^ 32 - 1))
      ⟨twoSegmentsBucket (2 ^ 32 - 1), ⟨none, none⟩, 2000, []⟩ (some 1) := by
  refine ⟨compactable_twoSegments _ (by decide) (by decide), encodable_twoSegments _, ?_⟩
  let host : Host Files := fileHost fun _ _ => True
  let w : World Files := ⟨twoSegmentsBucket (2 ^ 32 - 1), ⟨none, none⟩, 2000, []⟩
  have played : (Prog.interp (hostAnswer host id (fun files _ _ => files) fun _ => false)
      (compact unchecked (some 1) 2 (twoSegments (2 ^ 32 - 1))) w).any (fun out =>
        (manifestAt uncheckedConfig out.2.bucket (uuid 0)).any fun manifest =>
          manifest.segments.any fun s =>
            (object uncheckedConfig out.2.bucket (.segment (uuid 0) s.index)).isNone) = true := by
    decide +kernel
  obtain ⟨⟨value, w'⟩, ran, checked⟩ := (Option.any_eq_true _ _).mp played
  obtain ⟨manifest, found, missing⟩ := (Option.any_eq_true _ _).mp checked
  obtain ⟨s, hs, gone⟩ := List.any_eq_true.mp missing
  have steps : Steps (free host).serve (compact unchecked (some 1) 2 (twoSegments (2 ^ 32 - 1)), w)
      (.pure value, w') := by
    refine Steps.of_interp ?_ _ _ ran
    intro w c reply w' answered
    exact ⟨w.app, trivial, trivial, hostAnswer_acts (fun _ => trivial) (fun _ _ _ => trivial)
      (fun _ _ => trivial) answered⟩
  intro safe
  have present : (object uncheckedConfig w'.bucket (.segment (uuid 0) s.index)).isSome :=
    (safe _ _ _ steps).named manifest found s hs
  have absent : object uncheckedConfig w'.bucket (.segment (uuid 0) s.index) = none :=
    Option.isNone_iff_eq_none.mp gone
  rw [absent] at present
  cases present

end Waloy.Spec
