import Waloy.Spec.Compaction
import Waloy.Spec.Sync

/-!
# What the segments of a generation hold

The upload of a sync adds the new bytes at the end of what the segments hold, and a
compaction cuts the same bytes again. Both rest on indices that no listed segment has.
-/
namespace Waloy.Spec
open Waloy.Effect Waloy.Source

variable {pf : Platform} (config : BackupConfig pf.build) {A : Type} (env : Env A)

/-- Parsing inverts the serialization of manifests. -/
def Parses (libs : Libs) : Prop :=
  ∀ manifest json, libs.jsonToVec manifest = .ok json → libs.jsonFromSlice json = .ok manifest

/-- Decoding inverts the encoding of what is uploaded. -/
def Env.Inverts : Prop :=
  ∀ key data encoded, env.Takes (.putObject key encoded) → key ≠ objectKey config .latest →
    Encodes pf config data encoded → pipelineDecode pf encoded config = .ok data

/-- No segment takes the last index of a `u32`. -/
def Env.Counts : Prop :=
  ∀ generation index encoded,
    env.Takes (.putObject (objectKey config (.segment generation index)) encoded) →
    index + 1 < 2 ^ 32

section
variable {config env} {b : Bucket} {generation : Str} {o : Object} {data encoded : Bytes}

theorem Sends.decodes (inverts : env.Inverts config) (sent : Sends config env o data encoded)
    (ho : o ≠ .latest) : pipelineDecode pf encoded config = .ok data :=
  inverts _ _ _ sent.taken (mt (objectKey_inj config).mp ho) sent.encodes

theorem decodeManifest_of_decode {manifest : GenerationManifest}
    (decoded : pipelineDecode pf encoded config = .ok data)
    (parsed : pf.libs.jsonFromSlice data = .ok manifest) :
    decodeManifest pf encoded config = .ok manifest := by
  unfold decodeManifest
  rw [decoded]
  change (pf.libs.jsonFromSlice data).mapError _ = _
  rw [parsed]
  rfl

theorem SendsManifest.decodes {manifest : GenerationManifest} (parses : Parses pf.libs)
    (inverts : env.Inverts config) (sent : SendsManifest config env generation manifest encoded) :
    decodeManifest pf encoded config = .ok manifest := by
  obtain ⟨json, written, sent⟩ := sent
  have decoded := sent.decodes inverts (by simp)
  exact decodeManifest_of_decode decoded (parses _ _ written)

theorem content_store (decodes : pipelineDecode pf encoded config = .ok data) :
    content config (store config b o encoded) o = some data := by
  unfold content
  rw [object_store, if_pos rfl, Option.bind_some, decodes]
  rfl

theorem manifestAt_store {manifest : GenerationManifest}
    (decodes : decodeManifest pf encoded config = .ok manifest) :
    manifestAt config (store config b (.manifest generation) encoded) generation = some manifest := by
  unfold manifestAt
  rw [object_store, if_pos rfl, Option.bind_some, decodes]
  rfl

@[simp] theorem manifestAt_eraseSegments (own : Str) (segments : List SegmentMeta) :
    manifestAt config (eraseSegments config own segments b) generation =
      manifestAt config b generation :=
  manifestAt_congr config (object_eraseSegments _ _ rfl)

/-- The segments of a list do not notice an object that is none of them. -/
theorem segmentsData_store {segments : List SegmentMeta}
    (other : ∀ s ∈ segments, o ≠ .segment generation s.index) :
    segmentsData config (store config b o encoded) generation segments =
      segmentsData config b generation segments := by
  refine segmentsData_congr config fun s hs => ?_
  rw [object_store, if_neg (other s hs).symm]

theorem segmentsData_erase {segments : List SegmentMeta}
    (other : ∀ s ∈ segments, o ≠ .segment generation s.index) :
    segmentsData config (b.erase (objectKey config o)) generation segments =
      segmentsData config b generation segments := by
  refine segmentsData_congr config fun s hs => ?_
  rw [object_erase, if_neg (other s hs).symm]

theorem segmentsData_storeSegments {segments : List SegmentMeta}
    {pairs : List (SegmentMeta × Bytes)}
    (other : ∀ s ∈ segments, ∀ p ∈ pairs, s.index ≠ p.1.index) :
    segmentsData config (storeSegments config generation pairs b) generation segments =
      segmentsData config b generation segments := by
  refine segmentsData_congr config fun s hs => object_storeSegments_of_ne fun p hp same => ?_
  injection same with _ index
  exact other s hs p hp index

theorem segmentsData_eraseSegments {segments erased : List SegmentMeta}
    (other : ∀ s ∈ segments, ∀ s' ∈ erased, s.index ≠ s'.index) :
    segmentsData config (eraseSegments config generation erased b) generation segments =
      segmentsData config b generation segments := by
  refine segmentsData_congr config fun s hs => object_eraseSegments_of_ne fun s' hs' same => ?_
  injection same with _ index
  exact other s hs s' hs' index

end

section
variable {config env} {b : Bucket} {h : Head} {data encoded manifest walData : Bytes}

theorem Head.unsynced_length (h : Head) (walData : Bytes) :
    (h.unsynced walData).length = walAlignedLen walData - h.walOffset := by
  have := walAlignedLen_le_length walData
  rw [Head.unsynced, List.length_take, List.length_drop]
  omega

theorem Head.take_append_unsynced (h : Head) {walData : Bytes}
    (new : h.walOffset ≤ walAlignedLen walData) :
    walData.take h.walOffset ++ h.unsynced walData = walData.take (walAlignedLen walData) := by
  rw [Head.unsynced, ← List.take_add]
  congr 1
  omega

theorem Ordered.advanced (ordered : Ordered h) (new : h.walOffset ≤ walAlignedLen walData) (now : Nat) :
    Ordered (h.advanced walData now (h.walIndex + 1)) where
  increasing := by
    have last : ∀ i ∈ h.manifest.segments.map SegmentMeta.index, i < h.walIndex := by
      intro i hi
      obtain ⟨s, hs, rfl⟩ := List.mem_map.mp hi
      exact ordered.below s hs
    simp only [Head.advanced, Head.listed, GenerationManifest.addSegment_segments, List.map_append]
    refine List.pairwise_append.mpr ⟨ordered.increasing, List.pairwise_singleton _ _, ?_⟩
    intro i hi j hj
    rw [List.mem_singleton.mp hj]
    exact last i hi
  below := by
    intro s hs
    obtain old | new := List.mem_append.mp hs
    · exact Nat.lt_succ_of_lt (ordered.below s old)
    · rw [List.mem_singleton.mp new]
      exact Nat.lt_succ_self _
  tiles := by
    refine Tiles.append ordered.tiles ⟨rfl, ?_⟩
    change h.walOffset + (h.unsynced walData).length = walAlignedLen walData
    rw [Head.unsynced_length]
    omega

/-- A sync adds the new bytes at the end. -/
theorem Backed.advanced (manifest : Bytes) (backed : Backed config b h data)
    (decodes : pipelineDecode pf encoded config = .ok (h.unsynced walData))
    (new : h.walOffset ≤ walAlignedLen walData) (now : Nat) :
    Backed config (withListing config b h encoded manifest)
      (h.advanced walData now (h.walIndex + 1)) (data ++ h.unsynced walData) where
  toOrdered := backed.toOrdered.advanced new now
  held := by
    have old : segmentsData config (withListing config b h encoded manifest) h.generation
        h.manifest.segments = some data := by
      rw [withListing, withSegment, segmentsData_store (by simp), segmentsData_store, backed.held]
      intro s hs same
      injection same with _ index
      exact Nat.ne_of_gt (backed.below s hs) index
    have added : content config (withListing config b h encoded manifest)
        (.segment h.generation h.walIndex) = some (h.unsynced walData) := by
      have same : object config (withListing config b h encoded manifest)
          (.segment h.generation h.walIndex) =
          object config (withSegment config b h encoded) (.segment h.generation h.walIndex) := by
        simp [withListing]
      rw [content_congr config same]
      exact content_store decodes
    simp only [Head.advanced, Head.listed, GenerationManifest.addSegment_segments]
    rw [segmentsData_append, old]
    simp [segmentsData, added]
  length := by
    have := backed.length
    rw [List.length_append, Head.unsynced_length]
    change _ = walAlignedLen walData
    omega

theorem Backed.captured (backed : Backed config b h data) (walData : Bytes) :
    Backed config b (h.captured walData) data where
  increasing := by simpa using backed.increasing
  below := by simpa using backed.below
  tiles := by simpa using backed.tiles
  held := by simpa using backed.held
  length := by simpa using backed.length

end

section
variable {config env} {b : Bucket} {generation : Str} {allData : Bytes}
  {maxSize offset index clock offset' index' clock' : Nat} {pairs : List (SegmentMeta × Bytes)}

theorem chunkAt_length (allData : Bytes) (maxSize offset : Nat) :
    (chunkAt allData maxSize offset).length = chunkEnd allData maxSize offset - offset := by
  rw [chunkAt, chunkEnd, List.length_take, List.length_drop]
  omega

theorem le_chunkEnd {allData : Bytes} {offset : Nat} (h : offset ≤ allData.length) (maxSize : Nat) :
    offset ≤ chunkEnd allData maxSize offset ∧ chunkEnd allData maxSize offset ≤ allData.length := by
  unfold chunkEnd
  omega

/-- Every chunk of the loop was sent. -/
theorem Chunked.sent (chunked : Chunked config env generation allData maxSize offset index clock pairs
    offset' index' clock') :
    ∀ p ∈ pairs, ∃ chunk, Sends config env (.segment generation p.1.index) chunk p.2 := by
  induction chunked with
  | nil => simp
  | cons more sent ticks counted later ih =>
    intro p hp
    obtain rfl | hp := List.mem_cons.mp hp
    · exact ⟨_, sent⟩
    · exact ih p hp

/-- The chunks are numbered one after the other, modulo the width of the counter. -/
theorem Chunked.wrapped (chunked : Chunked config env generation allData maxSize offset index clock
    pairs offset' index' clock') (small : index < 2 ^ 32) :
    pairs.map (·.1.index) = (List.range pairs.length).map (fun k => (index + k) % 2 ^ 32) ∧
      index' = (index + pairs.length) % 2 ^ 32 := by
  induction chunked with
  | nil => exact ⟨rfl, (Nat.mod_eq_of_lt small).symm⟩
  | @cons offset index clock now next _ _ _ encoded rest more sent ticks counted later ih =>
    have next_eq := incrementU32_eq small counted
    obtain ⟨indices, last⟩ := ih (by omega)
    constructor
    · rw [List.map_cons, indices, List.length_cons, List.range_succ_eq_map, List.map_cons,
        List.map_map]
      congr 1
      · exact (Nat.mod_eq_of_lt small).symm
      · apply List.map_congr_left
        intro k _
        change (next + k) % 2 ^ 32 = (index + (k + 1)) % 2 ^ 32
        omega
    · rw [last, List.length_cons]
      omega

/-- A build that checks for overflows stores no chunk after the last index. -/
theorem Chunked.checked (chunked : Chunked config env generation allData maxSize offset index clock
    pairs offset' index' clock') (checks : pf.build.overflowChecks = true) (small : index < 2 ^ 32) :
    index + pairs.length < 2 ^ 32 := by
  induction chunked with
  | nil => exact small
  | @cons offset index clock now next _ _ _ encoded rest more sent ticks counted later ih =>
    have next_lt := incrementU32_lt checks counted
    have next_eq := incrementU32_eq small counted
    have := ih (by omega)
    rw [List.length_cons]
    omega

/-- The chunks are numbered one after the other. -/
theorem Chunked.numbered (chunked : Chunked config env generation allData maxSize offset index clock
    pairs offset' index' clock') (bound : ∀ p ∈ pairs, p.1.index + 1 < 2 ^ 32) :
    pairs.map (·.1.index) = List.range' index pairs.length ∧ index' = index + pairs.length := by
  induction chunked with
  | nil => simp
  | @cons offset index clock now next _ _ _ encoded rest more sent ticks counted later ih =>
    obtain ⟨small, bound⟩ := List.forall_mem_cons.mp bound
    replace small : index + 1 < 2 ^ 32 := small
    rw [incrementU32_of_lt _ small] at counted
    obtain rfl := Option.some.inj counted
    obtain ⟨indices, last⟩ := ih bound
    constructor
    · rw [List.map_cons, indices, List.length_cons, List.range'_succ]
    · rw [last, List.length_cons]
      omega

/-- Chunk `k` begins after `k` chunks of the full size. -/
theorem Chunked.offsets (chunked : Chunked config env generation allData maxSize offset index clock
    pairs offset' index' clock') (start : offset ≤ allData.length) :
    offset' = min (offset + pairs.length * maxSize) allData.length ∧
      ∀ k < pairs.length, offset + k * maxSize < allData.length := by
  induction chunked with
  | nil => simpa using start
  | @cons offset index clock now next _ _ _ encoded rest more sent ticks counted later ih =>
    obtain ⟨last, inside⟩ := ih (le_chunkEnd start maxSize).2
    have stop : chunkEnd allData maxSize offset = min (offset + maxSize) allData.length := rfl
    constructor
    · rw [last, List.length_cons, Nat.succ_mul]
      omega
    · intro k hk
      cases k with
      | zero => simpa using more
      | succ k =>
        have := inside k (Nat.lt_of_succ_lt_succ hk)
        rw [Nat.succ_mul]
        omega

/-- The chunks follow each other without a gap. -/
theorem Chunked.tiles (chunked : Chunked config env generation allData maxSize offset index clock
    pairs offset' index' clock') (start : offset ≤ allData.length) :
    Tiles offset (pairs.map Prod.fst) offset' ∧ offset' ≤ allData.length := by
  induction chunked with
  | nil => exact ⟨rfl, start⟩
  | @cons offset index clock now next _ _ _ encoded rest more sent ticks counted later ih =>
    obtain ⟨forward, within⟩ := le_chunkEnd start maxSize
    obtain ⟨tiles, stop⟩ := ih within
    refine ⟨⟨rfl, ?_⟩, stop⟩
    have size : offset + (chunkAt allData maxSize offset).length =
        chunkEnd allData maxSize offset := by
      rw [chunkAt_length]
      omega
    exact size.symm ▸ tiles

theorem Chunked.index_lt (chunked : Chunked config env generation allData maxSize offset index clock
    pairs offset' index' clock') (bound : ∀ p ∈ pairs, p.1.index + 1 < 2 ^ 32) :
    ∀ s ∈ pairs.map Prod.fst, index ≤ s.index ∧ s.index < index' := by
  obtain ⟨indices, last⟩ := chunked.numbered bound
  intro s hs
  obtain ⟨p, hp, rfl⟩ := List.mem_map.mp hs
  have inside : p.1.index ∈ pairs.map (·.1.index) := List.mem_map_of_mem hp
  rw [indices, List.mem_range'_1] at inside
  omega

/-- The stored chunks hold the data from the first offset to the last. -/
theorem Chunked.held (chunked : Chunked config env generation allData maxSize offset index clock pairs
    offset' index' clock') (start : offset ≤ allData.length)
    (decodes : ∀ k index encoded, offset + k * maxSize < allData.length →
      Sends config env (.segment generation index) (chunkAt allData maxSize (offset + k * maxSize))
        encoded →
      pipelineDecode pf encoded config = .ok (chunkAt allData maxSize (offset + k * maxSize)))
    (distinct : (pairs.map (·.1.index)).Nodup) :
    segmentsData config (storeSegments config generation pairs b) generation (pairs.map Prod.fst) =
      some ((allData.drop offset).take (offset' - offset)) := by
  induction chunked generalizing b with
  | nil => simp [segmentsData]
  | @cons offset index clock now next offset' index' clock' encoded rest more sent ticks counted later
      ih =>
    obtain ⟨forward, within⟩ := le_chunkEnd start maxSize
    obtain ⟨first, distinct⟩ := List.nodup_cons.mp distinct
    have onward := (later.tiles within).1.le
    have decoded : pipelineDecode pf encoded config = .ok (chunkAt allData maxSize offset) := by
      simpa using decodes 0 index encoded (by simpa using more) (by simpa using sent)
    have here : content config (storeSegments config generation rest
        (store config b (.segment generation index) encoded)) (.segment generation index) =
        some (chunkAt allData maxSize offset) := by
      rw [content_congr config (object_storeSegments_of_ne _)]
      · exact content_store decoded
      · intro p hp same
        injection same with _ index
        exact first (List.mem_map.mpr ⟨p, hp, index.symm⟩)
    have next_chunk : ∀ k, chunkEnd allData maxSize offset + k * maxSize < allData.length →
        chunkEnd allData maxSize offset + k * maxSize = offset + (k + 1) * maxSize := by
      intro k inside
      have stop : chunkEnd allData maxSize offset = min (offset + maxSize) allData.length := rfl
      rw [Nat.succ_mul]
      omega
    have later_held := ih within (b := store config b (.segment generation index) encoded)
      (by
        intro k index encoded inside sent
        have same := next_chunk k inside
        rw [same] at inside sent ⊢
        exact decodes (k + 1) index encoded inside sent) distinct
    rw [List.map_cons, segmentsData, storeSegments, here, Option.bind_some, later_held,
      Option.map_some]
    congr 1
    have split : offset' - offset =
        (chunkEnd allData maxSize offset - offset) +
          (offset' - chunkEnd allData maxSize offset) := by omega
    rw [split, List.take_add, List.drop_drop]
    have there : offset + (chunkEnd allData maxSize offset - offset) =
        chunkEnd allData maxSize offset := by omega
    rw [there]
    rfl

end

section
variable {config env} {b : Bucket} {w : World A} {h : Head} {data allData manifest : Bytes}
  {pairs : List (SegmentMeta × Bytes)} {maxSize lastIndex clock' : Nat}

variable (config) in
/-- The chunks of a compaction come after the old segments and hold the same bytes. -/
structure Renewed (b : Bucket) (h : Head) (pairs : List (SegmentMeta × Bytes)) (lastIndex : Nat)
    (data : Bytes) : Prop where
  ordered : Ordered (h.compacted pairs lastIndex)
  later : ∀ s ∈ pairs.map Prod.fst, h.walIndex ≤ s.index
  held : segmentsData config (withChunks config b h pairs) h.generation (pairs.map Prod.fst) =
    some data

/-- The chunks hold the bytes of the old segments. -/
theorem Recut.chunks_held (recut : Recut config env w h maxSize allData pairs lastIndex clock')
    (inverts : env.Inverts config) (bound : ∀ p ∈ pairs, p.1.index + 1 < 2 ^ 32) :
    segmentsData config (withChunks config w.bucket h pairs) h.generation (pairs.map Prod.fst) =
      some allData := by
  obtain ⟨several, downloaded, offset', finished, chunked⟩ := recut
  obtain ⟨tiles, stop⟩ := chunked.tiles (Nat.zero_le _)
  obtain rfl : offset' = allData.length := Nat.le_antisymm stop finished
  have distinct : (pairs.map (·.1.index)).Nodup := by
    rw [(chunked.numbered bound).1]
    exact List.nodup_range'
  rw [withChunks, chunked.held (Nat.zero_le _) _ distinct]
  · simp
  · exact fun k index encoded inside sent => sent.decodes inverts (by simp)

/-- They are numbered from the next index on. -/
theorem Recut.between (recut : Recut config env w h maxSize allData pairs lastIndex clock')
    (bound : ∀ p ∈ pairs, p.1.index + 1 < 2 ^ 32) :
    ∀ s ∈ pairs.map Prod.fst, h.walIndex ≤ s.index ∧ s.index < lastIndex := by
  obtain ⟨several, downloaded, offset', finished, chunked⟩ := recut
  exact chunked.index_lt bound

/-- They are still there once the old segments are deleted. -/
theorem Recut.swapped (recut : Recut config env w h maxSize allData pairs lastIndex clock')
    (inverts : env.Inverts config) (bound : ∀ p ∈ pairs, p.1.index + 1 < 2 ^ 32)
    {erased : List SegmentMeta} (below : ∀ s ∈ erased, s.index < h.walIndex) :
    segmentsData config
        (eraseSegments config h.generation erased (withChunkList config w.bucket h pairs manifest))
        h.generation (pairs.map Prod.fst) =
      some allData := by
  rw [segmentsData_eraseSegments, withChunkList, segmentsData_store (by simp),
    recut.chunks_held inverts bound]
  intro s hs s' hs'
  have := (recut.between bound s hs).1
  have := below s' hs'
  omega

theorem Recut.renewed (recut : Recut config env w h maxSize allData pairs lastIndex clock')
    (backed : Backed config w.bucket h data) (inverts : env.Inverts config)
    (bound : ∀ p ∈ pairs, p.1.index + 1 < 2 ^ 32) :
    Renewed config w.bucket h pairs lastIndex data := by
  have held := recut.chunks_held inverts bound
  have between := recut.between bound
  obtain ⟨several, downloaded, offset', finished, chunked⟩ := recut
  obtain rfl : data = allData := Option.some.inj (backed.held.symm.trans downloaded)
  obtain ⟨tiles, stop⟩ := chunked.tiles (Nat.zero_le _)
  obtain rfl : offset' = data.length := Nat.le_antisymm stop finished
  refine ⟨⟨?_, fun s hs => (between s hs).2, ?_⟩, fun s hs => (between s hs).1, held⟩
  · have numbers : (pairs.map Prod.fst).map SegmentMeta.index = List.range' h.walIndex pairs.length := by
      rw [List.map_map]
      exact (chunked.numbered bound).1
    change ((pairs.map Prod.fst).map SegmentMeta.index).Pairwise (· < ·)
    rw [numbers]
    exact List.pairwise_lt_range'
  · rw [backed.length] at tiles
    exact tiles

theorem Recut.bound (counts : env.Counts config)
    (recut : Recut config env w h maxSize allData pairs lastIndex clock') :
    ∀ p ∈ pairs, p.1.index + 1 < 2 ^ 32 := by
  obtain ⟨several, downloaded, offset', finished, chunked⟩ := recut
  intro p hp
  obtain ⟨chunk, sent⟩ := chunked.sent p hp
  exact counts _ _ _ sent.taken

theorem Renewed.compacted (renewed : Renewed config b h pairs lastIndex data)
    (length : data.length = h.walOffset) {erased : List SegmentMeta}
    (below : ∀ s ∈ erased, s.index < h.walIndex) :
    Backed config (eraseSegments config h.generation erased (withChunkList config b h pairs manifest))
      (h.compacted pairs lastIndex) data where
  toOrdered := renewed.ordered
  held := by
    change segmentsData config _ h.generation (pairs.map Prod.fst) = _
    rw [segmentsData_eraseSegments, withChunkList, segmentsData_store (by simp), renewed.held]
    intro s hs s' hs'
    have := renewed.later s hs
    have := below s' hs'
    omega
  length := length

end

end Waloy.Spec
