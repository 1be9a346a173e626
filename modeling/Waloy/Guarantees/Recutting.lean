import Waloy.Spec.Cutting
import Waloy.Spec.Machine

/-!
# A compaction cuts the same bytes again

The chunks of a compaction are the decoded segments, joined in the order of the manifest and
cut after every `max_size` bytes: none is empty, none is too long, and the new entries of the
manifest number them without a gap and tile the data.
-/
namespace Waloy.Spec
open Waloy.Effect Waloy.Source Waloy.Source.BackupManager Waloy.Data

variable {pf : Platform}

/-- The download of one segment. -/
def fetchSegment (self : BackupManager pf.build) (key : Str) : Method pf Bytes := do
  let data ← self.s3.getObject key
  Op.ofExcept (pipelineDecode pf data self.config)

/-- The decoded contents of some segments, one by one. -/
def fetchSegments (self : BackupManager pf.build) : List Str → Method pf (List Bytes)
  | [] => pure []
  | key :: keys => do
    let decoded ← fetchSegment self key
    let rest ← fetchSegments self keys
    pure (decoded :: rest)

/-- The keys of the segments that a manifest lists, in its order. -/
def segmentKeys (self : BackupManager pf.build) : List Str :=
  self.manifest.segments.map fun s => (Object.segment self.generation s.index).key

/-- What a compaction of `m` does once its chunks are uploaded. -/
def installChunks (m : BackupManager pf.build) (uploaded : List SegmentMeta × Nat) :
    Method pf CompactionResult := do
  modify fun self => { self with manifest := { self.manifest with segments := uploaded.1 } }
  uploadManifest pf
  modify fun self => { self with walIndex := uploaded.2 }
  m.s3.deleteObjects (segmentKeys m)
  pure
    { segmentsBefore := m.manifest.segments.length % 2 ^ 32
      segmentsAfter := uploaded.1.length % 2 ^ 32 }

/-- The loop appends the decoded segments in the order of their keys. -/
theorem downloadSegments_eq (self : BackupManager pf.build) (keys : List Str) :
    downloadSegments pf self keys = fetchSegments self keys >>= fun contents =>
      pure contents.flatten := by
  induction keys with
  | nil => rfl
  | cons key keys ih =>
    simp only [downloadSegments, fetchSegments, fetchSegment, ih, Op.bind_assoc]
    rfl

theorem compact_eq {m : BackupManager pf.build} (several : 2 ≤ m.manifest.segments.length)
    (maxSegmentSize : Option Nat) (fuel : Nat) :
    compact pf maxSegmentSize fuel m =
      (fetchSegments m (segmentKeys m) >>= fun contents =>
        uploadChunks pf m contents.flatten (maxSegmentSize.getD (4 * 1024 * 1024)) fuel 0 m.walIndex
          >>= installChunks m) m := by
  unfold compact
  rw [Op.bind_run]
  change (if m.manifest.segments.length ≤ 1 then _ else _ : Method pf CompactionResult) m = _
  rw [if_neg (by omega)]
  dsimp only
  rw [downloadSegments_eq, Op.bind_assoc]
  rfl

/-- The chunks that cut some data exactly, under the indices from `index` on. -/
structure RecutsExactly (allData : Bytes) (maxSize index : Nat) (cs : List Cut) : Prop where
  whole : (cs.map Cut.chunk).flatten = allData
  bounded : ∀ c ∈ cs, 1 ≤ c.chunk.length ∧ c.chunk.length ≤ maxSize
  counted : cs.length = allData.length ⌈/⌉ maxSize
  listed : ∀ metas, List.Forall₂ Cut.Listed cs metas →
    metas.map SegmentMeta.index = List.range' index cs.length ∧ Tiles 0 metas allData.length

theorem index_of_listed {cs : List Cut} {metas : List SegmentMeta}
    (listed : List.Forall₂ Cut.Listed cs metas) :
    metas.map SegmentMeta.index = cs.map Cut.index := by
  induction listed with
  | nil => rfl
  | cons same _ ih => rw [List.map_cons, List.map_cons, same.1, ih]

theorem recutsExactly_cuts {allData : Bytes} {maxSize index : Nat} (positive : 0 < maxSize) :
    RecutsExactly allData maxSize index (cuts allData maxSize index) where
  whole := by rw [cuts_chunk, flatten_pieces positive]
  bounded := by
    intro c hc
    have chunk : c.chunk ∈ pieces maxSize allData := by
      rw [← @cuts_chunk allData maxSize index]
      exact List.mem_map_of_mem hc
    exact pieces_bounded positive allData _ chunk
  counted := cuts_length
  listed := by
    intro metas listed
    constructor
    · rw [index_of_listed listed, cuts_index, cuts_length]
    · rw [cuts, List.range_eq_range'] at listed
      have tiles := tiles_cuts positive (Nat.zero_add _).symm listed
      rwa [Nat.zero_mul, Nat.zero_min] at tiles

/-- A compaction of two or more segments fetches their contents and cuts them again exactly.
The loop comes to its end, and its additions stay within a `usize` of `w` bits. -/
theorem compact_recuts {m : BackupManager pf.build} (several : 2 ≤ m.manifest.segments.length)
    (maxSegmentSize : Option Nat) {w : Nat} (positive : 1 ≤ maxSegmentSize.getD (4 * 1024 * 1024))
    (usize : maxSegmentSize.getD (4 * 1024 * 1024) < 2 ^ w) :
    let maxSize := maxSegmentSize.getD (4 * 1024 * 1024)
    (∀ fuel, compact pf maxSegmentSize fuel m =
      (fetchSegments m (segmentKeys m) >>= fun contents =>
        uploadChunks pf m contents.flatten maxSize fuel 0 m.walIndex >>= installChunks m) m) ∧
    ∀ contents : List Bytes, contents.flatten.length < 2 ^ (w - 1) →
      m.walIndex + contents.flatten.length ⌈/⌉ maxSize < 2 ^ 32 →
      ∃ cs, RecutsExactly contents.flatten maxSize m.walIndex cs ∧
        (∀ fuel, cs.length ≤ fuel →
          uploadChunksUsize w m contents.flatten maxSize fuel 0 m.walIndex =
            uploadChunks pf m contents.flatten maxSize fuel 0 m.walIndex ∧
          uploadChunks pf m contents.flatten maxSize fuel 0 m.walIndex =
            sendCuts m (m.walIndex + cs.length) cs) ∧
        ∀ {W : Type} (serve : Server Calls W) self world,
          Op.wp serve (fun _ _ _ _ => True) (sendCuts m (m.walIndex + cs.length) cs)
            (fun uploaded _ _ => List.Forall₂ Cut.Listed cs uploaded.1 ∧
              uploaded.2 = m.walIndex + cs.length) (fun _ _ _ => True) self world := by
  refine ⟨compact_eq several maxSegmentSize, fun contents fits room => ?_⟩
  refine ⟨cuts contents.flatten _ m.walIndex, recutsExactly_cuts positive, fun fuel enough => ?_,
    fun _ _ world => wp_sendCuts _ _ world⟩
  rw [cuts_length] at enough ⊢
  exact ⟨uploadChunksUsize_eq usize fits fun _ => .inl rfl, uploadChunks_eq positive room enough⟩

/-- Two segments of three bytes, cut again after every two bytes on a machine of 64 bits. -/
theorem compact_recuts_pair :
    let m := plainManager [⟨0, 1000, 0, 2⟩, ⟨1, 1000, 2, 1⟩] 3 2
    ∃ cs, RecutsExactly [1, 2, 3] 2 2 cs ∧ ∀ fuel, cs.length ≤ fuel →
      uploadChunks plain m [1, 2, 3] 2 fuel 0 2 = sendCuts m (2 + cs.length) cs := by
  intro m
  obtain ⟨-, recut⟩ := compact_recuts (m := m) (w := 64) (by decide) (some 2)
    (by decide) (by decide)
  obtain ⟨cs, exactly, loop, -⟩ := recut [[1, 2], [3]] (by decide) (by decide)
  exact ⟨cs, exactly, fun fuel enough => (loop fuel enough).2⟩

end Waloy.Spec
