import Waloy.Spec.World

/-!
# The objects of a backup

The bucket seen through the configuration of a manager: an `Object` instead of a
key, its decoded content instead of its bytes. The segment invariant ties what a
manager remembers of its segments to the objects that hold them.
-/
namespace Waloy.Source

theorem S3Client.fullKey_injective (s3 : S3Client) {key key' : Str}
    (h : s3.fullKey key = s3.fullKey key') : key = key' := by
  unfold S3Client.fullKey at h
  split at h
  · exact h
  · exact (List.cons.inj (List.append_cancel_left h)).2

end Waloy.Source

namespace Waloy.Spec
open Waloy.Effect Waloy.Source

variable {pf : Platform} (config : BackupConfig pf.build)

/-- The key of an object in the bucket. -/
def objectKey (o : Object) : Str := (S3Client.new config.s3).fullKey o.key

theorem objectKey_inj {o o' : Object} : objectKey config o = objectKey config o' ↔ o = o' :=
  ⟨fun h => Object.key_injective (S3Client.fullKey_injective _ h), fun h => h ▸ rfl⟩

def object (b : Bucket) (o : Object) : Option Bytes := b.lookup (objectKey config o)

def store (b : Bucket) (o : Object) (data : Bytes) : Bucket := b.insert (objectKey config o) data

@[simp] theorem object_store (b : Bucket) (o o' : Object) (data : Bytes) :
    object config (store config b o data) o' = if o' = o then some data else object config b o' := by
  unfold object store
  split
  case isTrue h => rw [h, AList.lookup_insert]
  case isFalse h => rw [AList.lookup_insert_ne (mt (objectKey_inj config).mp h)]

@[simp] theorem object_erase (b : Bucket) (o o' : Object) :
    object config (b.erase (objectKey config o)) o' = if o' = o then none else object config b o' := by
  unfold object
  split
  case isTrue h => rw [h, AList.lookup_erase]
  case isFalse h => rw [AList.lookup_erase_ne (mt (objectKey_inj config).mp h)]

@[simp] theorem store_store (b : Bucket) (o : Object) (data data' : Bytes) :
    store config (store config b o data) o data' = store config b o data' :=
  AList.insert_insert _

/-- What an object decodes to, where it exists and can be decoded. -/
def content (b : Bucket) (o : Object) : Option Bytes :=
  (object config b o).bind fun raw => (pipelineDecode pf raw config).toOption

/-- The manifest of a generation, where it exists and can be read. -/
def manifestAt (b : Bucket) (generation : Str) : Option GenerationManifest :=
  (object config b (.manifest generation)).bind fun raw => (decodeManifest pf raw config).toOption

/-- The decoded segments of a list, concatenated in its order. -/
def segmentsData (b : Bucket) (generation : Str) : List SegmentMeta → Option Bytes
  | [] => some []
  | s :: rest =>
    (content config b (.segment generation s.index)).bind fun data =>
      (segmentsData b generation rest).map (data ++ ·)

theorem content_congr {b b' : Bucket} {o : Object} (h : object config b o = object config b' o) :
    content config b o = content config b' o := by
  unfold content
  rw [h]

theorem manifestAt_congr {b b' : Bucket} {generation : Str}
    (h : object config b (.manifest generation) = object config b' (.manifest generation)) :
    manifestAt config b generation = manifestAt config b' generation := by
  unfold manifestAt
  rw [h]

theorem segmentsData_congr {b b' : Bucket} {generation : Str} {segments : List SegmentMeta}
    (h : ∀ s ∈ segments, object config b (.segment generation s.index) =
      object config b' (.segment generation s.index)) :
    segmentsData config b generation segments = segmentsData config b' generation segments := by
  induction segments with
  | nil => rfl
  | cons s rest ih =>
    unfold segmentsData
    rw [content_congr config (h s List.mem_cons_self),
      ih fun s hs => h s (List.mem_cons_of_mem _ hs)]

theorem segmentsData_append (b : Bucket) (generation : Str) (xs ys : List SegmentMeta) :
    segmentsData config b generation (xs ++ ys) =
      (segmentsData config b generation xs).bind fun x =>
        (segmentsData config b generation ys).map (x ++ ·) := by
  induction xs with
  | nil => simp [segmentsData]
  | cons s rest ih =>
    simp only [List.cons_append, segmentsData, ih]
    cases content config b (.segment generation s.index) with
    | none => rfl
    | some data =>
      cases segmentsData config b generation rest with
      | none => rfl
      | some x => cases segmentsData config b generation ys <;> simp

/-- What a manager remembers of its backup. -/
@[ext] structure Head where
  generation : Str
  walOffset : Nat
  walIndex : Nat
  walHeaderSalt : Option Bytes
  manifest : GenerationManifest

def head {build : Build} (m : BackupManager build) : Head :=
  ⟨m.generation, m.walOffset, m.walIndex, m.walHeaderSalt, m.manifest⟩

/-- A manager that was opened with a configuration. -/
def Uses (m : BackupManager pf.build) : Prop :=
  m.config = config ∧ m.s3 = S3Client.new config.s3

/-- The ranges of the segments follow each other from `start` to `stop`. -/
def Tiles : Nat → List SegmentMeta → Nat → Prop
  | start, [], stop => start = stop
  | start, s :: rest, stop => s.offset = start ∧ Tiles (start + s.size) rest stop

theorem Tiles.append {start middle stop : Nat} {xs ys : List SegmentMeta}
    (hx : Tiles start xs middle) (hy : Tiles middle ys stop) : Tiles start (xs ++ ys) stop := by
  induction xs generalizing start with
  | nil => exact (show start = middle from hx) ▸ hy
  | cons s rest ih => exact ⟨hx.1, ih hx.2⟩

theorem Tiles.le {start stop : Nat} {segments : List SegmentMeta}
    (h : Tiles start segments stop) : start ≤ stop := by
  induction segments generalizing start with
  | nil => exact Nat.le_of_eq h
  | cons s rest ih => exact Nat.le_trans (Nat.le_add_right _ _) (ih h.2)

/-- The segment invariant of a manager. -/
structure Ordered (h : Head) : Prop where
  increasing : (h.manifest.segments.map SegmentMeta.index).Pairwise (· < ·)
  below : ∀ s ∈ h.manifest.segments, s.index < h.walIndex
  tiles : Tiles 0 h.manifest.segments h.walOffset

/-- The segment invariant, with the bytes that the segments hold in the bucket. -/
structure Backed (b : Bucket) (h : Head) (data : Bytes) : Prop extends Ordered h where
  held : segmentsData config b h.generation h.manifest.segments = some data
  length : data.length = h.walOffset

end Waloy.Spec
