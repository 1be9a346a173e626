import Waloy.Spec.Machine
import Waloy.Spec.Reading
import Waloy.Spec.Stock

/-!
# The order of the listing that stands in for a manifest

Without a manifest the segments of a generation are replayed in the order of a listing, which
the client sorts as strings. `{:08}` fills an index up to eight digits, so the listing is in
upload order until a generation holds more than 10^8 segments.
-/
namespace Waloy.Spec
open Waloy.Effect Waloy.Source Waloy.Source.BackupManager Waloy.Data

variable {pf : Platform} (config : BackupConfig pf.build)

/-- The keys of the first segments of a generation in the order of their upload. -/
def uploadOrder (generation : Str) (n : Nat) : List Str :=
  (List.range n).map fun index => (Object.segment generation index).key

/-- A generation without a manifest, with its first `n` segments and no others. -/
structure OnlySegments (b : Bucket) (generation : Str) (n : Nat) : Prop where
  unlisted : manifestAt config b generation = none
  segments : ∀ key, walDirectory generation <+: key →
    ((S3Client.new config.s3).fullKey key ∈ b.keys ↔ key ∈ uploadOrder generation n)

/-- The keys of the segments are returned in upload order, as they are for a manifest that
lists the segments in this order. A listing that fails at every attempt is left out. -/
structure KeepsUploadOrder (b : Bucket) (generation : Str) (n : Nat) : Prop where
  atRest : ∀ files, Returns b files
    (segmentKeysFromManifest pf (S3Client.new config.s3) config generation)
    (uploadOrder generation n) files
  anyRun : ∀ l r l', l.denied = [] →
    Op.Runs (unreliable b) (segmentKeysFromManifest pf (S3Client.new config.s3) config generation)
      () l r () l' →
    ¬ GaveUp l'.denied (listCall config (walDirectory generation)) →
    r = .ok (uploadOrder generation n)
  asListed : ∀ b' manifest files, manifestAt config b' generation = some manifest →
    manifest.segments.map SegmentMeta.index = List.range n →
    Returns b' files (segmentKeysFromManifest pf (S3Client.new config.s3) config generation)
      (uploadOrder generation n) files

section
variable {generation : Str} {n : Nat}

/-- Keys of one generation stand in the order of their numerals. -/
theorem segmentKey_lt {i j : Nat} :
    (Object.segment generation i).key < (Object.segment generation j).key ↔ fmt08 i < fmt08 j := by
  have monotone : ∀ {i j : Nat}, fmt08 i < fmt08 j →
      (Object.segment generation i).key < (Object.segment generation j).key := by
    intro i j less
    have slashed : '/' :: fmt08 i < '/' :: fmt08 j := List.cons_lt_cons_iff.mpr (.inr ⟨rfl, less⟩)
    exact List.Lex.append_left _ slashed _
  refine ⟨fun less => ?_, monotone⟩
  rcases lt_trichotomy (fmt08 i) (fmt08 j) with before | equal | after
  · exact before
  · rw [fmt08_injective equal] at less
    exact absurd less (lt_irrefl _)
  · exact absurd (less.trans (monotone after)) (lt_irrefl _)

/-- The upload order is the order of the strings up to 10^8 segments. -/
theorem sorted_uploadOrder : (uploadOrder generation n).Pairwise (· ≤ ·) ↔ n ≤ 10 ^ 8 := by
  rw [uploadOrder, List.pairwise_map]
  constructor
  · intro sorted
    by_contra more
    have beyond : 10 ^ 8 < n := Nat.lt_of_not_le more
    -- the keys of segments 99999999 and 100000000 are in the wrong order
    have ordered := List.pairwise_iff_getElem.mp sorted (10 ^ 8 - 1) (10 ^ 8)
      (by rw [List.length_range]; omega) (by rw [List.length_range]; exact beyond) (by omega)
    rw [List.getElem_range, List.getElem_range] at ordered
    have overflow : fmt08 (10 ^ 8) < fmt08 (10 ^ 8 - 1) := zeroFilled_overflow (by decide)
    exact absurd (segmentKey_lt.mpr overflow) (not_lt_of_ge ordered)
  · intro few
    refine List.Pairwise.imp_of_mem ?_ List.pairwise_lt_range
    intro i j _ hj less
    have fits : j < 10 ^ 8 := Nat.lt_of_lt_of_le (List.mem_range.mp hj) few
    have before : fmt08 i < fmt08 j := zeroFilled_lt (by decide) fits less
    exact le_of_lt (segmentKey_lt.mpr before)

theorem nodup_uploadOrder : (uploadOrder generation n).Nodup := by
  refine List.Nodup.map_on ?_ List.nodup_range
  intro i _ j _ same
  cases Object.key_injective same
  rfl

theorem walDirectory_prefix {key : Str} (listed : key ∈ uploadOrder generation n) :
    walDirectory generation <+: key := by
  obtain ⟨index, -, rfl⟩ := List.mem_map.mp listed
  exact ⟨fmt08 index, by simp [walDirectory, Object.key]⟩

variable {config} {b : Bucket}

/-- A listing of segments alone is their upload order exactly when that is sorted. -/
theorem OnlySegments.listing_eq_iff (only : OnlySegments config b generation n) :
    listing config b (walDirectory generation) = uploadOrder generation n ↔ n ≤ 10 ^ 8 := by
  rw [← @sorted_uploadOrder generation n]
  have listed : (listing config b (walDirectory generation)).Pairwise (· ≤ ·) :=
    List.pairwise_insertionSort _ _
  constructor
  · intro same
    rwa [← same]
  · intro sorted
    have perm : (listing config b (walDirectory generation)).Perm (uploadOrder generation n) := by
      refine (List.perm_ext_iff_of_nodup nodup_listing nodup_uploadOrder).mpr fun key => ?_
      rw [mem_listing]
      constructor
      · rintro ⟨present, inside⟩
        exact (only.segments key inside).mp present
      · intro uploaded
        have inside := walDirectory_prefix uploaded
        exact ⟨(only.segments key inside).mpr uploaded, inside⟩
    exact perm.eq_of_pairwise (fun _ _ _ _ h h' => le_antisymm h h') listed sorted

theorem OnlySegments.replayed_eq (only : OnlySegments config b generation n) :
    replayed config b generation = listing config b (walDirectory generation) := by
  rw [replayed, only.unlisted]
  rfl

theorem OnlySegments.standIn_eq (only : OnlySegments config b generation n) {denied : List Call}
    (answered : ¬ GaveUp denied (listCall config (walDirectory generation))) :
    standIn config b denied generation = listing config b (walDirectory generation) := by
  rw [standIn, only.unlisted, ite_self]
  exact if_neg answered

/-- A manifest that lists the segments in upload order gives their keys in this order. -/
theorem returns_uploadOrder {manifest : GenerationManifest} (files : List (Str × Bytes))
    (found : manifestAt config b generation = some manifest)
    (order : manifest.segments.map SegmentMeta.index = List.range n) :
    Returns b files (segmentKeysFromManifest pf (S3Client.new config.s3) config generation)
      (uploadOrder generation n) files := by
  have returned := returns_segmentKeys config b files generation
  rw [replayed, found] at returned
  rw [uploadOrder, ← order, List.map_map]
  exact returned

theorem OnlySegments.few_of_keeps (only : OnlySegments config b generation n)
    (keeps : KeepsUploadOrder config b generation n) : n ≤ 10 ^ 8 := by
  have returned := returns_segmentKeys config b [] generation
  rw [only.replayed_eq] at returned
  have same := (keeps.atRest []).symm.trans returned
  exact only.listing_eq_iff.mp (by simpa using same.symm)

/-- The fallback keeps the upload order up to 10^8 segments and no further. -/
theorem keepsUploadOrder_iff (only : OnlySegments config b generation n) :
    KeepsUploadOrder config b generation n ↔ n ≤ 10 ^ 8 := by
  constructor
  · exact only.few_of_keeps
  · intro few
    have same := only.listing_eq_iff.mpr few
    refine ⟨fun files => ?_, fun l r l' fresh run answered => ?_, fun b' manifest files found order =>
      returns_uploadOrder files found order⟩
    · rw [← same, ← only.replayed_eq]
      exact returns_segmentKeys config b files generation
    · obtain ⟨result, -⟩ := runs_segmentKeys (by simp [fresh]) (by simp [fresh]) run
      rw [result, only.standIn_eq answered, same]

end

section
variable {config} {generation : Str} {data : Nat → Bytes} {n : Nat}

theorem onlySegments_stocked :
    OnlySegments config (stocked config (.segment generation) data n) generation n where
  unlisted := by
    rw [manifestAt, object_stocked_none (by simp), Option.bind_none]
  segments := by
    intro key _
    rw [← AList.mem_keys, mem_stocked, uploadOrder, List.mem_map]
    constructor
    · rintro ⟨index, bounded, same⟩
      exact ⟨index, List.mem_range.mpr bounded, (S3Client.fullKey_injective _ same).symm⟩
    · rintro ⟨index, bounded, rfl⟩
      exact ⟨index, List.mem_range.mp bounded, rfl⟩

end

theorem keepsUploadOrder_iff_two : KeepsUploadOrder plainConfig
    (stocked plainConfig (.segment (uuid 0)) (fun _ => walFrame 1) 2) (uuid 0) 2 :=
  (keepsUploadOrder_iff onlySegments_stocked).mpr (by decide)

/-- One segment more than eight digits can count, all of them from one WAL file. -/
theorem not_keepsUploadOrder : ¬ ∀ (b : Bucket) (generation : Str), ∀ n ≤ 2 ^ 32,
    OnlySegments plainConfig b generation n → KeepsUploadOrder plainConfig b generation n := by
  intro keeps
  let data : Nat → Bytes :=
    fun index => if index = 0 then walHeader 7 ++ walFrame 1 else walFrame 1
  have only : OnlySegments plainConfig
      (stocked plainConfig (.segment (uuid 0)) data (10 ^ 8 + 1)) (uuid 0) (10 ^ 8 + 1) :=
    onlySegments_stocked
  have few := only.few_of_keeps (keeps _ _ _ (by decide) only)
  exact absurd few (by decide)

end Waloy.Spec
