import Waloy.Spec.Directory
import Waloy.Spec.Restored
import Waloy.Spec.Segments

/-!
# What the writes of one generation leave alone

A manager writes and deletes objects of its own generation only. The other objects and
the listings of the other directories stay, and with them what a restore rebuilds of
another generation.
-/
namespace Waloy.Spec
open Waloy.Effect Waloy.Source

variable {pf : Platform} (config : BackupConfig pf.build)

/-- Two buckets that agree outside of a generation. -/
structure Beside (generation : Str) (b b' : Bucket) : Prop where
  lookup : ∀ key, (∀ o, ownerOf o = some generation → key ≠ objectKey config o) →
    b'.lookup key = b.lookup key
  listing : ∀ keyPrefix, (∀ o, ownerOf o = some generation →
      ¬ (S3Client.new config.s3).fullKey keyPrefix <+: objectKey config o) →
    listing config b' keyPrefix = listing config b keyPrefix

section
variable {config} {b b' : Bucket} {generation other : Str} {o : Object}

theorem filter_erase {α : Type} [DecidableEq α] {p : α → Bool} {a : α} {xs : List α}
    (nodup : xs.Nodup) (outside : p a = false) : (xs.erase a).filter p = xs.filter p := by
  rw [nodup.erase_eq_filter, List.filter_filter]
  apply List.filter_congr
  intro x _
  by_cases same : x = a
  · simp [same, outside]
  · simp [same]

theorem filter_keys_insert {p : Str → Bool} {key : Str} {data : Bytes} (outside : p key = false) :
    (b.insert key data).keys.filter p = b.keys.filter p := by
  rw [AList.keys_insert, List.filter_cons_of_neg (by simp [outside]), filter_erase b.keys_nodup outside]

theorem filter_keys_erase {p : Str → Bool} {key : Str} (outside : p key = false) :
    (b.erase key).keys.filter p = b.keys.filter p := by
  rw [AList.keys_erase, filter_erase b.keys_nodup outside]

theorem Beside.refl (b : Bucket) : Beside config generation b b := ⟨fun _ _ => rfl, fun _ _ => rfl⟩

theorem Beside.store (beside : Beside config generation b b') (owner : ownerOf o = some generation)
    (data : Bytes) : Beside config generation b (store config b' o data) where
  lookup key outside :=
    (AList.lookup_insert_ne (outside o owner)).trans (beside.lookup key outside)
  listing keyPrefix outside := by
    rw [← beside.listing keyPrefix outside]
    unfold Spec.listing Spec.store
    rw [filter_keys_insert]
    exact Bool.eq_false_iff.mpr (mt List.isPrefixOf_iff_prefix.mp (outside o owner))

theorem Beside.erase (beside : Beside config generation b b') (owner : ownerOf o = some generation) :
    Beside config generation b (b'.erase (objectKey config o)) where
  lookup key outside :=
    (AList.lookup_erase_ne (outside o owner)).trans (beside.lookup key outside)
  listing keyPrefix outside := by
    rw [← beside.listing keyPrefix outside]
    unfold Spec.listing
    rw [filter_keys_erase]
    exact Bool.eq_false_iff.mpr (mt List.isPrefixOf_iff_prefix.mp (outside o owner))

theorem Beside.storeSegments (beside : Beside config generation b b')
    (pairs : List (SegmentMeta × Bytes)) :
    Beside config generation b (storeSegments config generation pairs b') := by
  induction pairs generalizing b' with
  | nil => exact beside
  | cons p rest ih => exact ih (beside.store rfl p.2)

theorem Beside.eraseSegments (beside : Beside config generation b b') (segments : List SegmentMeta) :
    Beside config generation b (eraseSegments config generation segments b') := by
  induction segments generalizing b' with
  | nil => exact beside
  | cons s rest ih => exact ih (beside.erase (o := .segment generation s.index) rfl)

/-- An object of no generation, or of another one. -/
theorem Beside.object (beside : Beside config generation b b') (outside : ownerOf o ≠ some generation) :
    object config b' o = object config b o := by
  refine beside.lookup _ fun o' owner same => outside ?_
  rw [(objectKey_inj config).mp same]
  exact owner

theorem keysData_congr {keys : List Str}
    (same : ∀ key ∈ keys, b'.lookup ((S3Client.new config.s3).fullKey key) =
      b.lookup ((S3Client.new config.s3).fullKey key)) :
    keysData config b' keys = keysData config b keys := by
  induction keys with
  | nil => rfl
  | cons key keys ih =>
    unfold keysData
    rw [same key List.mem_cons_self, ih fun key hkey => same key (List.mem_cons_of_mem _ hkey)]

/-- The listed keys are those of the bucket under the prefix. -/
theorem mem_listing {keyPrefix key : Str} :
    key ∈ listing config b keyPrefix ↔
      (S3Client.new config.s3).fullKey key ∈ b.keys ∧ keyPrefix <+: key := by
  unfold listing S3Client.sortKeys
  rw [List.mem_insertionSort, List.mem_map]
  constructor
  · rintro ⟨full, found, rfl⟩
    obtain ⟨present, inside⟩ := List.mem_filter.mp found
    have under := List.isPrefixOf_iff_prefix.mp inside
    rw [S3Client.fullKey_relativeKey _ under]
    refine ⟨present, (S3Client.fullKey_prefix (S3Client.new config.s3)).mp ?_⟩
    rwa [S3Client.fullKey_relativeKey _ under]
  · rintro ⟨present, inside⟩
    have under := (S3Client.fullKey_prefix (S3Client.new config.s3)).mpr inside
    refine ⟨_, List.mem_filter.mpr ⟨present, List.isPrefixOf_iff_prefix.mpr under⟩, ?_⟩
    exact S3Client.fullKey_injective _ (S3Client.fullKey_relativeKey _ under)

/-- A sorted listing does not show how it was cut into pages. -/
theorem sortKeys_flatten {pages : List (List Str)} {keys : List Str} {s3 : S3Client}
    (perm : pages.flatten.Perm keys) :
    S3Client.sortKeys (pages.flatten.map s3.relativeKey) =
      S3Client.sortKeys (keys.map s3.relativeKey) := by
  have sorted : ∀ keys : List Str, (S3Client.sortKeys keys).Pairwise (· ≤ ·) :=
    fun keys => List.pairwise_insertionSort _ _
  have same : (S3Client.sortKeys (pages.flatten.map s3.relativeKey)).Perm
      (S3Client.sortKeys (keys.map s3.relativeKey)) := by
    refine (List.perm_insertionSort _ _).trans (.trans ?_ (List.perm_insertionSort _ _).symm)
    exact perm.map _
  exact same.eq_of_pairwise (fun _ _ _ _ h h' => le_antisymm h h') (sorted _) (sorted _)

/-- The same of a listing in any order. -/
theorem mem_listed {keys : List Str} {keyPrefix key : Str}
    (listed : keys.Perm ((b.keys.filter
      (((S3Client.new config.s3).fullKey keyPrefix).isPrefixOf ·)).map
        (S3Client.new config.s3).relativeKey)) :
    key ∈ keys ↔ (S3Client.new config.s3).fullKey key ∈ b.keys ∧ keyPrefix <+: key := by
  have same : keys.Perm (listing config b keyPrefix) :=
    listed.trans (List.perm_insertionSort _ _).symm
  rw [same.mem_iff, mem_listing]

/-- The segment directory of a generation lies in no object of another one. -/
theorem not_inside_other (plain : '/' ∉ generation) (different : other ≠ generation)
    (owner : ownerOf o = some generation) : ¬ other ++ ['/', 'w', 'a', 'l', '/'] <+: o.key := by
  intro inside
  have within : other ++ ['/'] <+: o.key :=
    (show other ++ ['/'] <+: other ++ ['/', 'w', 'a', 'l', '/'] from
      (List.prefix_append_right_inj _).mpr (by decide)).trans inside
  by_cases slash : '/' ∈ other
  · have few := inside.sublist.count_le '/'
    have some_slash : 0 < other.count '/' := List.count_pos_iff.mpr slash
    have none_slash : generation.count '/' = 0 := List.count_eq_zero.mpr plain
    have digits : ∀ index, (fmt08 index).count '/' = 0 :=
      fun index => List.count_eq_zero.mpr (slash_notMem_fmt08 index)
    have more : (other ++ ['/', 'w', 'a', 'l', '/']).count '/' = other.count '/' + 2 := by
      rw [List.count_append]
      rfl
    have atMost : o.key.count '/' ≤ 2 := by
      cases o with
      | latest => cases owner
      | snapshot => cases owner; simp [Object.key, List.count_append, none_slash]
      | manifest => cases owner; simp [Object.key, List.count_append, none_slash, manifestSuffix]
      | segment _ index =>
        cases owner
        simp [Object.key, List.count_append, none_slash, digits index]
    omega
  · have own := ownerOf_key (fun own h => by rw [owner] at h; cases h; exact plain) slash within
    exact different (Option.some.inj (own.symm.trans owner))

/-- Another generation is rebuilt as before. -/
theorem Beside.rebuilt (beside : Beside config generation b b') (plain : '/' ∉ generation)
    (different : other ≠ generation) : rebuilt config b' other = rebuilt config b other := by
  have foreign : ∀ o, ownerOf o = some other → Spec.object config b' o = Spec.object config b o := by
    intro o owner
    apply beside.object
    rw [owner]
    exact fun same => different (Option.some.inj same)
  have outside : ∀ o, ownerOf o = some generation →
      ¬ (S3Client.new config.s3).fullKey (other ++ ['/', 'w', 'a', 'l', '/']) <+: objectKey config o :=
    fun o owner inside =>
      not_inside_other plain different owner ((S3Client.fullKey_prefix _).mp inside)
  have same_manifest : manifestAt config b' other = manifestAt config b other :=
    manifestAt_congr config (foreign _ rfl)
  have keys : replayed config b' other = replayed config b other := by
    unfold replayed
    rw [same_manifest, beside.listing _ outside]
  unfold Spec.rebuilt
  rw [content_congr config (foreign _ rfl), keys, keysData_congr]
  intro key hkey
  unfold replayed at hkey
  cases found : manifestAt config b other with
  | some manifest =>
    rw [found] at hkey
    obtain ⟨s, -, rfl⟩ := List.mem_map.mp hkey
    exact foreign (.segment other s.index) rfl
  | none =>
    rw [found] at hkey
    refine beside.lookup _ fun o owner same => outside o owner ?_
    rw [← same]
    exact (S3Client.fullKey_prefix _).mpr (mem_listing.mp hkey).2

/-- What is rebuilt of a generation whose manifest can be read. -/
theorem rebuilt_of_manifest {manifest : GenerationManifest}
    (found : manifestAt config b generation = some manifest) :
    rebuilt config b generation =
      (content config b (.snapshot generation)).bind fun snapshot =>
        (segmentsData config b generation manifest.segments).map fun wal => ⟨snapshot, wal⟩ := by
  have keys : replayed config b generation =
      manifest.segments.map fun s => (Object.segment generation s.index).key := by
    unfold replayed
    rw [found]
  unfold rebuilt
  rw [keys, keysData_segments]

/-- Two buckets rebuild a generation alike where its manifests list the same bytes. -/
theorem rebuilt_congr {manifest manifest' : GenerationManifest}
    (found : manifestAt config b generation = some manifest)
    (found' : manifestAt config b' generation = some manifest')
    (snapshot : object config b' (.snapshot generation) = object config b (.snapshot generation))
    (data : segmentsData config b' generation manifest'.segments =
      segmentsData config b generation manifest.segments) :
    rebuilt config b' generation = rebuilt config b generation := by
  rw [rebuilt_of_manifest found, rebuilt_of_manifest found', data, content_congr config snapshot]

end

end Waloy.Spec
