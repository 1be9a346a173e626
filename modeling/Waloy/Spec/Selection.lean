import Waloy.Spec.Frames

/-!
# Which manifest a point-in-time restore selects

Among the manifests it can read, a point-in-time restore takes one with the newest
snapshot that is not too new. A write of any other object does not change what it reads.
-/
namespace Waloy.Spec
open Waloy.Effect Waloy.Source Waloy.Source.BackupManager

variable {pf : Platform} (config : BackupConfig pf.build)

/-- A key under which a point-in-time restore reads a manifest. -/
def ReadableAt (b : Bucket) (key : Str) (manifest : GenerationManifest) : Prop :=
  manifestSuffix <:+ key ∧ ∃ raw, b.lookup ((S3Client.new config.s3).fullKey key) = some raw ∧
    decodeManifest pf raw config = .ok manifest

section
variable {config} {b b' : Bucket} {key generation : Str} {o : Object} {data : Bytes}
  {manifest : GenerationManifest}

theorem decodes_iff {α : Type} {r : Except Error α} {value : α} :
    r.toOption = some value ↔ r = .ok value := by
  cases r with
  | ok => simp [Except.toOption]
  | error => simp [Except.toOption]

theorem mem_readable : manifest ∈ readable config b ↔ ∃ key, ReadableAt config b key manifest := by
  unfold readable ReadableAt
  rw [List.mem_filterMap]
  constructor
  · rintro ⟨key, listed, found⟩
    obtain ⟨raw, present, decodes⟩ := Option.bind_eq_some_iff.mp found
    have suffixed := List.isSuffixOf_iff_suffix.mp (List.mem_filter.mp listed).2
    exact ⟨key, suffixed, raw, present, decodes_iff.mp decodes⟩
  · rintro ⟨key, suffixed, raw, present, decodes⟩
    refine ⟨key, List.mem_filter.mpr ⟨mem_listing.mpr ⟨?_, List.nil_prefix⟩, ?_⟩, ?_⟩
    · exact AList.mem_keys.mp (AList.lookup_isSome.mp (by rw [present]; rfl))
    · exact List.isSuffixOf_iff_suffix.mpr suffixed
    · rw [present, Option.bind_some, decodes]
      rfl

theorem manifestAt_eq_some :
    manifestAt config b generation = some manifest ↔
      ReadableAt config b (Object.manifest generation).key manifest := by
  unfold manifestAt ReadableAt
  rw [Option.bind_eq_some_iff]
  simp only [decodes_iff]
  exact ⟨fun found => ⟨List.suffix_append _ _, found⟩, fun found => found.2⟩

/-- Only manifests have keys that end like one. -/
theorem eq_manifest_of_suffix (suffixed : manifestSuffix <:+ o.key) : ∃ own, o = .manifest own := by
  cases owner : ownerOf o with
  | some own => exact ⟨own, key_manifestSuffix owner suffixed⟩
  | none =>
    cases o with
    | latest => exact absurd suffixed (by decide)
    | _ => cases owner

theorem ReadableAt.unique {manifest' : GenerationManifest} (h : ReadableAt config b key manifest)
    (h' : ReadableAt config b key manifest') : manifest = manifest' := by
  obtain ⟨-, raw, present, decodes⟩ := h
  obtain ⟨-, raw', present', decodes'⟩ := h'
  rw [present] at present'
  cases present'
  rw [decodes] at decodes'
  cases decodes'
  rfl

/-- What is read after a write was read before, or is what was written. -/
theorem ReadableAt.of_store (h : ReadableAt config (store config b o data) key manifest) :
    key = o.key ∧ decodeManifest pf data config = .ok manifest ∨
      key ≠ o.key ∧ ReadableAt config b key manifest := by
  obtain ⟨suffixed, raw, present, decodes⟩ := h
  by_cases same : key = o.key
  · subst same
    rw [store, objectKey, AList.lookup_insert] at present
    cases present
    exact .inl ⟨rfl, decodes⟩
  · rw [store, AList.lookup_insert_ne] at present
    · exact .inr ⟨same, suffixed, raw, present, decodes⟩
    · exact fun full => same (S3Client.fullKey_injective _ full)

/-- Objects that are no manifests are not read. -/
theorem readableAt_store (other : ∀ own, o ≠ .manifest own) :
    ReadableAt config (store config b o data) key manifest ↔ ReadableAt config b key manifest := by
  have apart : ∀ {b'}, ReadableAt config b' key manifest → key ≠ o.key := by
    rintro b' ⟨suffixed, -⟩ rfl
    obtain ⟨own, rfl⟩ := eq_manifest_of_suffix suffixed
    exact other own rfl
  constructor
  · intro h
    obtain ⟨same, -⟩ | ⟨-, before⟩ := h.of_store
    · exact absurd same (apart h)
    · exact before
  · intro h
    obtain ⟨suffixed, raw, present, decodes⟩ := h
    refine ⟨suffixed, raw, ?_, decodes⟩
    rw [store, AList.lookup_insert_ne]
    · exact present
    · exact fun full => apart ⟨suffixed, raw, present, decodes⟩ (S3Client.fullKey_injective _ full)

theorem ReadableAt.of_lookup (h : ReadableAt config b' key manifest)
    (same : b'.lookup ((S3Client.new config.s3).fullKey key) =
        b.lookup ((S3Client.new config.s3).fullKey key) ∨
      b'.lookup ((S3Client.new config.s3).fullKey key) = none) :
    ReadableAt config b key manifest := by
  obtain ⟨suffixed, raw, present, decodes⟩ := h
  obtain same | gone := same
  · exact ⟨suffixed, raw, same ▸ present, decodes⟩
  · rw [gone] at present
    cases present

end

section
variable {α : Type} {r : α → α → Prop} [DecidableRel r] {p : α → Bool} {a : α} {xs : List α}

/-- An insertion into a sorted list, and what is selected of it. -/
theorem filter_orderedInsert [IsTrans α r] (sorted : xs.Pairwise r) :
    (xs.orderedInsert r a).filter p =
      if p a = true then (xs.filter p).orderedInsert r a else xs.filter p := by
  induction xs with
  | nil => by_cases chosen : p a = true <;> simp [chosen]
  | cons x xs ih =>
    obtain ⟨first, sorted⟩ := List.pairwise_cons.mp sorted
    by_cases before : r a x
    · rw [List.orderedInsert_cons_of_le r xs before]
      by_cases chosen : p a = true
      · rw [if_pos chosen, List.filter_cons_of_pos chosen]
        cases found : (x :: xs).filter p with
        | nil => rfl
        | cons y ys =>
          have member : y ∈ (x :: xs).filter p := found ▸ List.mem_cons_self
          have onward : r a y := by
            obtain rfl | later := List.mem_cons.mp (List.mem_filter.mp member).1
            · exact before
            · exact IsTrans.trans _ _ _ before (first y later)
          exact (List.orderedInsert_cons_of_le r ys onward).symm
      · rw [if_neg chosen, List.filter_cons_of_neg chosen]
    · rw [List.orderedInsert_of_not_le r xs before]
      by_cases here : p x = true
      · rw [List.filter_cons_of_pos here, ih sorted, List.filter_cons_of_pos here,
          List.orderedInsert_of_not_le r _ before]
        split <;> rfl
      · rw [List.filter_cons_of_neg here, ih sorted, List.filter_cons_of_neg here]

/-- A stable sort of what is selected from a list selects from the sorted list. -/
theorem filter_insertionSort [IsTrans α r] [Std.Total r] (xs : List α) :
    (xs.filter p).insertionSort r = (xs.insertionSort r).filter p := by
  induction xs with
  | nil => rfl
  | cons x xs ih =>
    rw [List.insertionSort_cons, filter_orderedInsert (List.pairwise_insertionSort r xs), ← ih]
    by_cases chosen : p x = true
    · rw [if_pos chosen, List.filter_cons_of_pos chosen, List.insertionSort_cons]
    · rw [if_neg chosen, List.filter_cons_of_neg chosen]

end
section
variable {manifests manifests' : List GenerationManifest} {manifest : GenerationManifest}
  {timestampMs : Nat}

/-- The order in which the manifests are tried. -/
abbrev newestFirst (a b : GenerationManifest) : Prop := b.snapshotTimestampMs ≤ a.snapshotTimestampMs

theorem newestFirst_total : Std.Total newestFirst := ⟨fun _ _ => Nat.le_total _ _⟩

theorem newestFirst_trans : IsTrans GenerationManifest newestFirst :=
  ⟨fun _ _ _ h h' => Nat.le_trans h' h⟩

theorem pairwise_newestFirst (manifests : List GenerationManifest) :
    (manifests.insertionSort newestFirst).Pairwise newestFirst := by
  have total := newestFirst_total
  have trans := newestFirst_trans
  exact List.pairwise_insertionSort _ _

theorem selectManifest_mem (selected : selectManifest manifests timestampMs = some manifest) :
    manifest ∈ manifests ∧ manifest.snapshotTimestampMs ≤ timestampMs := by
  constructor
  · exact (List.mem_insertionSort _).mp (List.mem_of_find?_eq_some selected)
  · simpa using List.find?_some selected

/-- The newest snapshot that is not too new is selected. -/
theorem selectManifest_eq_some (member : manifest ∈ manifests)
    (old : manifest.snapshotTimestampMs ≤ timestampMs)
    (newest : ∀ other ∈ manifests, other.snapshotTimestampMs ≤ timestampMs →
      other = manifest ∨ other.snapshotTimestampMs < manifest.snapshotTimestampMs) :
    selectManifest manifests timestampMs = some manifest := by
  have sorted : manifest ∈ manifests.insertionSort newestFirst := (List.mem_insertionSort _).mpr member
  cases selected : selectManifest manifests timestampMs with
  | none =>
    have too_new := List.find?_eq_none.mp selected manifest sorted
    simp only [decide_eq_true_eq] at too_new
    omega
  | some other =>
    obtain ⟨listed, recent⟩ := selectManifest_mem selected
    obtain ⟨fits, front, back, split, skipped⟩ := List.find?_eq_some_iff_append.mp selected
    have order := pairwise_newestFirst manifests
    have split' : manifests.insertionSort newestFirst = front ++ other :: back := split
    rw [split'] at sorted order
    have before : manifest.snapshotTimestampMs ≤ other.snapshotTimestampMs := by
      obtain first | here := List.mem_append.mp sorted
      · have := skipped manifest first
        simp only [Bool.not_eq_eq_eq_not, Bool.not_true, decide_eq_false_iff_not] at this
        omega
      · obtain rfl | later := List.mem_cons.mp here
        · exact Nat.le_refl _
        · have tail := (List.pairwise_append.mp order).2.1
          exact (List.pairwise_cons.mp tail).1 manifest later
    obtain rfl | older := newest other listed recent
    · rfl
    · omega

/-- A change of the manifests that keeps their snapshot times keeps the selection. -/
theorem selectManifest_map {f : GenerationManifest → GenerationManifest}
    (same : ∀ m ∈ manifests, (f m).snapshotTimestampMs = m.snapshotTimestampMs) :
    selectManifest (manifests.map f) timestampMs = (selectManifest manifests timestampMs).map f := by
  have sorted : (manifests.map f).insertionSort newestFirst =
      (manifests.insertionSort newestFirst).map f := by
    refine (List.map_insertionSort newestFirst newestFirst f manifests ?_).symm
    intro a ha b hb
    rw [newestFirst, newestFirst, same a ha, same b hb]
  change List.find? _ ((manifests.map f).insertionSort newestFirst) = _
  rw [sorted, List.find?_map]
  congr 1
  change _ = List.find? _ (manifests.insertionSort newestFirst)
  have stamps : ∀ m ∈ manifests.insertionSort newestFirst,
      (decide ((f m).snapshotTimestampMs ≤ timestampMs)) =
        decide (m.snapshotTimestampMs ≤ timestampMs) := by
    intro m hm
    rw [same m ((List.mem_insertionSort _).mp hm)]
  generalize manifests.insertionSort newestFirst = sorted at stamps
  induction sorted with
  | nil => rfl
  | cons m rest ih =>
    obtain ⟨here, later⟩ := List.forall_mem_cons.mp stamps
    rw [List.find?_cons, List.find?_cons, ih later]
    simp only [Function.comp, here]

/-- What was selected is selected of fewer manifests, as long as it is among them. -/
theorem selectManifest_filter {p : GenerationManifest → Bool} (kept : p manifest = true)
    (selected : selectManifest manifests timestampMs = some manifest) :
    selectManifest (manifests.filter p) timestampMs = some manifest := by
  have total := newestFirst_total
  have trans := newestFirst_trans
  obtain ⟨fits, front, back, split, skipped⟩ := List.find?_eq_some_iff_append.mp selected
  have sorted : (manifests.filter p).insertionSort newestFirst =
      (manifests.insertionSort newestFirst).filter p := filter_insertionSort manifests
  refine List.find?_eq_some_iff_append.mpr ⟨fits, front.filter p, back.filter p, ?_, ?_⟩
  · change (manifests.filter p).insertionSort newestFirst = _
    have split' : manifests.insertionSort newestFirst = front ++ manifest :: back := split
    rw [sorted, split', List.filter_append, List.filter_cons_of_pos kept]
  · exact fun m hm => skipped m (List.mem_filter.mp hm).1
end

section
variable {config} {b b' : Bucket} {keyPrefix : Str}

theorem nodup_listing : (listing config b keyPrefix).Nodup := by
  refine (List.perm_insertionSort _ _).nodup_iff.mpr (List.Nodup.map_on ?_ (b.keys_nodup.filter _))
  intro key hkey key' hkey' same
  have inside := List.isPrefixOf_iff_prefix.mp (List.mem_filter.mp hkey).2
  have inside' := List.isPrefixOf_iff_prefix.mp (List.mem_filter.mp hkey').2
  rw [← S3Client.fullKey_relativeKey _ inside, ← S3Client.fullKey_relativeKey _ inside', same]

/-- The keys that end like one of a manifest, in the order of a listing. -/
def manifestKeys (config : BackupConfig pf.build) (b : Bucket) : List Str :=
  (listing config b []).filter manifestSuffix.isSuffixOf

theorem manifestKeys_congr
    (same : ∀ key, manifestSuffix <:+ key → b'.lookup ((S3Client.new config.s3).fullKey key) =
        b.lookup ((S3Client.new config.s3).fullKey key) ∨
      (b'.lookup ((S3Client.new config.s3).fullKey key)).isSome ∧
        (b.lookup ((S3Client.new config.s3).fullKey key)).isSome) :
    manifestKeys config b' = manifestKeys config b := by
  have present : ∀ key, manifestSuffix <:+ key →
      ((S3Client.new config.s3).fullKey key ∈ b'.keys ↔
        (S3Client.new config.s3).fullKey key ∈ b.keys) := by
    intro key suffixed
    rw [← AList.mem_keys, ← AList.mem_keys, ← AList.lookup_isSome, ← AList.lookup_isSome]
    obtain same | ⟨both, both'⟩ := same key suffixed
    · rw [same]
    · exact ⟨fun _ => both', fun _ => both⟩
  have sorted : ∀ b, (manifestKeys config b).Pairwise (· ≤ ·) :=
    fun b => List.Pairwise.filter _ (List.pairwise_insertionSort _ _)
  have perm : (manifestKeys config b').Perm (manifestKeys config b) := by
    refine (List.perm_ext_iff_of_nodup (nodup_listing.filter _) (nodup_listing.filter _)).mpr ?_
    intro key
    rw [List.mem_filter, List.mem_filter, mem_listing, mem_listing]
    refine and_congr_left fun suffixed => and_congr_left fun _ => ?_
    exact present key (List.isSuffixOf_iff_suffix.mp suffixed)
  exact perm.eq_of_pairwise (fun _ _ _ _ h h' => le_antisymm h h') (sorted b') (sorted b)

/-- The manifest under a key. -/
def readAt (config : BackupConfig pf.build) (b : Bucket) (key : Str) : Option GenerationManifest :=
  (b.lookup ((S3Client.new config.s3).fullKey key)).bind fun raw =>
    (decodeManifest pf raw config).toOption

theorem readAt_eq_some {key : Str} {manifest : GenerationManifest} (suffixed : manifestSuffix <:+ key) :
    readAt config b key = some manifest ↔ ReadableAt config b key manifest := by
  unfold readAt ReadableAt
  rw [Option.bind_eq_some_iff]
  simp only [decodes_iff]
  exact ⟨fun found => ⟨suffixed, found⟩, fun read => read.2⟩

theorem readable_map {f : GenerationManifest → GenerationManifest}
    (keys : manifestKeys config b' = manifestKeys config b)
    (same : ∀ key, manifestSuffix <:+ key → readAt config b' key = (readAt config b key).map f) :
    readable config b' = (readable config b).map f := by
  change (manifestKeys config b').filterMap (readAt config b') =
    ((manifestKeys config b).filterMap (readAt config b)).map f
  rw [keys, List.map_filterMap]
  apply List.filterMap_congr
  intro key hkey
  exact same key (List.isSuffixOf_iff_suffix.mp (List.mem_filter.mp hkey).2)

theorem sorted_manifestKeys : (manifestKeys config b).Pairwise (· ≤ ·) :=
  List.Pairwise.filter _ (List.pairwise_insertionSort _ _)

theorem mem_manifestKeys {key : Str} :
    key ∈ manifestKeys config b ↔
      (S3Client.new config.s3).fullKey key ∈ b.keys ∧ manifestSuffix <:+ key := by
  rw [manifestKeys, List.mem_filter, mem_listing, List.isSuffixOf_iff_suffix]
  exact and_congr_left fun _ => and_iff_left List.nil_prefix

/-- Of two sorted lists, what is taken from keys that are in both. -/
theorem filterMap_eq_of_sorted {β : Type} {g : Str → Option β} {keys keys' : List Str}
    (sorted : keys.Pairwise (· ≤ ·)) (sorted' : keys'.Pairwise (· ≤ ·)) (nodup : keys.Nodup)
    (nodup' : keys'.Nodup) (same : ∀ key, (g key).isSome → (key ∈ keys ↔ key ∈ keys')) :
    keys.filterMap g = keys'.filterMap g := by
  have taken : ∀ keys : List Str,
      keys.filterMap g = (keys.filter fun key => (g key).isSome).filterMap g := by
    intro keys
    rw [List.filterMap_filter]
    apply List.filterMap_congr
    intro key _
    cases g key <;> rfl
  have perm : (keys.filter fun key => (g key).isSome).Perm
      (keys'.filter fun key => (g key).isSome) := by
    refine (List.perm_ext_iff_of_nodup (nodup.filter _) (nodup'.filter _)).mpr fun key => ?_
    rw [List.mem_filter, List.mem_filter]
    exact and_congr_left (same key)
  rw [taken keys, taken keys', perm.eq_of_pairwise (fun _ _ _ _ h h' => le_antisymm h h')
    (sorted.filter _) (sorted'.filter _)]

/-- What is read under the keys of manifests does not depend on the keys that hold none. -/
theorem filterMap_manifestKeys {β : Type} {g : Str → Option β}
    (held : ∀ key, manifestSuffix <:+ key → (g key).isSome →
      (readAt config b key).isSome ∧ (readAt config b' key).isSome) :
    (manifestKeys config b').filterMap g = (manifestKeys config b).filterMap g := by
  have present : ∀ {b : Bucket} {key : Str}, (readAt config b key).isSome →
      (S3Client.new config.s3).fullKey key ∈ b.keys := by
    intro b key read
    obtain ⟨m, read⟩ := Option.isSome_iff_exists.mp read
    obtain ⟨raw, stored, -⟩ := Option.bind_eq_some_iff.mp read
    exact AList.mem_keys.mp (AList.lookup_isSome.mp (Option.isSome_iff_exists.mpr ⟨raw, stored⟩))
  refine filterMap_eq_of_sorted sorted_manifestKeys sorted_manifestKeys (nodup_listing.filter _)
    (nodup_listing.filter _) fun key taken => ?_
  rw [mem_manifestKeys, mem_manifestKeys]
  refine and_congr_left fun suffixed => ?_
  obtain ⟨before, after⟩ := held key suffixed taken
  exact ⟨fun _ => present before, fun _ => present after⟩

/-- A bucket that has lost some manifests. -/
theorem readable_filter {p : GenerationManifest → Bool}
    (same : ∀ key, manifestSuffix <:+ key →
      readAt config b' key = (readAt config b key).filter p) :
    readable config b' = (readable config b).filter p := by
  change (manifestKeys config b').filterMap (readAt config b') =
    ((manifestKeys config b).filterMap (readAt config b)).filter p
  rw [List.filter_filterMap]
  have left : (manifestKeys config b).filterMap (fun key => (readAt config b key).filter p) =
      (manifestKeys config b).filterMap (readAt config b') := by
    apply List.filterMap_congr
    intro key hkey
    exact (same key (mem_manifestKeys.mp hkey).2).symm
  rw [left]
  refine filterMap_manifestKeys fun key suffixed read => ⟨?_, read⟩
  rw [same key suffixed] at read
  exact Option.isSome_of_isSome_filter p _ read

/-- Only the manifests that are old enough matter to a selection. -/
theorem selectManifest_congr {timestampMs : Nat}
    (same : ∀ key, manifestSuffix <:+ key →
      ((readAt config b' key).filter fun m => m.snapshotTimestampMs ≤ timestampMs) =
        (readAt config b key).filter fun m => m.snapshotTimestampMs ≤ timestampMs) :
    selectManifest (readable config b') timestampMs =
      selectManifest (readable config b) timestampMs := by
  have total := newestFirst_total
  have trans := newestFirst_trans
  have first : ∀ manifests, selectManifest manifests timestampMs =
      ((manifests.filter fun m => m.snapshotTimestampMs ≤ timestampMs).insertionSort
        newestFirst).head? := by
    intro manifests
    rw [filter_insertionSort, List.head?_filter]
    rfl
  rw [first, first]
  change ((((manifestKeys config b').filterMap (readAt config b')).filter _).insertionSort _).head? =
    ((((manifestKeys config b).filterMap (readAt config b)).filter _).insertionSort _).head?
  rw [List.filter_filterMap, List.filter_filterMap]
  have left : (manifestKeys config b').filterMap (fun key =>
        (readAt config b' key).filter fun m => m.snapshotTimestampMs ≤ timestampMs) =
      (manifestKeys config b').filterMap fun key =>
        (readAt config b key).filter fun m => m.snapshotTimestampMs ≤ timestampMs := by
    apply List.filterMap_congr
    intro key hkey
    exact same key (mem_manifestKeys.mp hkey).2
  rw [left, filterMap_manifestKeys]
  intro key suffixed read
  refine ⟨Option.isSome_of_isSome_filter _ _ read, ?_⟩
  rw [← same key suffixed] at read
  exact Option.isSome_of_isSome_filter _ _ read

end

end Waloy.Spec
