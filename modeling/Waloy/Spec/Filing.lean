import Waloy.Spec.Archive

/-!
# The files of the newest generation

Snapshots, compactions and retention runs rewrite the newest generation or delete older
ones. Whatever is done without a failure, each manifest stays under the key of its own
generation, and the newest one lists segments that are there and can be decoded.
-/
namespace Waloy.Spec
open Waloy.Effect Waloy.Source Waloy.Source.BackupManager

variable {pf : Platform} (config : BackupConfig pf.build)

/-- The bucket after a compaction. -/
def recompacted (b : Bucket) (manifest : GenerationManifest) (pairs : List (SegmentMeta × Bytes))
    (listing : Bytes) : Bucket :=
  eraseSegments config manifest.generation manifest.segments
    (store config (storeSegments config manifest.generation pairs b) (.manifest manifest.generation)
      listing)

/-- The chunks of a compaction come after the listed segments and can be decoded. -/
structure Recompacts (manifest : GenerationManifest) (index : Nat)
    (pairs : List (SegmentMeta × Bytes)) (listing : Bytes) (t t' : Nat) : Prop where
  numbered : pairs.map (·.1.index) = List.range' index pairs.length
  decodes : ∀ p ∈ pairs, ∃ data, data ≠ [] ∧ pipelineDecode pf p.2 config = .ok data
  stamps : ∀ p ∈ pairs, p.1.timestampMs ≤ t'
  later : t ≤ t'
  lists : decodeManifest pf listing config =
    .ok { manifest with segments := pairs.map Prod.fst }

/-- What any operation without a failure does to an archive. -/
inductive Archive.Step (tick : Nat → Nat → Prop) : Archive → Archive → Prop where
  | grew {a a' : Archive} (grew : Archive.Grow config tick a a') : Step tick a a'
  | restarted {b : Bucket} {t now index : Nat} {manifest : GenerationManifest}
      {raw encoded listing : Bytes} (ticks : tick t now)
      (decodes : pipelineDecode pf encoded config = .ok raw)
      (lists : decodeManifest pf listing config = .ok (restamped manifest now)) :
      Step tick ⟨b, t, some (manifest, index)⟩
        ⟨withManifest config b manifest.generation encoded listing, now,
          some (restamped manifest now, 0)⟩
  | compacted {b : Bucket} {t t' index : Nat} {manifest : GenerationManifest}
      {pairs : List (SegmentMeta × Bytes)} {listing : Bytes}
      (recompacts : Recompacts config manifest index pairs listing t t') :
      Step tick ⟨b, t, some (manifest, index)⟩
        ⟨recompacted config b manifest pairs listing, t',
          some ({ manifest with segments := pairs.map Prod.fst }, index + pairs.length)⟩
  | expired {b b' : Bucket} {t now index cutoffMs : Nat} {manifest : GenerationManifest}
      (ticks : tick t now) (expunged : Expunged config b manifest.generation cutoffMs b') :
      Step tick ⟨b, t, some (manifest, index)⟩ ⟨b', now, some (manifest, index)⟩

/-- The newest generation of an archive is complete. -/
structure Complete (a : Archive) (manifest : GenerationManifest) (index : Nat) : Prop where
  tidy : Tidy config a.bucket manifest.generation
  listed : manifestAt config a.bucket manifest.generation = some manifest
  snapshot : (content config a.bucket (.snapshot manifest.generation)).isSome
  increasing : (manifest.segments.map SegmentMeta.index).Pairwise (· < ·)
  below : ∀ s ∈ manifest.segments, s.index < index
  recorded : ∀ s ∈ manifest.segments, s.timestampMs ≤ a.clock
  full : ∀ s ∈ manifest.segments, ∃ data, data ≠ [] ∧
    content config a.bucket (.segment manifest.generation s.index) = some data

/-- Every manifest is under the key of its generation. -/
structure Archive.Filed (a : Archive) : Prop where
  filed : ∀ key manifest, ReadableAt config a.bucket key manifest →
    key = (Object.manifest manifest.generation).key
  complete : ∀ manifest index, a.current = some (manifest, index) → Complete config a manifest index

section
variable {config} {tick : Nat → Nat → Prop} {a a' : Archive} {b b' : Bucket} {T index t t' : Nat}
  {manifest M : GenerationManifest} {generation : Str} {encoded listing raw : Bytes}
  {pairs : List (SegmentMeta × Bytes)}

theorem Tidy.storeSegments (tidy : Tidy config b generation) (pairs : List (SegmentMeta × Bytes)) :
    Tidy config (storeSegments config generation pairs b) generation := by
  induction pairs generalizing b with
  | nil => exact tidy
  | cons p rest ih => exact ih (tidy.store fun own owner => Option.some.inj owner ▸ tidy.1)

theorem Tidy.eraseSegments (tidy : Tidy config b generation) (segments : List SegmentMeta) :
    Tidy config (eraseSegments config generation segments b) generation := by
  induction segments generalizing b with
  | nil => exact tidy
  | cons s rest ih => exact ih (tidy.erase _)

theorem Tidy.own (tidy : Tidy config b generation) {o : Object} {data : Bytes}
    (owner : ∀ own, ownerOf o = some own → own = generation) :
    Tidy config (Spec.store config b o data) generation :=
  tidy.store fun own h => (owner own h).symm ▸ tidy.1

theorem tidy_withManifest (tidy : Tidy config b generation) :
    Tidy config (withManifest config b generation encoded listing) generation := by
  have saved : Tidy config (withSnapshot config b generation encoded) generation :=
    tidy.own fun own h => (Option.some.inj h).symm
  have marked : Tidy config (withLatest config b generation encoded) generation :=
    saved.own fun own h => nomatch h
  exact marked.own fun own h => (Option.some.inj h).symm

/-- A stored chunk is there afterwards. -/
theorem object_storeSegments_mem (distinct : (pairs.map (·.1.index)).Nodup) {p : SegmentMeta × Bytes}
    (hp : p ∈ pairs) :
    object config (storeSegments config generation pairs b) (.segment generation p.1.index) =
      some p.2 := by
  induction pairs generalizing b with
  | nil => cases hp
  | cons p' rest ih =>
    obtain ⟨first, distinct⟩ := List.nodup_cons.mp distinct
    obtain rfl | hp := List.mem_cons.mp hp
    · rw [storeSegments, object_storeSegments_of_ne]
      · simp
      · intro p' hp' same
        injection same with _ index
        exact first (List.mem_map.mpr ⟨p', hp', index.symm⟩)
    · exact ih distinct hp

theorem Recompacts.distinct (recompacts : Recompacts config manifest index pairs listing t t') :
    (pairs.map (·.1.index)).Nodup := by
  rw [recompacts.numbered]
  exact List.nodup_range'

theorem Recompacts.above (recompacts : Recompacts config manifest index pairs listing t t')
    {p : SegmentMeta × Bytes} (hp : p ∈ pairs) :
    index ≤ p.1.index ∧ p.1.index < index + pairs.length := by
  have member : p.1.index ∈ pairs.map (·.1.index) := List.mem_map_of_mem hp
  rw [recompacts.numbered, List.mem_range'_1] at member
  exact member

/-- The deletes of a compaction spare its chunks. -/
theorem Recompacts.kept (recompacts : Recompacts config manifest index pairs listing t t')
    (below : ∀ s ∈ manifest.segments, s.index < index) {p : SegmentMeta × Bytes} (hp : p ∈ pairs) :
    object config (recompacted config b manifest pairs listing)
      (.segment manifest.generation p.1.index) = some p.2 := by
  have above := recompacts.above hp
  unfold recompacted
  rw [object_eraseSegments_of_ne, object_store, if_neg (by simp),
    object_storeSegments_mem recompacts.distinct hp]
  intro s hs same
  injection same with _ index_eq
  have := below s hs
  omega

theorem object_recompacted {o : Object} (mark : isMark o = true)
    (other : o ≠ .manifest manifest.generation) :
    object config (recompacted config b manifest pairs listing) o = object config b o := by
  unfold recompacted
  rw [object_eraseSegments _ _ mark, object_store, if_neg other, object_storeSegments _ _ mark]

theorem beside_recompacted :
    Beside config manifest.generation b (recompacted config b manifest pairs listing) :=
  ((((Beside.refl b).storeSegments pairs).store rfl listing).eraseSegments _)

theorem manifestAt_recompacted (lists : decodeManifest pf listing config = .ok M) :
    manifestAt config (recompacted config b manifest pairs listing) manifest.generation = some M :=
  (manifestAt_eraseSegments _ _).trans (manifestAt_store lists)

/-- Keys of manifests of other generations keep what they hold. -/
theorem Beside.manifestKey {key : Str} (beside : Beside config generation b b')
    (suffixed : manifestSuffix <:+ key) (apart : key ≠ (Object.manifest generation).key) :
    b'.lookup ((S3Client.new config.s3).fullKey key) =
      b.lookup ((S3Client.new config.s3).fullKey key) := by
  refine beside.lookup _ fun o owner same => ?_
  have key_eq : key = o.key := S3Client.fullKey_injective _ same
  rw [key_eq] at suffixed
  obtain ⟨own, rfl⟩ := eq_manifest_of_suffix suffixed
  cases owner
  exact apart key_eq

theorem Beside.readable {key : Str} (beside : Beside config generation b b')
    (read : ReadableAt config b' key M) (apart : key ≠ (Object.manifest generation).key) :
    ReadableAt config b key M :=
  read.of_lookup (.inl (beside.manifestKey read.1 apart))

/-- After a write of a manifest under the key of its generation, all are filed. -/
theorem filed_of_beside (listed : manifestAt config b' M.generation = some M)
    (filed : ∀ key m, ReadableAt config b key m → key = (Object.manifest m.generation).key)
    (read : ∀ key m, ReadableAt config b' key m → key ≠ (Object.manifest M.generation).key →
      ReadableAt config b key m) :
    ∀ key m, ReadableAt config b' key m → key = (Object.manifest m.generation).key := by
  intro key m here
  by_cases same : key = (Object.manifest M.generation).key
  · rw [eq_of_listed listed here same]
    exact same
  · exact filed key m (read key m here same)

theorem content_withManifest (decodes : pipelineDecode pf encoded config = .ok raw) :
    content config (withManifest config b generation encoded listing) (.snapshot generation) =
      some raw := by
  have stored : object config (withManifest config b generation encoded listing)
      (.snapshot generation) = object config (withSnapshot config b generation encoded)
        (.snapshot generation) := by
    simp [withManifest, withLatest]
  rw [content_congr config stored]
  exact content_store decodes

theorem content_withAdded {data : Bytes} (decodes : pipelineDecode pf encoded config = .ok data) :
    content config (withAdded config b manifest index encoded listing)
      (.segment manifest.generation index) = some data := by
  have stored : object config (withAdded config b manifest index encoded listing)
      (.segment manifest.generation index) =
      object config (Spec.store config b (.segment manifest.generation index) encoded)
        (.segment manifest.generation index) := by
    simp [withAdded]
  exact (content_congr config stored).trans (content_store decodes)

/-- A generation whose snapshot was just taken is complete. -/
theorem complete_withManifest {now index : Nat} (tidy : Tidy config b manifest.generation)
    (empty : manifest.segments = [])
    (decodes : pipelineDecode pf encoded config = .ok raw)
    (lists : decodeManifest pf listing config = .ok manifest) :
    Complete config ⟨withManifest config b manifest.generation encoded listing, now,
      some (manifest, index)⟩ manifest index where
  tidy := tidy_withManifest tidy
  listed := manifestAt_withManifest lists
  snapshot := by
    rw [content_withManifest decodes]
    rfl
  increasing := by simp [empty]
  below := by simp [empty]
  recorded := by simp [empty]
  full := by simp [empty]

theorem Complete.added {now offset : Nat} {data : Bytes} (complete : Complete config a manifest index)
    (later : a.clock ≤ now) (some_data : data ≠ [])
    (decodes : pipelineDecode pf encoded config = .ok data)
    (lists : decodeManifest pf listing config =
      .ok (manifest.addSegment index now offset data.length)) :
    Complete config ⟨withAdded config a.bucket manifest index encoded listing, now,
        some (manifest.addSegment index now offset data.length, index + 1)⟩
      (manifest.addSegment index now offset data.length) (index + 1) where
  tidy := by
    have saved : Tidy config (Spec.store config a.bucket (.segment manifest.generation index) encoded)
        manifest.generation := complete.tidy.own fun own h => (Option.some.inj h).symm
    have listed : Tidy config (withAdded config a.bucket manifest index encoded listing)
        manifest.generation := saved.own fun own h => (Option.some.inj h).symm
    exact listed
  listed := manifestAt_store lists
  snapshot := by
    have same : content config (withAdded config a.bucket manifest index encoded listing)
        (.snapshot manifest.generation) =
        content config a.bucket (.snapshot manifest.generation) :=
      content_congr config (by simp [withAdded])
    exact same ▸ complete.snapshot
  increasing := by
    rw [GenerationManifest.addSegment_segments, List.map_append]
    refine List.pairwise_append.mpr ⟨complete.increasing, List.pairwise_singleton _ _, ?_⟩
    intro i hi j hj
    obtain ⟨s, hs, rfl⟩ := List.mem_map.mp hi
    rw [List.mem_singleton.mp hj]
    exact complete.below s hs
  below := by
    intro s hs
    obtain old | new := List.mem_append.mp hs
    · exact Nat.lt_succ_of_lt (complete.below s old)
    · rw [List.mem_singleton.mp new]
      exact Nat.lt_succ_self _
  recorded := by
    intro s hs
    obtain old | new := List.mem_append.mp hs
    · exact (complete.recorded s old).trans later
    · rw [List.mem_singleton.mp new]
  full := by
    intro s hs
    obtain old | new := List.mem_append.mp hs
    · obtain ⟨bytes, nonempty, held⟩ := complete.full s old
      have other := Nat.ne_of_lt (complete.below s old)
      refine ⟨bytes, nonempty, Eq.trans (content_congr config ?_) held⟩
      simp [withAdded, other]
    · rw [List.mem_singleton.mp new]
      exact ⟨data, some_data, content_withAdded decodes⟩

theorem Complete.compacted (complete : Complete config a manifest index)
    (recompacts : Recompacts config manifest index pairs listing a.clock t') :
    Complete config ⟨recompacted config a.bucket manifest pairs listing, t',
        some ({ manifest with segments := pairs.map Prod.fst }, index + pairs.length)⟩
      { manifest with segments := pairs.map Prod.fst } (index + pairs.length) where
  tidy := by
    have swapped : Tidy config (Spec.store config
        (storeSegments config manifest.generation pairs a.bucket) (.manifest manifest.generation)
        listing) manifest.generation :=
      (complete.tidy.storeSegments pairs).own fun own h => (Option.some.inj h).symm
    exact swapped.eraseSegments _
  listed := manifestAt_recompacted recompacts.lists
  snapshot := by
    have same : content config (recompacted config a.bucket manifest pairs listing)
        (.snapshot manifest.generation) =
        content config a.bucket (.snapshot manifest.generation) :=
      content_congr config (object_recompacted rfl (by simp))
    exact same ▸ complete.snapshot
  increasing := by
    have numbers : (pairs.map Prod.fst).map SegmentMeta.index = List.range' index pairs.length := by
      rw [List.map_map]
      exact recompacts.numbered
    change ((pairs.map Prod.fst).map SegmentMeta.index).Pairwise (· < ·)
    rw [numbers]
    exact List.pairwise_lt_range'
  below := by
    intro s hs
    obtain ⟨p, hp, rfl⟩ := List.mem_map.mp hs
    exact (recompacts.above hp).2
  recorded := by
    intro s hs
    obtain ⟨p, hp, rfl⟩ := List.mem_map.mp hs
    exact recompacts.stamps p hp
  full := by
    intro s hs
    obtain ⟨p, hp, rfl⟩ := List.mem_map.mp hs
    obtain ⟨data, nonempty, decodes⟩ := recompacts.decodes p hp
    refine ⟨data, nonempty, ?_⟩
    change content config _ (.segment manifest.generation p.1.index) = _
    unfold content
    rw [recompacts.kept complete.below hp, Option.bind_some, decodes]
    rfl

theorem Complete.expired {now cutoffMs : Nat} (complete : Complete config a manifest index)
    (later : a.clock ≤ now) (expunged : Expunged config a.bucket manifest.generation cutoffMs b') :
    Complete config ⟨b', now, some (manifest, index)⟩ manifest index := by
  have left : ∀ o, ownerOf o = some manifest.generation →
      object config b' o = object config a.bucket o :=
    fun o owner => expunged.left complete.tidy (fun other => absurd rfl other) (objectKey_inside owner)
  exact
    { tidy := expunged.tidy complete.tidy
      listed := (manifestAt_congr config (left _ rfl)).trans complete.listed
      snapshot := content_congr config (left (.snapshot _) rfl) ▸ complete.snapshot
      increasing := complete.increasing
      below := complete.below
      recorded := fun s hs => (complete.recorded s hs).trans later
      full := by
        intro s hs
        obtain ⟨data, nonempty, held⟩ := complete.full s hs
        exact ⟨data, nonempty, (content_congr config (left _ rfl)).trans held⟩ }

theorem Archive.Filed.step (advances : ∀ t t', tick t t' → t ≤ t') (filed : a.Filed config)
    (step : Archive.Step config tick a a') : a'.Filed config := by
  cases step with
  | grew step =>
    cases step with
    | waited ticks =>
      refine ⟨filed.filed, fun manifest index same => ?_⟩
      have complete := filed.complete manifest index same
      exact { complete with recorded := fun s hs => (complete.recorded s hs).trans (advances _ _ ticks) }
    | closed => exact ⟨filed.filed, nofun⟩
    | @began b t created now c generation raw encoded listing fresh ticks ticks' decodes lists =>
      have listed : manifestAt config (withManifest config b generation encoded listing)
          (firstManifest generation created now).generation =
          some (firstManifest generation created now) := manifestAt_withManifest lists
      refine ⟨filed_of_beside listed filed.filed fun key m => readableAt_withManifest, ?_⟩
      rintro _ _ ⟨⟩
      exact complete_withManifest (tidy_of_fresh fresh) rfl decodes lists
    | @added b t now index offset manifest data encoded listing ticks some_data decodes lists =>
      have listed : manifestAt config (withAdded config b manifest index encoded listing)
          (manifest.addSegment index now offset data.length).generation =
          some (manifest.addSegment index now offset data.length) := manifestAt_store lists
      refine ⟨filed_of_beside listed filed.filed fun key m => readableAt_withAdded, ?_⟩
      rintro _ _ ⟨⟩
      exact (filed.complete manifest index rfl).added (advances _ _ ticks) some_data decodes lists
  | @restarted b t now index manifest raw encoded listing ticks decodes lists =>
    have listed : manifestAt config (withManifest config b manifest.generation encoded listing)
        (restamped manifest now).generation = some (restamped manifest now) :=
      manifestAt_withManifest lists
    refine ⟨filed_of_beside listed filed.filed fun key m => readableAt_withManifest, ?_⟩
    rintro _ _ ⟨⟩
    have tidy : Tidy config b (restamped manifest now).generation :=
      (filed.complete manifest index rfl).tidy
    exact complete_withManifest tidy rfl decodes lists
  | @compacted b t t' index manifest pairs listing recompacts =>
    have listed : manifestAt config (recompacted config b manifest pairs listing)
        { manifest with segments := pairs.map Prod.fst }.generation =
        some { manifest with segments := pairs.map Prod.fst } :=
      manifestAt_recompacted recompacts.lists
    refine ⟨filed_of_beside listed filed.filed fun key m read apart =>
      beside_recompacted.readable read apart, ?_⟩
    rintro _ _ ⟨⟩
    exact (filed.complete manifest index rfl).compacted recompacts
  | @expired b b' t now index cutoffMs manifest ticks expunged =>
    constructor
    · intro key m read
      refine filed.filed key m (read.of_lookup ?_)
      obtain same | ⟨gone, -⟩ := expunged ((S3Client.new config.s3).fullKey key)
      · exact .inl same
      · exact .inr gone
    · rintro _ _ ⟨⟩
      exact (filed.complete manifest index rfl).expired (advances _ _ ticks) expunged

end

end Waloy.Spec
