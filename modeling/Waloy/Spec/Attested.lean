import Waloy.Spec.Sightings

/-!
# Manifests that tell when their content was read

A manifest is attested when its snapshot was read from the database file before its time,
and each of its segments from the WAL file before the time of the segment. The manifests
of a bucket stay attested as long as the manager uploads the manifest of what it puts.
-/
namespace Waloy.Spec
open Waloy.Effect Waloy.Source Waloy.Source.BackupManager

variable {pf : Platform} (config : BackupConfig pf.build)

/-- The path of the WAL file. -/
def walPathOf : Str := config.dbPath ++ ['-', 'w', 'a', 'l']

/-- The segment was read at its place in the WAL file at its time or before. -/
def SegmentSeen (l : Ledger) (generation : Str) (s : SegmentMeta) : Prop :=
  ∃ data, content config l.bucket (.segment generation s.index) = some data ∧
    data.length = s.size ∧ l.account.SawAt (walPathOf config) s.timestampMs s.offset data

structure Attested (l : Ledger) (manifest : GenerationManifest) : Prop where
  snapshot : ∃ raw, content config l.bucket (.snapshot manifest.generation) = some raw ∧
    l.account.Saw config.dbPath manifest.snapshotTimestampMs raw
  tiles : ∃ stop, Tiles 0 manifest.segments stop
  ordered : (manifest.segments.map SegmentMeta.timestampMs).Pairwise (· ≤ ·)
  segments : ∀ s ∈ manifest.segments, SegmentSeen config l manifest.generation s

/-- The manifests of a bucket, but that of one generation, are filed and attested. -/
def Others (generation : Str) (l : Ledger) : Prop :=
  ∀ key manifest, ReadableAt config l.bucket key manifest →
    key ≠ (Object.manifest generation).key →
    key = (Object.manifest manifest.generation).key ∧ Attested config l manifest

/-- All manifests of the bucket are filed and attested. -/
def AllAttested (l : Ledger) : Prop :=
  ∀ key manifest, ReadableAt config l.bucket key manifest →
    key = (Object.manifest manifest.generation).key ∧ Attested config l manifest

section
variable {config} {l : Ledger} {b b' : Bucket} {acc acc' : Account} {generation own : Str}
  {o : Object} {data encoded raw : Bytes} {manifest M : GenerationManifest} {s : SegmentMeta}
  {start stop T : Nat}

theorem SegmentSeen.congr (seen : SegmentSeen config ⟨b, acc⟩ generation s) (grows : acc.Grows acc')
    (same : object config b' (.segment generation s.index) =
      object config b (.segment generation s.index)) : SegmentSeen config ⟨b', acc'⟩ generation s := by
  obtain ⟨data, held, length, saw⟩ := seen
  exact ⟨data, (content_congr config same).trans held, length, saw.mono grows (Nat.le_refl _)⟩

/-- A manifest stays attested while its own objects stay. -/
theorem Attested.congr (attested : Attested config ⟨b, acc⟩ manifest) (grows : acc.Grows acc')
    (snapshot : object config b' (.snapshot manifest.generation) =
      object config b (.snapshot manifest.generation))
    (segments : ∀ s ∈ manifest.segments, object config b' (.segment manifest.generation s.index) =
      object config b (.segment manifest.generation s.index)) :
    Attested config ⟨b', acc'⟩ manifest where
  snapshot := by
    obtain ⟨raw, held, saw⟩ := attested.snapshot
    exact ⟨raw, (content_congr config snapshot).trans held, saw.mono grows⟩
  tiles := attested.tiles
  ordered := attested.ordered
  segments s hs := (attested.segments s hs).congr grows (segments s hs)

/-- The next segment is listed when it was seen. -/
theorem Attested.added {index t offset size : Nat} (attested : Attested config l manifest)
    (tiles : Tiles 0 manifest.segments offset) (recorded : ∀ s ∈ manifest.segments, s.timestampMs ≤ t)
    (seen : SegmentSeen config l manifest.generation ⟨index, t, offset, size⟩) :
    Attested config l (manifest.addSegment index t offset size) where
  snapshot := attested.snapshot
  tiles := ⟨offset + size, tiles.append ⟨rfl, rfl⟩⟩
  ordered := by
    rw [GenerationManifest.addSegment_segments, List.map_append]
    refine List.pairwise_append.mpr ⟨attested.ordered, List.pairwise_singleton _ _, ?_⟩
    intro t₁ h₁ t₂ h₂
    obtain ⟨s, hs, rfl⟩ := List.mem_map.mp h₁
    obtain rfl := List.mem_singleton.mp h₂
    exact recorded s hs
  segments := by
    intro s hs
    obtain old | new := List.mem_append.mp hs
    · exact attested.segments s old
    · obtain rfl := List.mem_singleton.mp new
      exact seen

/-- A manifest of another generation. -/
theorem Attested.other (attested : Attested config ⟨b, acc⟩ manifest) (grows : acc.Grows acc')
    (outside : ∀ o, ownerOf o = some manifest.generation → object config b' o = object config b o) :
    Attested config ⟨b', acc'⟩ manifest :=
  attested.congr grows (outside _ rfl) fun _ _ => outside _ rfl

theorem Others.grow (others : Others config generation ⟨b, acc⟩) (grows : acc.Grows acc') :
    Others config generation ⟨b, acc'⟩ := by
  intro key M read apart
  obtain ⟨filed, attested⟩ := others key M read apart
  exact ⟨filed, attested.other grows fun _ _ => rfl⟩

/-- The objects of a generation may change without harm to the others. -/
theorem Others.change (others : Others config generation ⟨b, acc⟩)
    (read : ∀ key M, ReadableAt config b' key M → key ≠ (Object.manifest generation).key →
      ReadableAt config b key M)
    (same : ∀ o, ownerOf o ≠ some generation → ownerOf o ≠ none →
      object config b' o = object config b o) :
    Others config generation ⟨b', acc⟩ := by
  intro key M here apart
  obtain ⟨filed, attested⟩ := others key M (read key M here apart) apart
  refine ⟨filed, attested.other (.refl _) fun o owner => same o ?_ ?_⟩
  · rw [owner]
    rintro own
    rw [filed, Option.some.inj own] at apart
    exact apart rfl
  · rw [owner]
    exact Option.some_ne_none _

theorem Others.store (others : Others config generation ⟨b, acc⟩)
    (owner : ∀ own, ownerOf o = some own → own = generation) :
    Others config generation ⟨store config b o data, acc⟩ := by
  refine others.change (fun key M here apart => ?_) fun o' outside some_owner => ?_
  · obtain ⟨same, -⟩ | ⟨-, before⟩ := here.of_store
    · obtain ⟨own, rfl⟩ := eq_manifest_of_suffix (same ▸ here.1)
      rw [owner own rfl] at same
      exact absurd same apart
    · exact before
  · rw [object_store, if_neg]
    rintro rfl
    cases owned : ownerOf o' with
    | none => exact some_owner owned
    | some own => exact outside (owned.trans (congrArg some (owner own owned)))

theorem Others.erase (others : Others config generation ⟨b, acc⟩)
    (owner : ownerOf o = some generation) :
    Others config generation ⟨b.erase (objectKey config o), acc⟩ := by
  refine others.change (fun key M here _ => here.of_lookup ?_) fun o' outside _ => ?_
  · by_cases same : (S3Client.new config.s3).fullKey key = objectKey config o
    · rw [same]
      exact .inr (AList.lookup_erase _ _)
    · exact .inl (AList.lookup_erase_ne same)
  · rw [object_erase, if_neg]
    rintro rfl
    exact outside owner

theorem AllAttested.others (all : AllAttested config l) : Others config generation l :=
  fun key M read _ => all key M read

theorem AllAttested.grow (all : AllAttested config ⟨b, acc⟩) (grows : acc.Grows acc') :
    AllAttested config ⟨b, acc'⟩ := by
  intro key M read
  obtain ⟨filed, attested⟩ := all key M read
  exact ⟨filed, attested.other grows fun _ _ => rfl⟩

/-- A generation without a manifest. -/
theorem Others.all_of_unlisted (others : Others config generation l)
    (unlisted : object config l.bucket (.manifest generation) = none) : AllAttested config l := by
  intro key M read
  refine others key M read ?_
  rintro rfl
  obtain ⟨-, raw, present, -⟩ := read
  cases unlisted.symm.trans present

/-- A generation whose manifest is attested. -/
theorem Others.all_of_listed (others : Others config manifest.generation l)
    (listed : manifestAt config l.bucket manifest.generation = some manifest)
    (attested : Attested config l manifest) : AllAttested config l := by
  intro key M read
  by_cases own : key = (Object.manifest manifest.generation).key
  · obtain rfl := eq_of_listed listed read own
    exact ⟨own, attested⟩
  · exact others key M read own

/-- What is replayed up to a time was read at its place by that time. -/
theorem sawAt_segmentsData {segments : List SegmentMeta} (tiles : Tiles start segments stop)
    (ordered : (segments.map SegmentMeta.timestampMs).Pairwise (· ≤ ·))
    (seen : ∀ s ∈ segments, SegmentSeen config l generation s)
    (found : segmentsData config l.bucket generation
      (segments.filter fun s => s.timestampMs ≤ T) = some data) :
    l.account.SawAt (walPathOf config) T start data := by
  induction segments generalizing start data with
  | nil =>
    cases found
    exact Account.sawAt_nil
  | cons s rest ih =>
    obtain ⟨first, ordered⟩ := List.pairwise_cons.mp ordered
    obtain ⟨offset, tiles⟩ := tiles
    by_cases early : s.timestampMs ≤ T
    · rw [List.filter_cons_of_pos (by simpa using early)] at found
      obtain ⟨x, hx, later⟩ := Option.bind_eq_some_iff.mp found
      obtain ⟨y, hy, rfl⟩ := Option.map_eq_some_iff.mp later
      obtain ⟨x', held, length, saw⟩ := seen s List.mem_cons_self
      obtain rfl : x' = x := Option.some.inj (held.symm.trans hx)
      rw [offset] at saw
      refine (saw.mono (.refl _) early).append ?_
      rw [length]
      exact ih tiles ordered (fun s' hs' => seen s' (List.mem_cons_of_mem _ hs')) hy
    · have none_left : (s :: rest).filter (fun s => s.timestampMs ≤ T) = [] := by
        refine List.filter_eq_nil_iff.mpr fun s' hs' => ?_
        have late : s.timestampMs ≤ s'.timestampMs := by
          obtain rfl | hs' := List.mem_cons.mp hs'
          · exact Nat.le_refl _
          · exact first _ (List.mem_map_of_mem hs')
        rw [decide_eq_true_eq]
        omega
      rw [none_left] at found
      cases found
      exact Account.sawAt_nil

/-- What a manifest of the bucket tells to replay was read by that time. -/
theorem AllAttested.rebuilt {key : Str} {snapshot wal : Bytes} (all : AllAttested config l)
    (read : ReadableAt config l.bucket key manifest) (old : manifest.snapshotTimestampMs ≤ T)
    (held : content config l.bucket (.snapshot manifest.generation) = some snapshot)
    (replayed : segmentsData config l.bucket manifest.generation
      (manifest.segments.filter fun s => s.timestampMs ≤ T) = some wal) :
    l.account.Saw config.dbPath T snapshot ∧ l.account.SawAt (walPathOf config) T 0 wal := by
  obtain ⟨-, attested⟩ := all key manifest read
  constructor
  · obtain ⟨raw, held', saw⟩ := attested.snapshot
    obtain rfl : raw = snapshot := Option.some.inj (held'.symm.trans held)
    exact saw.later old
  · obtain ⟨stop, tiles⟩ := attested.tiles
    exact sawAt_segmentsData tiles attested.ordered attested.segments replayed

end

end Waloy.Spec
