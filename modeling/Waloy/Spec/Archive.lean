import Waloy.Spec.Selection

/-!
# The archive that a backup keeps

Seen from the bucket, a backup is a sequence of generations, the newest of which grows
by segments. Under a clock that advances, the past of the archive is never written
again: what it held at an instant can be told from it at any later one.
-/
namespace Waloy.Spec
open Waloy.Effect Waloy.Source Waloy.Source.BackupManager

variable {pf : Platform} (config : BackupConfig pf.build)

structure Archive where
  bucket : Bucket
  clock : Nat
  /-- The manifest of the open manager, and the index of its next segment. -/
  current : Option (GenerationManifest × Nat)

/-- The manifest of a new generation once its snapshot is taken. -/
def firstManifest (generation : Str) (created now : Nat) : GenerationManifest :=
  restamped (GenerationManifest.new generation created) now

/-- The bucket once a segment and the manifest that lists it are stored. -/
def withAdded (b : Bucket) (manifest : GenerationManifest) (index : Nat) (encoded listing : Bytes) :
    Bucket :=
  store config (store config b (.segment manifest.generation index) encoded)
    (.manifest manifest.generation) listing

/-- What the operations without a failure do to an archive, under a clock. -/
inductive Archive.Grow (tick : Nat → Nat → Prop) : Archive → Archive → Prop where
  | waited {b : Bucket} {t t' : Nat} {c : Option (GenerationManifest × Nat)} (ticks : tick t t') :
      Grow tick ⟨b, t, c⟩ ⟨b, t', c⟩
  | closed {b : Bucket} {t : Nat} {c : Option (GenerationManifest × Nat)} :
      Grow tick ⟨b, t, c⟩ ⟨b, t, none⟩
  | began {b : Bucket} {t created now : Nat} {c : Option (GenerationManifest × Nat)}
      {generation : Str} {raw encoded listing : Bytes} (fresh : Fresh b generation)
      (ticks : tick t created) (ticks' : tick created now)
      (decodes : pipelineDecode pf encoded config = .ok raw)
      (lists : decodeManifest pf listing config = .ok (firstManifest generation created now)) :
      Grow tick ⟨b, t, c⟩ ⟨withManifest config b generation encoded listing, now,
        some (firstManifest generation created now, 0)⟩
  | added {b : Bucket} {t now index offset : Nat} {manifest : GenerationManifest}
      {data encoded listing : Bytes} (ticks : tick t now) (some_data : data ≠ [])
      (decodes : pipelineDecode pf encoded config = .ok data)
      (lists : decodeManifest pf listing config =
        .ok (manifest.addSegment index now offset data.length)) :
      Grow tick ⟨b, t, some (manifest, index)⟩
        ⟨withAdded config b manifest index encoded listing, now,
          some (manifest.addSegment index now offset data.length, index + 1)⟩

/-- The manifest of the open manager is the newest of its archive. -/
structure Newest (a : Archive) (manifest : GenerationManifest) (index : Nat) : Prop where
  latest : object config a.bucket .latest = some (asBytes manifest.generation)
  listed : manifestAt config a.bucket manifest.generation = some manifest
  below : ∀ s ∈ manifest.segments, s.index < index
  stamped : manifest.snapshotTimestampMs ≤ a.clock
  recorded : ∀ s ∈ manifest.segments, s.timestampMs ≤ a.clock
  newest : ∀ key other, ReadableAt config a.bucket key other →
    key ≠ (Object.manifest manifest.generation).key →
    other.snapshotTimestampMs < manifest.snapshotTimestampMs

/-- No manifest is from the future. -/
structure Archive.Dated (a : Archive) : Prop where
  past : ∀ key manifest, ReadableAt config a.bucket key manifest →
    manifest.snapshotTimestampMs ≤ a.clock
  newest : ∀ manifest index, a.current = some (manifest, index) → Newest config a manifest index

/-- The generation that was the newest at a time, as a bucket held it then. -/
structure Past (timestampMs : Nat) (b : Bucket) (manifest : GenerationManifest) (a : Archive) :
    Prop where
  reached : timestampMs ≤ a.clock
  taken : manifest.snapshotTimestampMs ≤ timestampMs
  recorded : ∀ s ∈ manifest.segments, s.timestampMs ≤ timestampMs
  extended : ∃ later, manifestAt config a.bucket manifest.generation =
      some { manifest with segments := manifest.segments ++ later } ∧
    ∀ s ∈ later, timestampMs < s.timestampMs
  newest : ∀ key other, ReadableAt config a.bucket key other →
    key ≠ (Object.manifest manifest.generation).key →
    other.snapshotTimestampMs < manifest.snapshotTimestampMs ∨
      timestampMs < other.snapshotTimestampMs
  snapshot : object config a.bucket (.snapshot manifest.generation) =
    object config b (.snapshot manifest.generation)
  segments : ∀ s ∈ manifest.segments,
    object config a.bucket (.segment manifest.generation s.index) =
      object config b (.segment manifest.generation s.index)

section
variable {config} {tick : Nat → Nat → Prop} {a a' : Archive} {b b₀ : Bucket} {T : Nat}
  {manifest M : GenerationManifest} {generation key targetPath : Str} {encoded listing : Bytes}

/-- A generation that is fresh has no objects. -/
theorem Fresh.absent (fresh : Fresh b generation) {o : Object} (owner : ownerOf o = some generation) :
    object config b o = none := by
  apply AList.lookup_eq_none.mpr
  intro present
  have tidy : Tidy config b generation := tidy_of_fresh fresh
  refine fresh.2 _ (AList.mem_keys.mp present) ?_
  have under : (S3Client.new config.s3).fullKey (generation ++ ['/']) <+: objectKey config o :=
    objectKey_inside owner
  have inside : generation ++ ['/'] <+: o.key := (S3Client.fullKey_prefix _).mp under
  have within : o.key <:+: objectKey config o := by
    unfold objectKey S3Client.fullKey
    split
    · exact List.infix_rfl
    · exact ⟨(S3Client.new config.s3).keyPrefix ++ ['/'], [], by simp⟩
  exact inside.isInfix.trans within

/-- A generation with a manifest is not drawn again. -/
theorem Fresh.ne (fresh : Fresh b generation)
    (listed : manifestAt config b manifest.generation = some M) : manifest.generation ≠ generation := by
  rintro rfl
  rw [manifestAt, fresh.absent rfl] at listed
  cases listed

theorem readableAt_withManifest {other : GenerationManifest}
    (read : ReadableAt config (withManifest config b generation encoded listing) key other)
    (apart : key ≠ (Object.manifest generation).key) : ReadableAt config b key other := by
  obtain ⟨same, -⟩ | ⟨-, before⟩ := read.of_store
  · exact absurd same apart
  · rw [withLatest, readableAt_store (by simp), withSnapshot, readableAt_store (by simp)] at before
    exact before

theorem readableAt_withAdded {index : Nat} {other : GenerationManifest}
    (read : ReadableAt config (withAdded config b manifest index encoded listing) key other)
    (apart : key ≠ (Object.manifest manifest.generation).key) : ReadableAt config b key other := by
  obtain ⟨same, -⟩ | ⟨-, before⟩ := read.of_store
  · exact absurd same apart
  · rwa [readableAt_store (by simp)] at before

/-- The manifest that was stored last is the one that is read. -/
theorem eq_of_listed (listed : manifestAt config b generation = some manifest) {other : GenerationManifest}
    (read : ReadableAt config b key other) (same : key = (Object.manifest generation).key) :
    other = manifest := by
  subst same
  exact read.unique (manifestAt_eq_some.mp listed)

theorem manifestAt_withManifest
    (lists : decodeManifest pf listing config = .ok manifest) :
    manifestAt config (withManifest config b generation encoded listing) generation = some manifest :=
  manifestAt_store lists

theorem Archive.Dated.grow (advances : ∀ t t', tick t t' → t < t') (dated : a.Dated config)
    (step : Archive.Grow config tick a a') : a'.Dated config := by
  cases step with
  | waited ticks =>
    have later := advances _ _ ticks
    refine ⟨fun key m read => (dated.past key m read).trans later.le, fun manifest index same => ?_⟩
    have newest := dated.newest manifest index same
    exact
      { newest with
        stamped := newest.stamped.trans later.le
        recorded := fun s hs => (newest.recorded s hs).trans later.le }
  | closed => exact ⟨dated.past, nofun⟩
  | @began b t created now c generation raw encoded listing fresh ticks ticks' decodes lists =>
    have later : t < now := (advances _ _ ticks).trans (advances _ _ ticks')
    have listed : manifestAt config (withManifest config b generation encoded listing) generation =
        some (firstManifest generation created now) := manifestAt_withManifest lists
    have older : ∀ key m, ReadableAt config (withManifest config b generation encoded listing) key m →
        key ≠ (Object.manifest generation).key → m.snapshotTimestampMs < now :=
      fun key m read apart =>
        Nat.lt_of_le_of_lt (dated.past key m (readableAt_withManifest read apart)) later
    constructor
    · intro key m read
      by_cases same : key = (Object.manifest generation).key
      · rw [eq_of_listed listed read same]
        exact Nat.le_refl now
      · exact (older key m read same).le
    · rintro manifest index ⟨⟩
      exact
        { latest := by simp [withManifest, withLatest, firstManifest, restamped, GenerationManifest.new]
          listed := listed
          below := nofun
          stamped := Nat.le_refl now
          recorded := nofun
          newest := older }
  | @added b t now index offset manifest data encoded listing ticks some_data decodes lists =>
    have later := advances _ _ ticks
    have newest := dated.newest manifest index rfl
    have listed : manifestAt config (withAdded config b manifest index encoded listing)
        manifest.generation = some (manifest.addSegment index now offset data.length) :=
      manifestAt_store lists
    constructor
    · intro key m read
      by_cases same : key = (Object.manifest manifest.generation).key
      · rw [eq_of_listed listed read same]
        exact newest.stamped.trans later.le
      · exact (dated.past key m (readableAt_withAdded read same)).trans later.le
    · rintro _ _ ⟨⟩
      exact
        { latest := by simpa [withAdded] using newest.latest
          listed := listed
          below := by
            intro s hs
            obtain old | new := List.mem_append.mp hs
            · exact Nat.lt_succ_of_lt (newest.below s old)
            · rw [List.mem_singleton.mp new]
              exact Nat.lt_succ_self _
          stamped := newest.stamped.trans later.le
          recorded := by
            intro s hs
            obtain old | new := List.mem_append.mp hs
            · exact (newest.recorded s old).trans later.le
            · rw [List.mem_singleton.mp new]
          newest := fun key m read apart =>
            newest.newest key m (readableAt_withAdded read apart) apart }

theorem Past.start {index : Nat} (newest : Newest config a manifest index) :
    Past config a.clock a.bucket manifest a where
  reached := Nat.le_refl _
  taken := newest.stamped
  recorded := newest.recorded
  extended := ⟨[], by simpa using newest.listed, nofun⟩
  newest key other read apart := .inl (newest.newest key other read apart)
  snapshot := rfl
  segments _ _ := rfl

/-- No step of the archive reaches its past. -/
theorem Past.grow (advances : ∀ t t', tick t t' → t < t') (dated : a.Dated config)
    (past : Past config T b₀ manifest a) (step : Archive.Grow config tick a a') :
    Past config T b₀ manifest a' := by
  obtain ⟨later, extended, after⟩ := past.extended
  cases step with
  | waited ticks => exact { past with reached := past.reached.trans (advances _ _ ticks).le }
  | closed => exact { past with }
  | @began b t created now c generation raw encoded listing fresh ticks ticks' decodes lists =>
    have other : manifest.generation ≠ generation := fresh.ne extended
    have advanced : t < now := (advances _ _ ticks).trans (advances _ _ ticks')
    have future : T < now := Nat.lt_of_le_of_lt past.reached advanced
    exact
      { reached := future.le
        taken := past.taken
        recorded := past.recorded
        extended := by
          refine ⟨later, ?_, after⟩
          rw [← extended]
          exact manifestAt_congr config (by simp [withManifest, withLatest, withSnapshot, other])
        newest := by
          intro key m read apart
          by_cases same : key = (Object.manifest generation).key
          · rw [eq_of_listed (manifestAt_withManifest lists) read same]
            exact .inr future
          · exact past.newest key m (readableAt_withManifest read same) apart
        snapshot := by
          rw [← past.snapshot]
          simp [withManifest, withLatest, withSnapshot, other]
        segments := by
          intro s hs
          rw [← past.segments s hs]
          simp [withManifest, withLatest, withSnapshot] }
  | @added b t now index offset current data encoded listing ticks some_data decodes lists =>
    have future : T < now := Nat.lt_of_le_of_lt past.reached (advances _ _ ticks)
    have newest := dated.newest current index rfl
    have listed : manifestAt config (withAdded config b current index encoded listing)
        current.generation = some (current.addSegment index now offset data.length) :=
      manifestAt_store lists
    by_cases own : manifest.generation = current.generation
    · have same : current = { manifest with segments := manifest.segments ++ later } := by
        have now_listed := newest.listed
        rw [← own] at now_listed
        exact Option.some.inj (now_listed.symm.trans extended)
      have unnamed : ∀ s ∈ manifest.segments, s.index ≠ index := by
        intro s hs
        refine Nat.ne_of_lt (newest.below s ?_)
        rw [same]
        exact List.mem_append_left _ hs
      exact
        { reached := future.le
          taken := past.taken
          recorded := past.recorded
          extended := by
            refine ⟨later ++ [⟨index, now, offset, data.length⟩], ?_, ?_⟩
            · rw [own, listed, same]
              simp [GenerationManifest.addSegment]
            · intro s hs
              obtain old | new := List.mem_append.mp hs
              · exact after s old
              · rw [List.mem_singleton.mp new]
                exact future
          newest := fun key m read apart =>
            past.newest key m (readableAt_withAdded read (own ▸ apart)) apart
          snapshot := by
            rw [← past.snapshot]
            simp [withAdded]
          segments := by
            intro s hs
            rw [← past.segments s hs]
            simp [withAdded, unnamed s hs] }
    · exact
        { reached := future.le
          taken := past.taken
          recorded := past.recorded
          extended := by
            refine ⟨later, ?_, after⟩
            rw [← extended]
            exact manifestAt_congr config (by simp [withAdded, own])
          newest := by
            intro key m read apart
            by_cases same : key = (Object.manifest current.generation).key
            · rw [eq_of_listed listed read same]
              have read_now := manifestAt_eq_some.mp newest.listed
              exact past.newest _ current read_now (same ▸ apart)
            · exact past.newest key m (readableAt_withAdded read same) apart
          snapshot := by
            rw [← past.snapshot]
            simp [withAdded]
          segments := by
            intro s hs
            rw [← past.segments s hs]
            simp [withAdded, own] }

/-- What a generation rebuilds with a list of segments. -/
def rebuiltFrom (config : BackupConfig pf.build) (b : Bucket) (manifest : GenerationManifest) :
    Option Restored :=
  (content config b (.snapshot manifest.generation)).bind fun snapshot =>
    (segmentsData config b manifest.generation manifest.segments).map fun wal => ⟨snapshot, wal⟩

theorem Newest.restored {index : Nat} (newest : Newest config a manifest index) :
    restoredLatest config a.bucket targetPath = rebuiltFrom config a.bucket manifest := by
  rw [restoredLatest_eq, newest.latest, Option.bind_some, fromUtf8_asBytes, Option.bind_some]
  exact rebuilt_of_manifest newest.listed

/-- A point-in-time restore rebuilds what the bucket held then. -/
theorem Past.restored (past : Past config T b₀ manifest a) :
    restoredToTime config T a.bucket targetPath = rebuiltFrom config b₀ manifest := by
  obtain ⟨later, extended, after⟩ := past.extended
  have selected : selectManifest (readable config a.bucket) T =
      some { manifest with segments := manifest.segments ++ later } := by
    refine selectManifest_eq_some (mem_readable.mpr ⟨_, manifestAt_eq_some.mp extended⟩) past.taken ?_
    intro other member recent
    obtain ⟨key, read⟩ := mem_readable.mp member
    by_cases same : key = (Object.manifest manifest.generation).key
    · exact .inl (eq_of_listed extended read same)
    · obtain older | newer := past.newest key other read same
      · exact .inr older
      · omega
  have replayed : (manifest.segments ++ later).filter (fun s => s.timestampMs ≤ T) =
      manifest.segments := by
    rw [List.filter_append, List.filter_eq_self.mpr, List.filter_eq_nil_iff.mpr, List.append_nil]
    · intro s hs
      have := after s hs
      simpa using this
    · intro s hs
      simpa using past.recorded s hs
  rw [restoredToTime_eq, rebuiltToTime, selected, Option.bind_some]
  simp only [replayed]
  rw [content_congr config past.snapshot, segmentsData_congr config past.segments]
  rfl

end

end Waloy.Spec
