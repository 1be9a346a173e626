import Waloy.Spec.Snapshot

/-!
# What a compaction may do

The exits of `compact`: the download of the old segments, the loop that uploads
them again in chunks, the manifest that names the chunks and the deletes of the old
segments. Each loop has a rule by induction over its iterations.
-/
namespace Waloy.Spec
open Waloy.Effect Waloy.Source Waloy.Source.BackupManager

variable {pf : Platform} (config : BackupConfig pf.build) {A : Type} (env : Env A)

/-- The bucket after segments of a generation are stored, one after the other. -/
def storeSegments (generation : Str) : List (SegmentMeta × Bytes) → Bucket → Bucket
  | [], b => b
  | p :: rest, b =>
    storeSegments generation rest (store config b (.segment generation p.1.index) p.2)

/-- The acknowledgements of these writes. -/
def logSegments (generation : Str) : List (SegmentMeta × Bytes) → List Event → List Event
  | [], log => log
  | p :: rest, log =>
    logSegments generation rest (.stored (objectKey config (.segment generation p.1.index)) :: log)

/-- The bucket after segments of a generation are deleted. -/
def eraseSegments (generation : Str) : List SegmentMeta → Bucket → Bucket
  | [], b => b
  | s :: rest, b =>
    eraseSegments generation rest (b.erase (objectKey config (.segment generation s.index)))

/-- The buckets these deletes pass through. -/
def eraseTrail (generation : Str) : List SegmentMeta → Bucket → List Bucket
  | [], _ => []
  | s :: rest, b =>
    let erased := b.erase (objectKey config (.segment generation s.index))
    erased :: eraseTrail generation rest erased

section
variable {config} {generation : Str} {o : Object}

/-- Stored and deleted segments leave every other object alone. -/
theorem object_storeSegments_of_ne {pairs : List (SegmentMeta × Bytes)} {b : Bucket}
    (h : ∀ p ∈ pairs, o ≠ .segment generation p.1.index) :
    object config (storeSegments config generation pairs b) o = object config b o := by
  induction pairs generalizing b with
  | nil => rfl
  | cons p rest ih =>
    rw [storeSegments, ih fun p' hp' => h p' (List.mem_cons_of_mem _ hp'), object_store,
      if_neg (h p List.mem_cons_self)]

theorem object_eraseSegments_of_ne {segments : List SegmentMeta} {b : Bucket}
    (h : ∀ s ∈ segments, o ≠ .segment generation s.index) :
    object config (eraseSegments config generation segments b) o = object config b o := by
  induction segments generalizing b with
  | nil => rfl
  | cons s rest ih =>
    rw [eraseSegments, ih fun s' hs' => h s' (List.mem_cons_of_mem _ hs'), object_erase,
      if_neg (h s List.mem_cons_self)]

/-- The objects of a backup that are no segments. -/
@[reducible] def isMark : Object → Bool
  | .latest => true
  | .snapshot _ => true
  | .manifest _ => true
  | .segment _ _ => false

@[simp] theorem object_storeSegments (pairs : List (SegmentMeta × Bytes)) (b : Bucket)
    (mark : isMark o = true) :
    object config (storeSegments config generation pairs b) o = object config b o :=
  object_storeSegments_of_ne fun _ _ same => by
    subst same
    cases mark

@[simp] theorem object_eraseSegments (segments : List SegmentMeta) (b : Bucket)
    (mark : isMark o = true) :
    object config (eraseSegments config generation segments b) o = object config b o :=
  object_eraseSegments_of_ne fun _ _ same => by
    subst same
    cases mark

@[simp] theorem drew_mem_logSegments {pairs : List (SegmentMeta × Bytes)} {log : List Event}
    {drawn : Str} : .drew drawn ∈ logSegments config generation pairs log ↔ .drew drawn ∈ log := by
  induction pairs generalizing log with
  | nil => rfl
  | cons p rest ih => simp [logSegments, ih]

end

/-- The bytes of the chunk at an offset, and where the next one begins. -/
def chunkEnd (allData : Bytes) (maxSize offset : Nat) : Nat := min (offset + maxSize) allData.length

def chunkAt (allData : Bytes) (maxSize offset : Nat) : Bytes :=
  (allData.drop offset).take (chunkEnd allData maxSize offset - offset)

/-- Complete iterations of the chunking loop, from an offset, an index and a clock on. -/
inductive Chunked (generation : Str) (allData : Bytes) (maxSize : Nat) :
    Nat → Nat → Nat → List (SegmentMeta × Bytes) → Nat → Nat → Nat → Prop where
  | nil {offset index clock : Nat} :
      Chunked generation allData maxSize offset index clock [] offset index clock
  | cons {offset index clock now next offset' index' clock' : Nat} {encoded : Bytes}
      {rest : List (SegmentMeta × Bytes)} (more : offset < allData.length)
      (sent : Sends config env (.segment generation index) (chunkAt allData maxSize offset) encoded)
      (ticks : env.host.tick clock now) (counted : incrementU32 pf.build index = some next)
      (later : Chunked generation allData maxSize (chunkEnd allData maxSize offset) next now rest
        offset' index' clock') :
      Chunked generation allData maxSize offset index clock
        ((⟨index, now, offset, (chunkAt allData maxSize offset).length⟩, encoded) :: rest)
        offset' index' clock'

structure ChunksWatched (change : Bucket → Bucket → Prop) (generation : Str) (allData : Bytes)
    (maxSize : Nat) (b : Bucket) (offset index clock : Nat) : Prop where
  stays : ∀ {pairs offset' index' clock'},
    Chunked config env generation allData maxSize offset index clock pairs offset' index' clock' →
    change (storeSegments config generation pairs b) (storeSegments config generation pairs b)
  stores : ∀ {pairs offset' index' clock' encoded},
    Chunked config env generation allData maxSize offset index clock pairs offset' index' clock' →
    offset' < allData.length →
    Sends config env (.segment generation index') (chunkAt allData maxSize offset') encoded →
    Along change (storeSegments config generation pairs b)
      [store config (storeSegments config generation pairs b) (.segment generation index') encoded]

section
variable {config env} {change : Bucket → Bucket → Prop} {m self : BackupManager pf.build}
  {w : World A}

theorem wp_downloadSegments (hself : Uses config self) (segments : List SegmentMeta)
    (hstay : change w.bucket w.bucket) :
    Op.wp env.serve (watch change)
      (downloadSegments pf self
        (segments.map fun s => (Object.segment self.generation s.index).key))
      (fun data m' w' => m' = m ∧
        segmentsData config w.bucket self.generation segments = some data ∧
        ∃ a, env.host.during w.app a ∧ w' = { w with app := a })
      (fun _ m' w' => m' = m ∧
        ((∃ s ∈ segments,
            env.Misses w.bucket (objectKey config (.segment self.generation s.index))) ∨
          segmentsData config w.bucket self.generation segments = none) ∧
        ∃ a, env.host.during w.app a ∧ w' = { w with app := a }) m w := by
  induction segments generalizing w with
  | nil => exact ⟨rfl, rfl, w.app, env.host.during_refl _, rfl⟩
  | cons s rest ih =>
    simp only [List.map_cons, downloadSegments, Op.wp_bind, hself.1, hself.2, Op.wp_ofExcept,
      Op.wp_pure]
    refine wp_getObject _ _ hstay ?_ ?_
    · intro a data moved present
      have found : object config w.bucket (.segment self.generation s.index) = some data := present
      cases decoded : pipelineDecode pf data config with
      | error e =>
        refine ⟨rfl, .inr ?_, a, moved, rfl⟩
        simp [segmentsData, content, found, decoded, Except.toOption]
      | ok bytes =>
        have here : content config w.bucket (.segment self.generation s.index) = some bytes := by
          simp [content, found, decoded, Except.toOption]
        refine Op.wp_mono (ih hstay) ?_ ?_
        · rintro later m' w' ⟨rfl, hlater, a', moved', rfl⟩
          refine ⟨rfl, ?_, a', env.host.during_trans moved moved', rfl⟩
          rw [segmentsData, here, Option.bind_some, hlater, Option.map_some]
        · rintro e m' w' ⟨rfl, failed, a', moved', rfl⟩
          refine ⟨rfl, ?_, a', env.host.during_trans moved moved', rfl⟩
          refine failed.imp (fun ⟨s', hs', missed⟩ => ⟨s', List.mem_cons_of_mem _ hs', missed⟩) ?_
          intro hlater
          rw [segmentsData, here, Option.bind_some, hlater, Option.map_none]
    · intro missed e a moved
      exact ⟨rfl, .inl ⟨s, List.mem_cons_self, missed⟩, a, moved, rfl⟩

theorem wp_deleteSegments (hself : Uses config self) (segments : List SegmentMeta)
    (watched : Along change w.bucket (eraseTrail config self.generation segments w.bucket)) :
    Op.wp env.serve (watch change)
      (self.s3.deleteObjects (segments.map fun s => (Object.segment self.generation s.index).key))
      (fun _ m' w' => m' = m ∧ ∃ a, env.host.during w.app a ∧
        w' = { w with
          app := a
          bucket := eraseSegments config self.generation segments w.bucket })
      (fun _ m' w' => m' = m ∧
        (∃ s ∈ segments,
          env.Denies (.deleteObject (objectKey config (.segment self.generation s.index)))) ∧
        ∃ a done rest, env.host.during w.app a ∧ segments = done ++ rest ∧
          w' = { w with
            app := a
            bucket := eraseSegments config self.generation done w.bucket }) m w := by
  induction segments generalizing w with
  | nil => exact ⟨rfl, w.app, env.host.during_refl _, rfl⟩
  | cons s rest ih =>
    simp only [List.map_cons, S3Client.deleteObjects, Op.wp_bind, hself.2]
    obtain ⟨stays, erases, later⟩ := watched
    refine wp_deleteObject _ _ stays erases later.start ?_ ?_
    · intro a moved
      let key := objectKey config (.segment self.generation s.index)
      have next := ih (w := { w with app := a, bucket := w.bucket.erase key }) later
      rw [hself.2] at next
      refine Op.wp_mono next ?_ ?_
      · rintro ⟨⟩ m' w' ⟨rfl, a', moved', rfl⟩
        exact ⟨rfl, a', env.host.during_trans moved moved', rfl⟩
      · rintro e m' w' ⟨rfl, ⟨s', hs', denied⟩, a', done, left, moved', split, rfl⟩
        exact ⟨rfl, ⟨s', List.mem_cons_of_mem _ hs', denied⟩, a', s :: done, left,
          env.host.during_trans moved moved', by rw [split]; rfl, rfl⟩
    · rintro denied e a b moved (rfl | rfl)
      · exact ⟨rfl, ⟨s, List.mem_cons_self, denied⟩, a, [], _, moved, rfl, rfl⟩
      · exact ⟨rfl, ⟨s, List.mem_cons_self, denied⟩, a, [s], rest, moved, rfl, rfl⟩

theorem wp_uploadChunks (hself : Uses config self) (allData : Bytes) (maxSize : Nat)
    (fuel offset index : Nat)
    (watched : ChunksWatched config env change self.generation allData maxSize w.bucket offset index
      w.clock) :
    Op.wp env.serve (watch change) (uploadChunks pf self allData maxSize fuel offset index)
      (fun out m' w' => m' = m ∧ ∃ pairs offset' clock' a,
        Chunked config env self.generation allData maxSize offset index w.clock pairs offset' out.2
          clock' ∧
        allData.length ≤ offset' ∧ out.1 = pairs.map Prod.fst ∧ env.host.during w.app a ∧
        w' = ⟨storeSegments config self.generation pairs w.bucket, a, clock',
          logSegments config self.generation pairs w.log⟩)
      (fun _ m' w' => m' = m ∧ ∃ pairs offset' index' clock' a b,
        Chunked config env self.generation allData maxSize offset index w.clock pairs offset' index'
          clock' ∧
        StoreFails config env (.segment self.generation index')
          (chunkAt allData maxSize offset') ∧
        (b = storeSegments config self.generation pairs w.bucket ∨ ∃ encoded,
          Sends config env (.segment self.generation index') (chunkAt allData maxSize offset')
            encoded ∧
          b = store config (storeSegments config self.generation pairs w.bucket)
            (.segment self.generation index') encoded) ∧
        env.host.during w.app a ∧
        w' = ⟨b, a, clock', logSegments config self.generation pairs w.log⟩) m w := by
  induction fuel generalizing w offset index with
  | zero =>
    unfold uploadChunks
    refine Op.wp_ite (fun _ => trivial) fun finished => ?_
    exact ⟨rfl, [], offset, w.clock, w.app, .nil, Nat.not_lt.mp finished, rfl,
      env.host.during_refl _, rfl⟩
  | succ fuel ih =>
    unfold uploadChunks
    refine Op.wp_ite (fun more => ?_) fun finished => ?_
    swap
    · exact ⟨rfl, [], offset, w.clock, w.app, .nil, Nat.not_lt.mp finished, rfl,
        env.host.during_refl _, rfl⟩
    have start : change w.bucket w.bucket := watched.stays .nil
    have along : ∀ encoded, Sends config env (.segment self.generation index)
        (chunkAt allData maxSize offset) encoded →
        Along change w.bucket [store config w.bucket (.segment self.generation index) encoded] :=
      fun encoded sent => watched.stores .nil more sent
    simp only [Op.wp_bind, hself.1, hself.2, Op.wp_ofOption, Op.wp_pure]
    refine wp_pipelineEncode config (chunkAt allData maxSize offset) start ?_ ?_
    swap
    · intro e a moved failed
      exact ⟨rfl, [], offset, index, w.clock, a, w.bucket, .nil, .inl ⟨e, failed⟩, .inl rfl, moved, rfl⟩
    intro a₁ encoded moved₁ encodes
    refine wp_putObject _ _ _ start (fun taken => ?_) (fun taken a₂ moved₂ => ?_) ?_
    · exact (along encoded ⟨encodes, taken⟩).2
    swap
    · rintro ⟨v, reply, bad, allowed⟩ e a b moved hb
      refine ⟨rfl, [], offset, index, w.clock, a, b, .nil,
        .inr ⟨encoded, encodes, v, reply, bad, allowed⟩, ?_, env.host.during_trans moved₁ moved, rfl⟩
      exact hb.imp_right fun h => ⟨encoded, ⟨encodes, v, reply, allowed⟩, h⟩
    have sent : Sends config env (.segment self.generation index) (chunkAt allData maxSize offset)
        encoded := ⟨encodes, taken⟩
    refine wp_nowMs (along encoded sent).2.2 fun a₃ now moved₃ ticks next counted => ?_
    have moved := env.host.during_trans moved₁ (env.host.during_trans moved₂ moved₃)
    let w₃ : World A := { w with
      app := a₃
      bucket := store config w.bucket (.segment self.generation index) encoded
      clock := now
      log := .stored (objectKey config (.segment self.generation index)) :: w.log }
    have later : ChunksWatched config env change self.generation allData maxSize w₃.bucket
        (chunkEnd allData maxSize offset) next w₃.clock :=
      ⟨fun chunks => watched.stays (.cons more sent ticks counted chunks),
        fun chunks => watched.stores (.cons more sent ticks counted chunks)⟩
    refine Op.wp_mono (ih (w := w₃) _ _ later) ?_ ?_
    · rintro ⟨segments, last⟩ m' w' ⟨rfl, pairs, offset', clock', a, chunks, finished, rfl, moved',
        rfl⟩
      exact ⟨rfl, _, offset', clock', a, .cons more sent ticks counted chunks, finished, rfl,
        env.host.during_trans moved moved', rfl⟩
    · rintro e m' w' ⟨rfl, pairs, offset', index', clock', a, b, chunks, failed, hb, moved', rfl⟩
      exact ⟨rfl, _, offset', index', clock', a, b, .cons more sent ticks counted chunks, failed, hb,
        env.host.during_trans moved moved', rfl⟩

end

/-- The manager once its manifest lists the chunks. -/
def Head.relisted (h : Head) (pairs : List (SegmentMeta × Bytes)) : Head :=
  { h with manifest := { h.manifest with segments := pairs.map Prod.fst } }

/-- The manager after a compaction. -/
def Head.compacted (h : Head) (pairs : List (SegmentMeta × Bytes)) (lastIndex : Nat) : Head :=
  { h.relisted pairs with walIndex := lastIndex }

/-- The bucket once the chunks, then also the manifest are stored. -/
def withChunks (b : Bucket) (h : Head) (pairs : List (SegmentMeta × Bytes)) : Bucket :=
  storeSegments config h.generation pairs b

def withChunkList (b : Bucket) (h : Head) (pairs : List (SegmentMeta × Bytes)) (manifest : Bytes) :
    Bucket :=
  store config (withChunks config b h pairs) (.manifest h.generation) manifest

/-- The old segments were read and cut again, all of them. -/
structure Recut (w : World A) (h : Head) (maxSize : Nat) (allData : Bytes)
    (pairs : List (SegmentMeta × Bytes)) (lastIndex clock' : Nat) : Prop where
  several : 1 < h.manifest.segments.length
  downloaded : segmentsData config w.bucket h.generation h.manifest.segments = some allData
  chunked : ∃ offset', allData.length ≤ offset' ∧
    Chunked config env h.generation allData maxSize 0 h.walIndex w.clock pairs offset' lastIndex clock'

/-- The ways out of `compact`. -/
inductive CompactExit (w : World A) (h : Head) (maxSize : Nat) :
    Except Error Unit → Head → World A → Prop where
  | few (few : h.manifest.segments.length ≤ 1) : CompactExit w h maxSize (.ok ()) h w
  | undownloaded {e : Error} {a : A} (several : 1 < h.manifest.segments.length)
      (moved : env.host.during w.app a)
      (failed : (∃ s ∈ h.manifest.segments,
          env.Misses w.bucket (objectKey config (.segment h.generation s.index))) ∨
        segmentsData config w.bucket h.generation h.manifest.segments = none) :
      CompactExit w h maxSize (.error e) h { w with app := a }
  | unchunked {e : Error} {allData : Bytes} {pairs : List (SegmentMeta × Bytes)}
      {offset' index' clock' : Nat} {a : A} {b : Bucket}
      (several : 1 < h.manifest.segments.length)
      (downloaded : segmentsData config w.bucket h.generation h.manifest.segments = some allData)
      (chunked : Chunked config env h.generation allData maxSize 0 h.walIndex w.clock pairs offset'
        index' clock')
      (failed : StoreFails config env (.segment h.generation index')
        (chunkAt allData maxSize offset'))
      (partly : b = withChunks config w.bucket h pairs ∨ ∃ encoded,
        Sends config env (.segment h.generation index') (chunkAt allData maxSize offset') encoded ∧
        b = store config (withChunks config w.bucket h pairs) (.segment h.generation index') encoded)
      (moved : env.host.during w.app a) :
      CompactExit w h maxSize (.error e) h
        ⟨b, a, clock', logSegments config h.generation pairs w.log⟩
  | unlisted {e : Error} {allData : Bytes} {pairs : List (SegmentMeta × Bytes)}
      {lastIndex clock' : Nat} {a : A} {b : Bucket}
      (recut : Recut config env w h maxSize allData pairs lastIndex clock')
      (failed : ListingFails config env h.generation (h.relisted pairs).manifest)
      (partly : b = withChunks config w.bucket h pairs ∨ ∃ manifest,
        SendsManifest config env h.generation (h.relisted pairs).manifest manifest ∧
        b = withChunkList config w.bucket h pairs manifest)
      (moved : env.host.during w.app a) :
      CompactExit w h maxSize (.error e) (h.relisted pairs)
        ⟨b, a, clock', logSegments config h.generation pairs w.log⟩
  | undeleted {e : Error} {allData manifest : Bytes} {pairs : List (SegmentMeta × Bytes)}
      {lastIndex clock' : Nat} {a : A} {deleted left : List SegmentMeta}
      (recut : Recut config env w h maxSize allData pairs lastIndex clock')
      (listed : SendsManifest config env h.generation (h.relisted pairs).manifest manifest)
      (failed : ∃ s ∈ h.manifest.segments,
        env.Denies (.deleteObject (objectKey config (.segment h.generation s.index))))
      (split : h.manifest.segments = deleted ++ left) (moved : env.host.during w.app a) :
      CompactExit w h maxSize (.error e) (h.compacted pairs lastIndex)
        ⟨eraseSegments config h.generation deleted
            (withChunkList config w.bucket h pairs manifest), a, clock',
          .stored (objectKey config (.manifest h.generation)) ::
            logSegments config h.generation pairs w.log⟩
  | done {allData manifest : Bytes} {pairs : List (SegmentMeta × Bytes)} {lastIndex clock' : Nat}
      {a : A} (recut : Recut config env w h maxSize allData pairs lastIndex clock')
      (listed : SendsManifest config env h.generation (h.relisted pairs).manifest manifest)
      (moved : env.host.during w.app a) :
      CompactExit w h maxSize (.ok ()) (h.compacted pairs lastIndex)
        ⟨eraseSegments config h.generation h.manifest.segments
            (withChunkList config w.bucket h pairs manifest), a, clock',
          .stored (objectKey config (.manifest h.generation)) ::
            logSegments config h.generation pairs w.log⟩

/-- What a guarantee on the bucket has to allow while `compact` runs. -/
structure CompactWatched (change : Bucket → Bucket → Prop) (w : World A) (h : Head)
    (maxSize : Nat) : Prop where
  start : change w.bucket w.bucket
  chunks : ∀ allData, 1 < h.manifest.segments.length →
    segmentsData config w.bucket h.generation h.manifest.segments = some allData →
    ChunksWatched config env change h.generation allData maxSize w.bucket 0 h.walIndex w.clock
  listed : ∀ allData pairs lastIndex clock' manifest,
    Recut config env w h maxSize allData pairs lastIndex clock' →
    SendsManifest config env h.generation (h.relisted pairs).manifest manifest →
    Along change (withChunks config w.bucket h pairs) [withChunkList config w.bucket h pairs manifest]
  deleted : ∀ allData pairs lastIndex clock' manifest,
    Recut config env w h maxSize allData pairs lastIndex clock' →
    SendsManifest config env h.generation (h.relisted pairs).manifest manifest →
    Along change (withChunkList config w.bucket h pairs manifest)
      (eraseTrail config h.generation h.manifest.segments
        (withChunkList config w.bucket h pairs manifest))

variable {config env} in
theorem wp_compact {change : Bucket → Bucket → Prop} {m : BackupManager pf.build} {w : World A}
    (hm : Uses config m) (maxSegmentSize : Option Nat) (fuel : Nat)
    (watched : CompactWatched config env change w (head m) (maxSegmentSize.getD (4 * 1024 * 1024))) :
    Op.wp env.serve (watch change) (compact pf maxSegmentSize fuel)
      (fun _ m' w' => Uses config m' ∧
        CompactExit config env w (head m) (maxSegmentSize.getD (4 * 1024 * 1024)) (.ok ()) (head m')
          w')
      (fun e m' w' => Uses config m' ∧
        CompactExit config env w (head m) (maxSegmentSize.getD (4 * 1024 * 1024)) (.error e) (head m')
          w') m w := by
  simp only [compact, Op.wp_bind, Op.wp_get]
  refine Op.wp_ite (fun few => ⟨hm, .few few⟩) fun several => ?_
  rw [Nat.not_le] at several
  simp only [Op.wp_bind, Op.wp_modify]
  refine Op.wp_mono (wp_downloadSegments hm m.manifest.segments watched.start) ?_ ?_
  swap
  · rintro e m' w' ⟨rfl, failed, a, moved, rfl⟩
    exact ⟨hm, .undownloaded several moved failed⟩
  rintro allData m' w' ⟨rfl, downloaded, a₁, moved₁, rfl⟩
  have chunks := watched.chunks allData several downloaded
  refine Op.wp_mono (wp_uploadChunks hm allData _ fuel 0 m'.walIndex chunks) ?_ ?_
  swap
  · rintro e m'' w'' ⟨rfl, pairs, offset', index', clock', a, b, chunked, failed, hb, moved, rfl⟩
    exact ⟨hm, .unchunked several downloaded chunked failed hb (env.host.during_trans moved₁ moved)⟩
  rintro ⟨segments, lastIndex⟩ m'' w'' ⟨rfl, pairs, offset', clock', a₂, chunked, finished, rfl,
    moved₂, rfl⟩
  have recut : Recut config env w (head m'') (maxSegmentSize.getD (4 * 1024 * 1024)) allData pairs
      lastIndex clock' := ⟨several, downloaded, offset', finished, chunked⟩
  have moved := env.host.during_trans moved₁ moved₂
  refine wp_uploadManifest (m := { m'' with
      manifest := { m''.manifest with segments := pairs.map Prod.fst } }) hm (chunks.stays chunked)
    (fun manifest listed => watched.listed _ _ _ _ _ recut listed) ?_ ?_
  swap
  · intro failed e a b moved' hb
    exact ⟨hm, .unlisted recut failed hb (env.host.during_trans moved moved')⟩
  intro a₃ manifest moved₃ listed
  replace moved := env.host.during_trans moved moved₃
  have trail := watched.deleted _ _ _ _ _ recut listed
  refine Op.wp_mono (wp_deleteSegments hm m''.manifest.segments trail) ?_ ?_
  · rintro ⟨⟩ m' w' ⟨rfl, a, moved', rfl⟩
    exact ⟨hm, .done recut listed (env.host.during_trans moved moved')⟩
  · rintro e m' w' ⟨rfl, failed, a, deleted, left, moved', split, rfl⟩
    exact ⟨hm, .undeleted recut listed failed split (env.host.during_trans moved moved')⟩

end Waloy.Spec
