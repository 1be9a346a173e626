import Waloy.Guarantees.Footprint
import Waloy.Guarantees.PointInTime
import Waloy.Guarantees.Reclamation
import Waloy.Guarantees.TransientFaults
import Waloy.Spec.Filing
import Waloy.Spec.Lasting

/-!
# Generations are whole or gone

A generation is begun, grows, is compacted and expires. Between two operations each one that was
ever drawn is either complete, with nothing in its directory but what its manifest accounts for,
or its directory is empty. The bucket may fail now and then, but no call fails for good. A second
snapshot of a generation is left out, which leaves the segments of the first one behind.
-/
namespace Waloy.Spec
open Waloy.Effect Waloy.Source

variable {pf : Platform} (config : BackupConfig pf.build) {A : Type}

/-- The directory of a generation holds its snapshot, its manifest and the segments that the
manifest lists, which can be decoded and follow each other without a gap, and nothing else. -/
structure Entire (b : Bucket) (generation : Str) (manifest : GenerationManifest) : Prop where
  tidy : Tidy config b generation
  listed : manifestAt config b generation = some manifest
  snapshot : (content config b (.snapshot generation)).isSome
  held : ∃ data, segmentsData config b generation manifest.segments = some data ∧
    Tiles 0 manifest.segments data.length
  only : ∀ index, (object config b (.segment generation index)).isSome →
    ∃ s ∈ manifest.segments, s.index = index

/-- The runs of all operations but a snapshot on demand, with a bucket that fails now and then. -/
def orderlyRuns (host : Host A) : Setting (process config) (World A × Nat) :=
  unsteadyRuns config (· ≠ .snapshot) host

/-- What is found of the generations after every operation of a run. -/
structure WholeOrGone (host : Host A) : Prop where
  drawn : ∀ {b a t s w streak generation},
    (orderlyRuns config host).Reach (.idle none (⟨b, a, t, []⟩, 0)) (.idle s (w, streak)) →
    .drew generation ∈ w.log →
    (∃ manifest, Entire config w.bucket generation manifest) ∨ Emptied config w.bucket generation
  opened : ∀ {b a t m w streak},
    (orderlyRuns config host).Reach (.idle none (⟨b, a, t, []⟩, 0)) (.idle (some m) (w, streak)) →
    Entire config w.bucket m.generation m.manifest

/-- The generations that were drawn. -/
def Inventoried (w : World A) : Prop := ∀ generation, .drew generation ∈ w.log → '/' ∉ generation ∧
  ((∃ manifest, Entire config w.bucket generation manifest) ∨ Emptied config w.bucket generation)

/-- The generation of the open manager. -/
structure Owned (h : Head) (w : World A) : Prop where
  entire : Entire config w.bucket h.generation h.manifest
  backed : ∃ data, Backed config w.bucket h data

/-- Two buckets that agree on the directory of a generation. -/
def Agree (generation : Str) (b b' : Bucket) : Prop :=
  ∀ key, (S3Client.new config.s3).fullKey (generation ++ ['/']) <+: key →
    b'.lookup key = b.lookup key

section
variable {config} {b b' : Bucket} {generation own : Str} {manifest : GenerationManifest}

theorem Agree.object (agree : Agree config generation b b') {o : Object}
    (owner : ownerOf o = some generation) : object config b' o = object config b o :=
  agree _ (objectKey_inside owner)

/-- What the directory says of a generation. -/
theorem Entire.of_agree (agree : Agree config generation b b')
    (entire : Entire config b generation manifest) : Entire config b' generation manifest where
  tidy := by
    refine ⟨entire.tidy.1, fun key member inside => entire.tidy.2 key ?_ inside⟩
    have present := AList.lookup_isSome.mpr (AList.mem_keys.mpr member)
    rw [agree key inside] at present
    exact AList.mem_keys.mp (AList.lookup_isSome.mp present)
  listed := (manifestAt_congr config (agree.object rfl)).trans entire.listed
  snapshot := by
    rw [content_congr config (agree.object rfl)]
    exact entire.snapshot
  held := by
    obtain ⟨data, held, tiles⟩ := entire.held
    exact ⟨data, (segmentsData_congr config fun _ _ => agree.object rfl).trans held, tiles⟩
  only index present := entire.only index (by rwa [agree.object rfl] at present)

theorem Emptied.of_agree (agree : Agree config generation b b')
    (empty : Emptied config b generation) : Emptied config b' generation :=
  fun key inside => (agree key inside).trans (empty key inside)

/-- No key lies under two generations. -/
theorem apart_of_ne (plain : '/' ∉ generation) (plain' : '/' ∉ own) (other : generation ≠ own)
    {key : Str} (inside : (S3Client.new config.s3).fullKey (generation ++ ['/']) <+: key) :
    ¬ (S3Client.new config.s3).fullKey (own ++ ['/']) <+: key := by
  intro inside'
  obtain ⟨rest, rfl⟩ := S3Client.exists_fullKey _ inside
  obtain ⟨rest', same⟩ := (S3Client.fullKey_prefix _).mp inside'
  rw [List.append_assoc, List.append_assoc] at same
  exact other (first_slash_inj plain plain' same.symm).1

theorem ne_latest {key : Str}
    (inside : (S3Client.new config.s3).fullKey (generation ++ ['/']) <+: key) :
    key ≠ objectKey config .latest := by
  rintro rfl
  have within := (S3Client.fullKey_prefix _).mp inside
  exact absurd (within.subset (List.mem_append_right _ List.mem_cons_self)) (by decide)

/-- Whatever is written under one generation, the others agree. -/
theorem agree_withListing {h : Head} {encoded listing : Bytes} (plain : '/' ∉ generation)
    (plain' : '/' ∉ h.generation) (other : generation ≠ h.generation) :
    Agree config generation b (withListing config b h encoded listing) := by
  intro key inside
  have apart := apart_of_ne plain plain' other inside
  rw [withListing, lookup_store_apart rfl apart]
  exact lookup_store_apart rfl apart

theorem agree_withManifest {encoded listing : Bytes} (plain : '/' ∉ generation) (plain' : '/' ∉ own)
    (other : generation ≠ own) :
    Agree config generation b (withManifest config b own encoded listing) := by
  intro key inside
  have apart := apart_of_ne plain plain' other inside
  rw [withManifest, lookup_store_apart rfl apart]
  exact (AList.lookup_insert_ne (ne_latest inside)).trans (lookup_store_apart rfl apart)

theorem agree_recut {h : Head} {pairs : List (SegmentMeta × Bytes)} {listing : Bytes}
    (plain : '/' ∉ generation) (plain' : '/' ∉ h.generation) (other : generation ≠ h.generation) :
    Agree config generation b (eraseSegments config h.generation h.manifest.segments
      (withChunkList config b h pairs listing)) := by
  intro key inside
  have apart := apart_of_ne plain plain' other inside
  rw [lookup_eraseSegments_apart apart, withChunkList, lookup_store_apart rfl apart]
  exact lookup_storeSegments_apart apart pairs

theorem Inventoried.of_agree {w w' : World A} (inventoried : Inventoried config w)
    (drawn : ∀ generation, .drew generation ∈ w'.log → generation ≠ own → .drew generation ∈ w.log)
    (agree : ∀ generation, '/' ∉ generation → generation ≠ own →
      Agree config generation w.bucket w'.bucket)
    (entire : Entire config w'.bucket own manifest) : Inventoried config w' := by
  intro generation drew
  by_cases same : generation = own
  · exact ⟨same ▸ entire.tidy.1, .inl ⟨manifest, same ▸ entire⟩⟩
  obtain ⟨plain, found⟩ := inventoried generation (drawn generation drew same)
  have agree := agree generation plain same
  refine ⟨plain, ?_⟩
  obtain ⟨manifest, entire⟩ | empty := found
  · exact .inl ⟨manifest, entire.of_agree agree⟩
  · exact .inr (empty.of_agree agree)

theorem Backed.of_agree {h : Head} {data : Bytes} (agree : Agree config h.generation b b')
    (backed : Backed config b h data) : Backed config b' h data where
  toOrdered := backed.toOrdered
  held := (segmentsData_congr config fun _ _ => agree.object rfl).trans backed.held
  length := backed.length

/-- The ranges and the bytes of the segments of a backed manager. -/
theorem Backed.covers {h : Head} {data : Bytes} (backed : Backed config b h data) :
    ∃ data, segmentsData config b h.generation h.manifest.segments = some data ∧
      Tiles 0 h.manifest.segments data.length :=
  ⟨data, backed.held, backed.length ▸ backed.tiles⟩

end

section
variable {config} {b : Bucket} {h : Head} {manifest : GenerationManifest} {generation : Str}
  {raw data encoded listing : Bytes} {index now : Nat} {walData : Bytes}

/-- A generation that was begun has a snapshot and an empty manifest. -/
theorem entire_withManifest (fresh : Fresh b generation) (empty : manifest.segments = [])
    (decodes : pipelineDecode pf encoded config = .ok raw)
    (lists : decodeManifest pf listing config = .ok manifest) :
    Entire config (withManifest config b generation encoded listing) generation manifest where
  tidy := tidy_withManifest (tidy_of_fresh fresh)
  listed := manifestAt_withManifest lists
  snapshot := by
    rw [content_withManifest decodes]
    rfl
  held := ⟨[], by rw [empty]; rfl, by rw [empty]; rfl⟩
  only := by
    intro index present
    have absent : object config b (.segment generation index) = none := fresh.absent rfl
    simp [withManifest, withLatest, withSnapshot, absent] at present

/-- A segment is added together with its line in the manifest. -/
theorem Entire.added (entire : Entire config b h.generation h.manifest)
    (backed : Backed config (withListing config b h encoded listing)
      (h.advanced walData now (h.walIndex + 1)) data)
    (lists : decodeManifest pf listing config = .ok (h.listed walData now).manifest) :
    Entire config (withListing config b h encoded listing) h.generation
      (h.listed walData now).manifest where
  tidy := by
    have stored : Tidy config (withSegment config b h encoded) h.generation :=
      entire.tidy.own fun own same => (Option.some.inj same).symm
    exact stored.own fun own same => (Option.some.inj same).symm
  listed := manifestAt_store lists
  snapshot := by
    have kept : content config (withListing config b h encoded listing) (.snapshot h.generation) =
        content config b (.snapshot h.generation) :=
      content_congr config (by simp [withListing, withSegment])
    exact kept ▸ entire.snapshot
  held := backed.covers
  only := by
    intro index present
    by_cases last : index = h.walIndex
    · exact ⟨_, List.mem_append_right _ List.mem_cons_self, last.symm⟩
    · have old : (object config b (.segment h.generation index)).isSome := by
        simpa [withListing, withSegment, last] using present
      obtain ⟨s, member, same⟩ := entire.only index old
      exact ⟨s, List.mem_append_left _ member, same⟩

/-- What is left after some segments are deleted was there, and is none of them. -/
theorem left_of_eraseSegments {o : Object} {segments : List SegmentMeta}
    (present : (object config (eraseSegments config generation segments b) o).isSome) :
    (object config b o).isSome ∧ ∀ s ∈ segments, o ≠ .segment generation s.index := by
  induction segments generalizing b with
  | nil => exact ⟨present, nofun⟩
  | cons s rest ih =>
    obtain ⟨before, others⟩ := ih present
    rw [object_erase] at before
    split at before
    · cases before
    · next other => exact ⟨before, List.forall_mem_cons.mpr ⟨other, others⟩⟩

/-- The chunks stand in for the segments. -/
theorem Entire.recut {pairs : List (SegmentMeta × Bytes)} {lastIndex : Nat}
    (entire : Entire config b h.generation h.manifest)
    (backed : Backed config (eraseSegments config h.generation h.manifest.segments
      (withChunkList config b h pairs listing)) (h.compacted pairs lastIndex) data)
    (lists : decodeManifest pf listing config = .ok (h.relisted pairs).manifest) :
    Entire config (eraseSegments config h.generation h.manifest.segments
      (withChunkList config b h pairs listing)) h.generation (h.relisted pairs).manifest where
  tidy := by
    have swapped : Tidy config (withChunkList config b h pairs listing) h.generation :=
      (entire.tidy.storeSegments pairs).own fun own same => (Option.some.inj same).symm
    exact swapped.eraseSegments _
  listed := (manifestAt_eraseSegments _ _).trans (manifestAt_store lists)
  snapshot := by
    have kept : content config (eraseSegments config h.generation h.manifest.segments
        (withChunkList config b h pairs listing)) (.snapshot h.generation) =
        content config b (.snapshot h.generation) :=
      content_congr config (by simp [withChunkList, withChunks])
    exact kept ▸ entire.snapshot
  held := backed.covers
  only := by
    intro index present
    by_contra unlisted
    obtain ⟨before, undeleted⟩ := left_of_eraseSegments present
    -- it is no chunk, so it was there before, and what was there before is deleted
    have unchunked : ∀ p ∈ pairs, Object.segment h.generation index ≠
        .segment h.generation p.1.index := by
      rintro p member ⟨⟩
      exact unlisted ⟨p.1, List.mem_map_of_mem member, rfl⟩
    rw [withChunkList, object_store, if_neg (by simp), withChunks,
      object_storeSegments_of_ne unchunked] at before
    obtain ⟨s, member, same⟩ := entire.only index before
    exact undeleted s member (by rw [same])

end

section
variable {config} {env : Env A} {w w' : World A} {h h' : Head}

/-- What retention leaves of a generation other than the one of the manager. -/
theorem Entire.expunged {b b' : Bucket} {own generation : Str} {manifest : GenerationManifest}
    {cutoffMs : Nat} (entire : Entire config b generation manifest)
    (expunged : Expunged config b own cutoffMs b') (purged : Purged config b own cutoffMs b')
    (other : generation ≠ own) :
    (∃ manifest, Entire config b' generation manifest) ∨ Emptied config b' generation := by
  by_cases expired : manifest.createdAtMs < cutoffMs
  · right
    intro key inside
    obtain ⟨suffixed, raw, stored, decodes⟩ := manifestAt_eq_some.mp entire.listed
    have lists : Lists config b (Object.manifest generation).key (generation, manifest) :=
      { isManifest := List.isSuffixOf_iff_suffix.mpr suffixed
        id := (trimEndMatches_manifest entire.tidy.1).symm
        readable := ⟨raw, stored, decodes⟩ }
    exact purged key ⟨_, _, lists, other, expired, inside⟩
  · left
    refine ⟨manifest, entire.of_agree fun key inside => expunged.left entire.tidy ?_ inside⟩
    intro _ found same
    have equal : found = manifest := Option.some.inj (same.symm.trans entire.listed)
    rw [equal]
    exact Nat.le_of_not_lt expired

theorem Inventoried.retained (inventoried : Inventoried config w) (owned : Owned config h w)
    (exit : RetentionExit config env w h w') (cleared : Cleared config w h w') :
    Inventoried config w' ∧ Owned config h w' := by
  cases exit with
  | off => exact ⟨inventoried, owned⟩
  | @ran duration reply a₁ a b retention read allowed ticks moved expunged =>
    have purged := cleared duration retention
    obtain ⟨entire, data, backed⟩ := owned
    have agree : Agree config h.generation w.bucket b := fun key inside =>
      expunged.left entire.tidy (fun other => absurd rfl other) inside
    refine ⟨fun generation drawn => ?_, entire.of_agree agree, data, backed.of_agree agree⟩
    obtain ⟨plain, found⟩ := inventoried generation drawn
    refine ⟨plain, ?_⟩
    by_cases own : generation = h.generation
    · subst own
      exact .inl ⟨_, entire.of_agree agree⟩
    obtain ⟨manifest, there⟩ | empty := found
    · exact there.expunged expunged purged own
    · refine .inr fun key inside => ?_
      obtain same | ⟨gone, -⟩ := expunged key
      · exact same.trans (empty key inside)
      · exact gone

variable (reliable : Reliable config env) (codec : Codec config)
include reliable codec

theorem Owned.begun {generation : Str} {a : A} {t : Nat} {log : List Event}
    (fresh : Fresh w.bucket generation) (same : h.generation = generation)
    (exit : SnapshotExit config env ⟨w.bucket, a, t, log⟩ h (.ok ()) h' w') :
    Owned config h' w' := by
  subst same
  cases exit with
  | @done raw encoded listing now a₁ a₂ read moved sent ticks listed =>
    have lists := listed.decodes codec.parses reliable.inverts
    have decodes := sent.decodes reliable.inverts (by simp)
    have entire : Entire config (withManifest config w.bucket h.generation encoded listing)
        h.generation (restamped h.manifest now) := entire_withManifest fresh rfl decodes lists
    exact ⟨entire, [], ⟨⟨.nil, nofun, rfl⟩, rfl, rfl⟩⟩

theorem Owned.uploaded {walData : Bytes} (owned : Owned config h w)
    (new : h.walOffset < walAlignedLen walData)
    (exit : UploadExit config env w h walData (.ok ()) h' w') : Owned config h' w' := by
  obtain ⟨entire, data, backed⟩ := owned
  cases exit with
  | @done a encoded listing now nextIndex moved sent ticks listed next =>
    rw [incrementU32_of_lt _ (reliable.counts _ _ _ sent.taken)] at next
    obtain rfl := Option.some.inj next
    have backed' := backed.advanced listing (sent.decodes reliable.inverts (by simp)) new.le now
    exact ⟨entire.added backed' (listed.decodes codec.parses reliable.inverts), _, backed'⟩

theorem Owned.compacted {maxSize : Nat} (owned : Owned config h w)
    (exit : CompactExit config env w h maxSize (.ok ()) h' w') : Owned config h' w' := by
  cases exit with
  | few => exact owned
  | @done allData listing pairs lastIndex clock' a recut listed moved =>
    obtain ⟨entire, data, backed⟩ := owned
    have renewed := recut.renewed backed reliable.inverts (recut.bound reliable.counts)
    have backed' : Backed config (eraseSegments config h.generation h.manifest.segments
        (withChunkList config w.bucket h pairs listing)) (h.compacted pairs lastIndex) data :=
      renewed.compacted backed.length backed.below
    exact ⟨entire.recut backed' (listed.decodes codec.parses reliable.inverts), _, backed'⟩

/-- Each operation keeps the account of the generations. -/
theorem inventoried_lasts : Lasting config env (Inventoried config) (Owned config) where
  adrift inventoried := inventoried
  moved owned _ := ⟨owned.entire, owned.backed⟩
  begun {generation w h h' w' a t} inventoried fresh same exit := by
    have owned : Owned config h' w' := Owned.begun reliable codec fresh same exit
    refine ⟨?_, owned⟩
    subst same
    cases exit with
    | done read moved sent ticks listed =>
      refine inventoried.of_agree ?_ (fun generation plain other =>
        agree_withManifest plain fresh.1 other) owned.entire
      intro generation drew other
      simpa [Ne.symm other, other] using drew
  captured {h w} walData owned := by
    obtain ⟨entire, data, backed⟩ := owned
    exact ⟨by simpa using entire, data, backed.captured walData⟩
  uploaded {h w walData h' w'} inventoried owned _ new exit := by
    have owned' : Owned config h' w' := Owned.uploaded reliable codec owned new exit
    refine ⟨?_, owned'⟩
    cases exit with
    | done moved sent ticks listed next =>
      refine inventoried.of_agree ?_ (fun generation plain other =>
        agree_withListing plain owned.entire.tidy.1 other) owned'.entire
      intro generation drew other
      simpa using drew
  compacted {h w maxSize h' w'} inventoried owned exit := by
    have owned' : Owned config h' w' := Owned.compacted reliable codec owned exit
    refine ⟨?_, owned'⟩
    cases exit with
    | few => exact inventoried
    | done recut listed moved =>
      refine inventoried.of_agree ?_ (fun generation plain other =>
        agree_recut plain owned.entire.tidy.1 other) owned'.entire
      intro generation drew other
      simpa using drew
  retained inventoried owned _ exit cleared := inventoried.retained owned exit cleared

end

/-- Nothing is lost track of: between two operations every generation that was ever drawn can be
restored from what its manifest accounts for, or has left nothing in the bucket. -/
theorem generations_whole (codec : Codec config) (host : Host A) : WholeOrGone config host := by
  have kept : (lastingly config (Inventoried config) (Owned config)).Kept
      ((flawless config (· ≠ .snapshot) host).setting config) :=
    Lasting.kept codec (fun q s => inventoried_lasts (reliable_flawless _ q s) codec)
      (fun excluded => absurd rfl excluded) (fun owned => owned.entire.tidy)
      (fun owned => owned.entire.held.imp fun _ held => held.1)
  have start : ∀ b a t, (lastingly config (Inventoried config) (Owned config)).idle
      (none : Manager pf) (⟨b, a, t, []⟩ : World A) := fun _ _ _ => ⟨nofun, .none _⟩
  have absorbed := unsteadyRuns_absorbed config (· ≠ .snapshot) host
  constructor
  case drawn =>
    intro b a t s w streak generation run drew
    obtain ⟨-, steady⟩ := absorbed.idle rfl run
    exact ((kept.reach steady (start b a t)).1 generation drew).2
  case opened =>
    intro b a t m w streak run
    obtain ⟨-, steady⟩ := absorbed.idle rfl run
    exact ((kept.reach steady (start b a t)).2 m rfl).2.entire

theorem generations_whole_plain : WholeOrGone plainConfig (fileHost fun t t' => t ≤ t') :=
  generations_whole plainConfig plain_codec _

end Waloy.Spec
