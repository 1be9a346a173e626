import Waloy.Effect.Crash
import Waloy.Guarantees.CrashSafety
import Waloy.Guarantees.Representation
import Waloy.Spec.Archive
import Waloy.Spec.Frames

/-!
# A process that may die at any call

A manager writes a new object first, the object that names it next, and deletes last what
nothing names any more. So wherever its process dies, once there is a backup `restore_latest`
finds one: the snapshot and the WAL of the last operation, with what has been synced since, or a
snapshot of a database file that the operation may have found. Another process may take up the
bucket and die in turn.
-/
namespace Waloy.Spec
open Waloy.Effect Waloy.Source

variable {pf : Platform} (config : BackupConfig pf.build) {A : Type}

/-- The runs in which no call fails and the WAL file of an open manager only grows. While no
manager is open the files may change in any way. -/
def mortalRuns (host : Host A) : Setting (process config) (World A) :=
  { (flawless config (· ≠ .snapshot) host.appending).setting config with
    drift := fun s w w' =>
      (∃ a t, (t = w.clock ∨ host.tick w.clock t) ∧ w' = { w with app := a, clock := t }) ∧
        (s.isSome → host.walBytes w.app <+: host.walBytes w'.app) }

/-- The moves that the host may make while an operation runs lead from one state of the files to
the other. -/
def Host.Since (host : Host A) : A → A → Prop :=
  Relation.ReflTransGen fun a a' => host.during a a' ∨ host.truncated a a' ∨
    ∃ path data, host.installed a path data a'

/-- The moves that the host may make while an operation runs lead to a database file of these
bytes. -/
def Host.Held (host : Host A) (a : A) (data : Bytes) : Prop :=
  ∃ a', host.Since a a' ∧ host.db a' = some data

/-- What a restore finds in the middle of an operation: the old snapshot with as much of the WAL
or more, or a database file that the operation may have found. -/
def Supersedes (host : Host A) (start : World A) (old new : Restored) : Prop :=
  new.snapshot = old.snapshot ∧ old.wal <+: new.wal ∨
    new.wal = [] ∧ host.Held start.app new.snapshot

/-- Wherever a process dies, there is no marker yet or a restore finds a backup. Where it would have
found one when the last operation began, it finds one that is no older. -/
structure OutlivesCrashes (host : Host A) : Prop where
  restorable : ∀ {b a t c} (path : Str),
    (object config b .latest = none ∨ (restoredLatest config b path).isSome) →
    (mortalRuns config host).Lives none (.idle none ⟨b, a, t, []⟩) c →
    object config c.world.bucket .latest = none ∨ (restoredLatest config c.world.bucket path).isSome
  onwards : ∀ {b a t q s start p w old} (path : Str),
    (object config b .latest = none ∨ (restoredLatest config b path).isSome) →
    (mortalRuns config host).Lives none (.idle none ⟨b, a, t, []⟩) (.running q s start p w) →
    restoredLatest config start.bucket path = some old →
    ∃ new, restoredLatest config w.bucket path = some new ∧ Supersedes host start old new

/-- What `restore_latest` finds, to any path. -/
def backupIn (b : Bucket) : Option Restored :=
  ((object config b .latest).bind fromUtf8).bind (rebuilt config b)

/-- A bucket in the middle of an operation that began in a certain world. -/
def Serves (host : Host A) (start : World A) (b : Bucket) : Prop :=
  (object config b .latest = object config start.bucket .latest ∧
    ∀ old, backupIn config start.bucket = some old →
      ∃ new, backupIn config b = some new ∧ new.snapshot = old.snapshot ∧ old.wal <+: new.wal) ∨
  ∃ new, backupIn config b = some new ∧ new.wal = [] ∧ host.Held start.app new.snapshot

section
variable {config} {host : Host A} {env : Env A} {start w w' : World A} {h h' : Head} {b b' : Bucket}
  {generation : Str} {data : Bytes}

theorem serves_start (same : b = start.bucket) : Serves config host start b := by
  subst same
  exact .inl ⟨rfl, fun old found => ⟨old, found, rfl, List.prefix_rfl⟩⟩

/-- Writes that a restore does not see. -/
theorem Serves.unseen (serves : Serves config host start b)
    (latest : object config b' .latest = object config b .latest)
    (same : ∀ found, backupIn config b = some found → backupIn config b' = some found) :
    Serves config host start b' := by
  obtain ⟨unmarked, kept⟩ | ⟨new, found, fresh⟩ := serves
  · refine .inl ⟨latest.trans unmarked, fun old before => ?_⟩
    obtain ⟨new, found, later⟩ := kept old before
    exact ⟨new, same new found, later⟩
  · exact .inr ⟨new, same new found, fresh⟩

/-- The writes of a generation that `latest` does not name. -/
theorem Serves.beside (serves : Serves config host start b) (beside : Beside config generation b b')
    (plain : '/' ∉ generation)
    (unnamed : ∀ found, backupIn config b = some found →
      (object config b .latest).bind fromUtf8 ≠ some generation) :
    Serves config host start b' := by
  have latest : object config b' .latest = object config b .latest :=
    beside.object (by simp [ownerOf])
  refine serves.unseen latest fun found before => ?_
  have other := unnamed found before
  rw [backupIn] at before ⊢
  obtain ⟨named, same, rebuilds⟩ := Option.bind_eq_some_iff.mp before
  rw [latest, same, Option.bind_some, beside.rebuilt plain (by rintro rfl; exact other same)]
  exact rebuilds

/-- The generation of a backup that can be restored is not drawn again. -/
theorem Fresh.unnamed (fresh : Fresh b generation) {found : Restored}
    (backup : backupIn config b = some found) :
    (object config b .latest).bind fromUtf8 ≠ some generation := by
  intro named
  rw [backupIn, named, Option.bind_some, rebuilt, content, fresh.absent rfl] at backup
  cases backup

/-- No segment of a fresh generation is listed. -/
theorem listing_withLatest (fresh : Fresh b generation) (encoded : Bytes) :
    listing config (withLatest config b generation encoded)
      (generation ++ ['/', 'w', 'a', 'l', '/']) = [] := by
  refine List.eq_nil_iff_forall_not_mem.mpr fun key listed => ?_
  obtain ⟨present, inside⟩ := mem_listing.mp listed
  have tidy : Tidy config (withLatest config b generation encoded) generation := by
    refine ((tidy_of_fresh fresh).store ?_).store (by simp [ownerOf])
    rintro own ⟨⟩
    exact fresh.1
  have under : (S3Client.new config.s3).fullKey (generation ++ ['/']) <+:
      (S3Client.new config.s3).fullKey key := by
    refine (S3Client.fullKey_prefix _).mpr (List.IsPrefix.trans ?_ inside)
    exact (List.prefix_append_right_inj _).mpr (by decide)
  obtain ⟨o, same, owner⟩ := tidy.2 _ present under
  obtain rfl := S3Client.fullKey_injective _ same
  cases o with
  | latest => cases owner
  | snapshot =>
    cases owner
    exact absurd ((List.prefix_append_right_inj _).mp inside) (by decide)
  | manifest =>
    cases owner
    exact absurd ((List.prefix_append_right_inj _).mp inside) (by decide)
  | segment own index =>
    have absent : object config b (.segment own index) = none := fresh.absent owner
    have there : (object config (withLatest config b generation encoded)
        (.segment own index)).isSome :=
      AList.lookup_isSome.mpr (AList.mem_keys.mpr present)
    simp [withLatest, withSnapshot, absent] at there

/-- The first backup of a generation. -/
theorem backupIn_withLatest (fresh : Fresh b generation) {encoded raw : Bytes}
    (decodes : pipelineDecode pf encoded config = .ok raw) :
    backupIn config (withLatest config b generation encoded) = some ⟨raw, []⟩ := by
  have unlisted : manifestAt config (withLatest config b generation encoded) generation = none := by
    have absent : object config b (.manifest generation) = none := fresh.absent rfl
    simp [manifestAt, withLatest, withSnapshot, absent]
  have keys : replayed config (withLatest config b generation encoded) generation = [] := by
    rw [replayed, unlisted]
    exact listing_withLatest fresh encoded
  have stored : content config (withLatest config b generation encoded) (.snapshot generation) =
      some raw := by
    simp [content, withLatest, withSnapshot, decodes, Except.toOption]
  have marked : object config (withLatest config b generation encoded) .latest =
      some (asBytes generation) := by
    simp [withLatest]
  simp [backupIn, rebuilt, marked, stored, keys, keysData]

theorem backupIn_withManifest {encoded raw manifest : Bytes} {listed : GenerationManifest}
    (decodes : pipelineDecode pf encoded config = .ok raw)
    (reads : decodeManifest pf manifest config = .ok listed) (empty : listed.segments = []) :
    backupIn config (withManifest config b generation encoded manifest) = some ⟨raw, []⟩ := by
  have found : manifestAt config (withManifest config b generation encoded manifest) generation =
      some listed := manifestAt_store reads
  have marked : object config (withManifest config b generation encoded manifest) .latest =
      some (asBytes generation) := by
    simp [withManifest, withLatest]
  have stored : content config (withManifest config b generation encoded manifest)
      (.snapshot generation) = some raw := by
    simp [content, withManifest, withLatest, withSnapshot, decodes, Except.toOption]
  simp [backupIn, marked, rebuilt_of_manifest found, stored, empty, segmentsData]

theorem Host.Held.since {host : Host A} {a a' : A} (since : host.Since a a')
    (held : host.Held a' data) : host.Held a data := by
  obtain ⟨a'', later, db⟩ := held
  exact ⟨a'', since.trans later, db⟩

theorem Host.Since.during {host : Host A} {a a' a'' : A} (since : host.Since a a')
    (moved : host.during a' a'') : host.Since a a'' :=
  since.tail (.inl moved)

/-- The first snapshot of a generation. -/
theorem serves_snapshot (inverts : env.Inverts config) (codec : Codec config)
    (since : env.host.Since start.app w.app) (serves : Serves config env.host start w.bucket)
    (fresh : Fresh w.bucket h.generation) :
    SnapshotWatched config env (fun _ b' => Serves config env.host start b') w h where
  start := serves
  published a raw encoded read sent := by
    have decodes : pipelineDecode pf encoded config = .ok raw := sent.decodes inverts (by simp)
    have saved : Serves config env.host start (withSnapshot config w.bucket h.generation encoded) :=
      serves.beside ((Beside.refl _).store rfl _) fresh.1 fun _ found => fresh.unnamed found
    have marked : Serves config env.host start (withLatest config w.bucket h.generation encoded) :=
      .inr ⟨_, backupIn_withLatest fresh decodes, rfl,
        .since since ⟨a, .single (.inl read.moved), read.held⟩⟩
    exact ⟨serves, saved, saved, marked, marked⟩
  listed a raw encoded now manifest read sent listed := by
    have decodes : pipelineDecode pf encoded config = .ok raw := sent.decodes inverts (by simp)
    have held : env.host.Held start.app raw :=
      .since since ⟨a, .single (.inl read.moved), read.held⟩
    have marked : Serves config env.host start (withLatest config w.bucket h.generation encoded) :=
      .inr ⟨_, backupIn_withLatest fresh decodes, rfl, held⟩
    have done : Serves config env.host start
        (withManifest config w.bucket h.generation encoded manifest) :=
      .inr ⟨_, backupIn_withManifest decodes (listed.decodes codec.parses inverts) rfl, rfl, held⟩
    exact ⟨marked, done, done⟩

theorem serves_regeneration (inverts : env.Inverts config) (codec : Codec config)
    (since : env.host.Since start.app w.app) (serves : Serves config env.host start w.bucket) :
    RegenerationWatched config env (fun _ b' => Serves config env.host start b') w h :=
  ⟨serves, fun _ _ _ moved fresh _ =>
    serves_snapshot inverts codec (since.during moved) serves fresh⟩

theorem SnapshotExit.during {r : Except Error Unit} (exit : SnapshotExit config env w h r h' w') :
    env.host.during w.app w'.app := by
  cases exit with
  | unread moved => exact moved
  | unpublished read moved => exact env.host.during_trans read.moved moved
  | unlisted read moved => exact env.host.during_trans read.moved moved
  | done read moved => exact env.host.during_trans read.moved moved

theorem Regenerated.during {r : Except Error Unit} (exit : Regenerated config env w h r h' w') :
    env.host.during w.app w'.app := by
  obtain ⟨moved, -, -, exit, -, moved'⟩ := exit
  exact env.host.during_trans moved (env.host.during_trans exit.during moved')

theorem UploadExit.during {walData : Bytes} {r : Except Error Unit}
    (exit : UploadExit config env w h walData r h' w') : env.host.during w.app w'.app := by
  cases exit with
  | unsaved moved => exact moved
  | unlisted moved => exact moved
  | done moved => exact moved

theorem SyncExit.during {r : Except Error Bool} (exit : SyncExit config env w h r h' w') :
    env.host.during w.app w'.app := by
  cases exit with
  | absent moved => exact moved
  | unread moved => exact moved
  | short read => exact read.moved
  | recovered read long broken exit => exact env.host.during_trans read.moved exit.during
  | unrecovered read long broken exit => exact env.host.during_trans read.moved exit.during
  | covered read => exact read.moved
  | uploaded read long continuous frames new exit =>
    exact env.host.during_trans read.moved exit.during
  | unsent read long continuous frames new exit =>
    exact env.host.during_trans read.moved exit.during

/-- A write that leaves what the manifest lists of the own generation, or adds to it. -/
theorem Mirrored.serves (mirrored : Mirrored config host h w) (same : w.bucket = start.bucket)
    {host' : Host A} {manifest : GenerationManifest} {more : Bytes}
    (latest : object config b' .latest = object config w.bucket .latest)
    (snapshot : object config b' (.snapshot h.generation) =
      object config w.bucket (.snapshot h.generation))
    (found : manifestAt config b' h.generation = some manifest)
    (held : segmentsData config b' h.generation manifest.segments =
      some ((host.walBytes w.app).take h.walOffset ++ more)) :
    Serves config host' start b' := by
  refine .inl ⟨latest.trans (same ▸ rfl), fun old before => ?_⟩
  have named : (object config w.bucket .latest).bind fromUtf8 = some h.generation := by
    rw [mirrored.published.latest]
    simp
  rw [← same] at before
  rw [backupIn, named, Option.bind_some, rebuilt_of_manifest mirrored.listed,
    mirrored.backed.held] at before
  obtain ⟨data, stored, whole⟩ := Option.bind_eq_some_iff.mp before
  cases whole
  refine ⟨⟨data, (host.walBytes w.app).take h.walOffset ++ more⟩, ?_, rfl, List.prefix_append _ _⟩
  rw [backupIn, latest, named, Option.bind_some, rebuilt_of_manifest found, held,
    content_congr config snapshot, stored]
  rfl

/-- The same, where the manifest stays. -/
theorem Mirrored.serves_aside (mirrored : Mirrored config host h w)
    (same : w.bucket = start.bucket) {host' : Host A}
    (marks : ∀ o, isMark o = true → object config b' o = object config w.bucket o)
    (held : segmentsData config b' h.generation h.manifest.segments =
      segmentsData config w.bucket h.generation h.manifest.segments) :
    Serves config host' start b' := by
  have listed : manifestAt config b' h.generation = some h.manifest :=
    (manifestAt_congr config (marks _ rfl)).trans mirrored.listed
  have whole : segmentsData config b' h.generation h.manifest.segments =
      some ((host.walBytes w.app).take h.walOffset ++ []) := by
    rw [held, mirrored.backed.held, List.append_nil]
  exact mirrored.serves same (marks _ rfl) (marks _ rfl) listed whole

variable (smooth : Smooth config host env) (codec : Codec config)
  (mirrored : Mirrored config host h w) (same : w.bucket = start.bucket)
include smooth codec mirrored same

theorem Mirrored.serves_upload {a : A} {walData : Bytes}
    (new : h.walOffset < walAlignedLen walData) :
    UploadWatched config env (fun _ b' => Serves config env.host start b') { w with app := a }
      (h.captured walData) walData := by
  have saved : ∀ encoded,
      Serves config env.host start (withSegment config w.bucket (h.captured walData) encoded) := by
    intro encoded
    refine mirrored.serves_aside same (fun o mark => ?_) (segmentsData_store fun s hs same => ?_)
    · rw [withSegment, object_store, if_neg]
      rintro rfl
      cases mark
    · injection same with _ index
      rw [h.captured_walIndex] at index
      exact Nat.ne_of_gt (mirrored.backed.below s hs) index
  refine ⟨serves_start same, fun encoded sent => ?_, ?_⟩
  · exact ⟨serves_start same, saved encoded, saved encoded⟩
  intro encoded now manifest sent listed
  have decodes := sent.decodes smooth.inverts (by simp)
  have advanced := (mirrored.backed.captured walData).advanced manifest decodes
    (by simpa using Nat.le_of_lt new) now
  have found : manifestAt config (withListing config w.bucket (h.captured walData) encoded manifest)
      h.generation = some ((h.captured walData).listed walData now).manifest := by
    rw [← h.captured_generation walData]
    exact manifestAt_store (listed.decodes codec.parses smooth.inverts)
  have held : segmentsData config
      (withListing config w.bucket (h.captured walData) encoded manifest) h.generation
      ((h.captured walData).listed walData now).manifest.segments =
      some ((host.walBytes w.app).take h.walOffset ++ (h.captured walData).unsynced walData) := by
    simpa [Head.advanced, Head.listed] using advanced.held
  have done : Serves config env.host start
      (withListing config w.bucket (h.captured walData) encoded manifest) :=
    mirrored.serves same (by simp [withListing, withSegment]) (by simp [withListing, withSegment])
      found held
  exact ⟨saved encoded, done, done⟩

theorem Mirrored.serves_sync :
    SyncWatched config env (fun _ b' => Serves config env.host start b') w h where
  start := serves_start same
  recovers a walData read broken := by
    have continuous := (mirrored.toAnchored.read smooth.wal smooth.grows read).2.2
    rw [continuous] at broken
    cases broken
  uploads a walData read continuous frames new :=
    Mirrored.serves_upload smooth codec mirrored same new

theorem Mirrored.serves_synced {r : Except Error Bool}
    (exit : SyncExit config env w h r h' w') : Serves config env.host start w'.bucket := by
  have unbroken : ∀ {a walData}, ReadsWal env w a walData → h.discontinuous walData ≠ true := by
    intro a walData read
    rw [(mirrored.toAnchored.read smooth.wal smooth.grows read).2.2]
    exact Bool.false_ne_true
  have uploaded : ∀ {a walData r h'}, h.walOffset < walAlignedLen walData →
      UploadExit config env { w with app := a } (h.captured walData) walData r h' w' →
      Serves config env.host start w'.bucket := by
    intro a walData r h' new exit
    obtain rfl := exit.faultless smooth.sound codec
    cases exit with
    | done moved sent ticks listed =>
      exact ((Mirrored.serves_upload smooth codec mirrored same new).listed _ _ _ sent listed).2.2
  cases exit with
  | absent => exact serves_start same
  | unread => exact serves_start same
  | short => exact serves_start same
  | recovered read long broken => exact absurd broken (unbroken read)
  | unrecovered read long broken => exact absurd broken (unbroken read)
  | covered => exact serves_start same
  | uploaded read long continuous frames new exit => exact uploaded new exit
  | unsent read long continuous frames new exit => exact uploaded new exit

theorem Mirrored.serves_checkpoint (since : env.host.Since start.app w.app) :
    CheckpointWatched config env (fun _ b' => Serves config env.host start b') w h where
  sync := Mirrored.serves_sync smooth codec mirrored same
  regenerates found h₁ w₁ a a' exit moved cut := by
    have since' : env.host.Since start.app a' :=
      ((since.during exit.during).during moved).tail (.inr (.inl cut))
    have synced : Serves config env.host start w₁.bucket :=
      Mirrored.serves_synced smooth codec mirrored same exit
    exact serves_regeneration smooth.inverts codec since' synced
  stays found h₁ w₁ exit := Mirrored.serves_synced smooth codec mirrored same exit

theorem Mirrored.serves_compact (maxSize : Nat) :
    CompactWatched config env (fun _ b' => Serves config env.host start b') w h maxSize := by
  have below := mirrored.backed.below
  have counted : ∀ {allData offset' index' clock' pairs},
      Chunked config env h.generation allData maxSize 0 h.walIndex w.clock pairs offset' index'
        clock' →
      (∀ s ∈ pairs.map Prod.fst, h.walIndex ≤ s.index ∧ s.index < index') ∧
        h.walIndex ≤ index' := by
    intro allData offset' index' clock' pairs chunked
    have bound : ∀ p ∈ pairs, p.1.index + 1 < 2 ^ 32 := by
      intro p hp
      obtain ⟨chunk, sent⟩ := chunked.sent p hp
      exact smooth.counts _ _ _ sent.taken
    refine ⟨chunked.index_lt bound, ?_⟩
    rw [(chunked.numbered bound).2]
    exact Nat.le_add_right _ _
  have stored : ∀ {allData offset' index' clock' pairs},
      Chunked config env h.generation allData maxSize 0 h.walIndex w.clock pairs offset' index'
        clock' →
      Serves config env.host start (withChunks config w.bucket h pairs) := by
    intro allData offset' index' clock' pairs chunked
    refine mirrored.serves_aside same (fun o mark => object_storeSegments _ _ mark)
      (segmentsData_storeSegments fun s hs p hp same => ?_)
    have := below s hs
    have := ((counted chunked).1 _ (List.mem_map_of_mem hp)).1
    omega
  have listed : ∀ {allData pairs lastIndex clock' manifest} deleted left,
      h.manifest.segments = deleted ++ left →
      Recut config env w h maxSize allData pairs lastIndex clock' →
      SendsManifest config env h.generation (h.relisted pairs).manifest manifest →
      Serves config env.host start (eraseSegments config h.generation deleted
        (withChunkList config w.bucket h pairs manifest)) := by
    intro allData pairs lastIndex clock' manifest deleted left split recut sent
    obtain rfl := Option.some.inj (mirrored.backed.held.symm.trans recut.downloaded)
    have erased : ∀ s ∈ deleted, s.index < h.walIndex := fun s hs =>
      below s (split ▸ List.mem_append_left left hs)
    have found : manifestAt config (eraseSegments config h.generation deleted
        (withChunkList config w.bucket h pairs manifest)) h.generation =
        some (h.relisted pairs).manifest :=
      (manifestAt_eraseSegments _ _).trans
        (manifestAt_store (sent.decodes codec.parses smooth.inverts))
    have held : segmentsData config (eraseSegments config h.generation deleted
        (withChunkList config w.bucket h pairs manifest)) h.generation
        (h.relisted pairs).manifest.segments =
        some ((host.walBytes w.app).take h.walOffset ++ []) := by
      rw [List.append_nil]
      exact recut.swapped smooth.inverts (recut.bound smooth.counts) erased
    exact mirrored.serves same (by simp [withChunkList, withChunks])
      (by simp [withChunkList, withChunks]) found held
  constructor
  case start => exact serves_start same
  case chunks =>
    intro allData several downloaded
    refine ⟨stored, fun {pairs offset' index' clock' encoded} chunked more sent => ?_⟩
    have next : Serves config env.host start
        (store config (withChunks config w.bucket h pairs) (.segment h.generation index')
          encoded) := by
      refine mirrored.serves_aside same (fun o mark => ?_) ?_
      · rw [object_store, if_neg, withChunks, object_storeSegments _ _ mark]
        rintro rfl
        cases mark
      · rw [segmentsData_store, withChunks, segmentsData_storeSegments]
        · intro s hs p hp same
          have := below s hs
          have := ((counted chunked).1 _ (List.mem_map_of_mem hp)).1
          omega
        · intro s hs same
          injection same with _ index
          have := below s hs
          have := (counted chunked).2
          omega
    exact ⟨stored chunked, next, next⟩
  case listed =>
    intro allData pairs lastIndex clock' manifest recut sent
    have done := listed [] _ rfl recut sent
    obtain ⟨several, downloaded, offset', finished, chunked⟩ := recut
    exact ⟨stored chunked, done, done⟩
  case deleted =>
    intro allData pairs lastIndex clock' manifest recut sent
    exact along_eraseTrail fun deleted left split => listed deleted left split recut sent

omit smooth codec in
theorem Mirrored.serves_retention (tidy : Tidy config w.bucket h.generation) :
    RetentionWatched config env (fun _ b' => Serves config env.host start b') w h where
  start := serves_start same
  deletes a reply duration b retention moved allowed ticks expunged := by
    have left : ∀ {b}, Expunged config w.bucket h.generation (reading reply - duration % 2 ^ 64) b →
        Serves config env.host start b := by
      intro b expunged
      have kept : ∀ o, ownerOf o = some h.generation →
          object config b o = object config w.bucket o := fun o owner =>
        expunged.left tidy (fun other => absurd rfl other) (objectKey_inside owner)
      have found : manifestAt config b h.generation = some h.manifest :=
        (manifestAt_congr config (kept _ rfl)).trans mirrored.listed
      have held : segmentsData config b h.generation h.manifest.segments =
          some ((host.walBytes w.app).take h.walOffset ++ []) := by
        rw [List.append_nil, ← mirrored.backed.held]
        exact segmentsData_congr config fun s hs => kept _ rfl
      exact mirrored.serves same expunged.latest (kept _ rfl) found held
    exact ⟨left expunged, fun key doomed =>
      ⟨left expunged, left (expunged.erase doomed), left (expunged.erase doomed)⟩⟩

end

section
variable {config} {host : Host A} {env : Env A} {start w w' : World A} {b : Bucket}

theorem Opened.since {a : A} (opened : Opened config env w a) : env.host.Since w.app a := by
  cases opened with
  | direct moved => exact .single (.inl moved)
  | restored moved auto missing allowed found restoring => exact .head (.inl moved) restoring

/-- Every write of an operation but a snapshot leaves a backup behind. -/
theorem serves_request (smooth : Smooth config host env) (codec : Codec config) {q : Request}
    {s : Manager pf} (allowed : q ≠ .snapshot) (tidy : TidyLog config w)
    (idle : Holding config (Mirrored config host) s w) :
    RequestWatched config env (fun _ b' => Serves config env.host w b') w q s := by
  have opens : OpeningWatched config env (fun _ b' => Serves config env.host w b') w :=
    ⟨serves_start rfl, fun generation now a opened fresh ticks =>
      serves_snapshot smooth.inverts codec opened.since (serves_start rfl) fresh⟩
  cases s with
  | none =>
    cases q with
    | new => exact opens
    | _ => trivial
  | some m =>
    have mirrored := (idle m rfl).2
    cases q with
    | new => exact opens
    | syncWal => exact mirrored.serves_sync smooth codec rfl
    | snapshot => exact absurd rfl allowed
    | checkpoint => exact mirrored.serves_checkpoint smooth codec rfl .refl
    | maybeSnapshot =>
      exact fun a moved => Mirrored.serves_checkpoint smooth codec
        (mirrored.moved (smooth.grows moved)) rfl (.single (.inl moved))
    | compact => exact mirrored.serves_compact smooth codec rfl _
    | enforceRetention => exact mirrored.serves_retention rfl (tidy _ mirrored.logged)
    | shutdown =>
      exact ⟨mirrored.serves_sync smooth codec rfl, fun r h' w' exit =>
        mirrored.serves_synced smooth codec rfl exit⟩

theorem Serves.ready (serves : Serves config host start b)
    (ready : object config start.bucket .latest = none ∨ (backupIn config start.bucket).isSome) :
    object config b .latest = none ∨ (backupIn config b).isSome := by
  obtain ⟨latest, kept⟩ | ⟨new, found, -⟩ := serves
  · rw [latest]
    refine ready.imp_right fun before => ?_
    obtain ⟨old, hold⟩ := Option.isSome_iff_exists.mp before
    obtain ⟨new, found, -⟩ := kept old hold
    rw [found]
    rfl
  · right
    rw [found]
    rfl

theorem Serves.supersedes (serves : Serves config host start b) {old : Restored}
    (before : backupIn config start.bucket = some old) :
    ∃ new, backupIn config b = some new ∧ Supersedes host start old new := by
  obtain ⟨-, kept⟩ | ⟨new, found, empty, held⟩ := serves
  · obtain ⟨new, found, same, longer⟩ := kept old before
    exact ⟨new, found, .inl ⟨same, longer⟩⟩
  · exact ⟨new, found, .inr ⟨empty, held⟩⟩

/-- What an environment of these runs does to the files, the host does. -/
theorem Serves.loosen (serves : Serves config env.host start b)
    (during : ∀ {a a'}, env.host.during a a' → host.during a a')
    (truncated : env.host.truncated = host.truncated)
    (installed : env.host.installed = host.installed) (db : env.host.db = host.db) :
    Serves config host start b := by
  obtain kept | ⟨new, found, empty, a, since, held⟩ := serves
  · exact .inl kept
  · refine .inr ⟨new, found, empty, a, ?_, db ▸ held⟩
    refine Relation.ReflTransGen.mono (fun a a' step => ?_) _ _ since
    rw [truncated, installed] at step
    exact step.imp_left during

end

/-- A bucket in the life of a process. -/
def enduring (host : Host A) : Setting.Invariant (C := process config) (W := World A) where
  idle s w := (object config w.bucket .latest = none ∨ (backupIn config w.bucket).isSome) ∧
    TidyLog config w ∧ Holding config (Mirrored config host.appending) s w
  always _ _ start w :=
    (object config start.bucket .latest = none ∨ (backupIn config start.bucket).isSome) ∧
      TidyLog config w ∧ Serves config host start w.bucket
  guard q _ start :=
    watch fun b b' => changeOf config q b b' ∧ Serves config host start b'

section
variable {config}

theorem enduring_kept (codec : Codec config) (host : Host A) :
    (enduring config host).Kept (mortalRuns config host) where
  entered _ idle := ⟨idle.1, idle.2.1, serves_start rfl⟩
  stays before served changed := ⟨before.1, before.2.1.call served changed.1, changed.2⟩
  drift := by
    rintro s w w' ⟨ready, tidy, holds⟩ ⟨⟨a, t, -, rfl⟩, grown⟩
    refine ⟨ready, tidy, fun m hs => ⟨(holds m hs).1, (holds m hs).2.moved ?_⟩⟩
    exact grown (by rw [hs]; rfl)
  body := by
    intro q s w allowed ⟨ready, tidy, holds⟩
    let env := Regime.env config (smooth config host) q s
    have smooth' : Smooth config host.appending env := smooth_env host q s
    have mirrors := (mirroring_kept codec host).body (q := q) trivial ⟨tidy, holds⟩
    have serves : ((process config).body q s).wp env.serve
        (watch fun _ b' => Serves config env.host w b')
        (fun out w' => Performed config env w q s out.1 out.2 w') w :=
      wp_process rfl (fun m hs => (holds m hs).1) (serves_request smooth' codec allowed tidy holds)
    refine Prog.wp_mono (fun _ _ _ _ h => h)
      (fun _ _ _ _ h => ⟨h.1, h.2.loosen (fun moved => moved.1) rfl rfl rfl⟩) ?_ _ _
      (Prog.wp_and _ _ mirrors serves)
    rintro ⟨result, s'⟩ w' ⟨idle', -⟩ ⟨ready, tidy', serves⟩
    exact ⟨trivial, serves.ready ready, (idle' tidy').2⟩

theorem enduring_survives (host : Host A) : (enduring config host).Survives none where
  idle idle := ⟨idle.1, idle.2.1, .none _⟩
  running before := ⟨before.2.2.ready before.1, before.2.1, .none _⟩

/-- Whenever the process dies, a backup that was there is still there, and it is not older than the
one that the operation that was cut short began with. -/
theorem outlives_crashes (codec : Codec config) (host : Host A) : OutlivesCrashes config host := by
  have start : ∀ {b a t}, (object config b .latest = none ∨ (backupIn config b).isSome) →
      (enduring config host).idle none (⟨b, a, t, []⟩ : World A) := by
    refine fun ready => ⟨ready, ?_, .none _⟩
    intro generation drawn
    cases drawn
  have kept := enduring_kept codec host
  constructor
  case restorable =>
    intro b a t c path ready life
    rw [restoredLatest_eq] at ready ⊢
    have holds := kept.lives (enduring_survives host) life (start ready)
    cases c with
    | idle s w => exact holds.1
    | running q s start p w => exact holds.1.2.2.ready holds.1.1
  case onwards =>
    intro b a t q s start' p w old path ready life before
    rw [restoredLatest_eq] at ready before ⊢
    have holds := kept.lives (enduring_survives host) life (start ready)
    exact holds.1.2.2.supersedes before

theorem outlives_crashes_plain :
    OutlivesCrashes plainConfig (fileHost fun t t' => t ≤ t') :=
  outlives_crashes plain_codec _

end

end Waloy.Spec
