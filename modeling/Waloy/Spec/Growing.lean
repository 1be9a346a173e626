import Waloy.Spec.Segments

/-!
# A WAL file that only grows

While the application only appends to its WAL file, the file continues the one of the
last sync, so no sync takes it for another one.
-/
namespace Waloy.Spec
open Waloy.Effect Waloy.Source

variable {pf : Platform} (config : BackupConfig pf.build) {A : Type}

/-- The WAL file as a byte string; a missing file is an empty one. -/
def Host.walBytes (host : Host A) (a : A) : Bytes := (host.wal a).getD []

/-- The moves of a host that only append to the WAL file. -/
def Host.appending (host : Host A) : Host A :=
  { host with
    during := fun a a' => host.during a a' ∧ host.walBytes a <+: host.walBytes a'
    during_refl := fun a => ⟨host.during_refl a, List.prefix_rfl⟩
    during_trans := fun h h' => ⟨host.during_trans h.1 h'.1, h.2.trans h'.2⟩ }

/-- The manifest in the bucket is the one of the manager, and the segments it lists hold
the WAL file up to `wal_offset`. -/
structure Listed (host : Host A) (m : BackupManager pf.build) (w : World A) : Prop where
  manifest : manifestAt config w.bucket m.generation = some m.manifest
  increasing : (m.manifest.segments.map SegmentMeta.index).Pairwise (· < ·)
  below : ∀ s ∈ m.manifest.segments, s.index < m.walIndex
  tiles : Tiles 0 m.manifest.segments m.walOffset
  held : segmentsData config w.bucket m.generation m.manifest.segments =
    some ((host.walBytes w.app).take m.walOffset)
  covered : m.walOffset ≤ (host.walBytes w.app).length

/-- The bucket as the manager remembers it. -/
structure Represented (host : Host A) (m : BackupManager pf.build) (w : World A) : Prop
    extends Listed config host m w where
  latest : object config w.bucket .latest = some (asBytes m.generation)

/-- The WAL file continues the one of the last sync. -/
structure Follows (h : Head) (wal : Bytes) : Prop where
  offset : h.walOffset ≤ wal.length
  salt : ∀ salt, h.walHeaderSalt = some salt →
    walSaltOffset + walSaltLen ≤ wal.length ∧ walSalt wal = salt

/-- The segments of the manager hold the WAL file up to `wal_offset`, and the file
continues the one they were taken from. -/
structure Anchored (host : Host A) (h : Head) (w : World A) : Prop where
  backed : Backed config w.bucket h ((host.walBytes w.app).take h.walOffset)
  follows : Follows h (host.walBytes w.app)

section
variable {config} {env : Env A} {host : Host A} {w w' : World A} {h h' : Head} {wal wal' : Bytes}

/-- A manager at the start of a generation. -/
theorem Anchored.start (segments : h.manifest.segments = []) (offset : h.walOffset = 0)
    (salt : h.walHeaderSalt = none) : Anchored config host h w := by
  constructor
  case backed =>
    have ordered : Ordered h := by
      constructor
      · simp [segments]
      · simp [segments]
      · rw [segments, offset]
        rfl
    refine ⟨ordered, ?_, ?_⟩
    · rw [segments, offset]
      rfl
    · simp [offset]
  case follows =>
    constructor
    · simp [offset]
    · simp [salt]

theorem walSalt_grown (grown : wal <+: wal') (long : walSaltOffset + walSaltLen ≤ wal.length) :
    walSalt wal' = walSalt wal := by
  obtain ⟨rest, rfl⟩ := grown
  have short : walSaltLen ≤ (wal.drop walSaltOffset).length := by
    rw [List.length_drop]
    omega
  rw [walSalt, List.drop_append_of_le_length (by omega), List.take_append_of_le_length short]
  rfl

theorem Follows.grow (follows : Follows h wal) (grown : wal <+: wal') : Follows h wal' where
  offset := follows.offset.trans grown.length_le
  salt salt captured := by
    obtain ⟨long, same⟩ := follows.salt salt captured
    exact ⟨long.trans grown.length_le, (walSalt_grown grown long).trans same⟩

/-- A WAL file that continues the last one is never taken for another. -/
theorem Follows.continuous (follows : Follows h wal) : h.discontinuous wal = false := by
  unfold Head.discontinuous checkWalDiscontinuity
  have := follows.offset
  rw [if_neg (by omega)]
  cases captured : h.walHeaderSalt with
  | none => rfl
  | some salt =>
    obtain ⟨long, same⟩ := follows.salt salt captured
    simp [long, same]

theorem Follows.captured (follows : Follows h wal) : Follows (h.captured wal) wal := by
  refine ⟨by simpa using follows.offset, fun salt captured => ?_⟩
  unfold Head.captured at captured
  split at captured
  case isTrue fresh => exact ⟨fresh.2, Option.some.inj captured⟩
  case isFalse => exact follows.salt salt captured

theorem Follows.advanced (follows : Follows h wal) (now nextIndex : Nat) :
    Follows (h.advanced wal now nextIndex) wal :=
  ⟨walAlignedLen_le_length wal, follows.salt⟩

theorem Anchored.listed {m : BackupManager pf.build} (anchored : Anchored config host (head m) w)
    (manifest : manifestAt config w.bucket m.generation = some m.manifest) :
    Listed config host m w :=
  ⟨manifest, anchored.backed.increasing, anchored.backed.below, anchored.backed.tiles,
    anchored.backed.held, anchored.follows.offset⟩

theorem Anchored.moved (anchored : Anchored config host h w) {a : A} {t : Nat}
    (grown : host.walBytes w.app <+: host.walBytes a) :
    Anchored config host h { w with app := a, clock := t } where
  backed := by
    obtain ⟨rest, same⟩ := grown
    have backed := anchored.backed
    rwa [← List.take_append_of_le_length anchored.follows.offset, same] at backed
  follows := anchored.follows.grow grown

theorem Anchored.captured (anchored : Anchored config host h w) :
    Anchored config host (h.captured (host.walBytes w.app)) w :=
  ⟨by simpa using anchored.backed.captured _, anchored.follows.captured⟩

/-- The read of a growing WAL file: the manager is still anchored, and the file is
not taken for another one. -/
theorem Anchored.read {a : A} {walData : Bytes} (anchored : Anchored config host h w)
    (hwal : ∀ a, env.host.wal a = host.wal a)
    (grows : ∀ {a a'}, env.host.during a a' → host.walBytes a <+: host.walBytes a')
    (read : ReadsWal env w a walData) :
    Anchored config host h { w with app := a } ∧ host.walBytes a = walData ∧
      h.discontinuous walData = false := by
  have here := anchored.moved (t := w.clock) (grows read.moved)
  have bytes : host.walBytes a = walData := by
    rw [Host.walBytes, ← hwal, read.held]
    rfl
  exact ⟨here, bytes, bytes ▸ here.follows.continuous⟩

/-- The upload of a sync, once it is through. -/
theorem Anchored.advanced {encoded manifest : Bytes} {now t : Nat} {log : List Event}
    (anchored : Anchored config host h w) (new : h.walOffset < walAlignedLen (host.walBytes w.app))
    (decodes : pipelineDecode pf encoded config = .ok (h.unsynced (host.walBytes w.app))) :
    Anchored config host (h.advanced (host.walBytes w.app) now (h.walIndex + 1))
      { w with
        bucket := withListing config w.bucket h encoded manifest
        clock := t
        log := log } where
  backed := by
    have backed := anchored.backed.advanced manifest decodes (Nat.le_of_lt new) now
    rwa [h.take_append_unsynced (Nat.le_of_lt new)] at backed
  follows := anchored.follows.advanced now _

end

end Waloy.Spec
