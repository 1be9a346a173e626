import Waloy.Source.Text

/-!
# Generation manifests

`manifest.rs`. The `u32` and `u64` fields are natural numbers; the one place
where a counter can pass its width is `BackupManager::wal_index`.
-/
namespace Waloy.Source

structure SegmentMeta where
  index : Nat
  timestampMs : Nat
  offset : Nat
  size : Nat
  deriving DecidableEq, Repr

structure GenerationManifest where
  generation : Str
  createdAtMs : Nat
  snapshotTimestampMs : Nat
  segments : List SegmentMeta
  deriving DecidableEq, Repr

namespace GenerationManifest

def new (generation : Str) (nowMs : Nat) : GenerationManifest :=
  { generation := generation
    createdAtMs := nowMs
    snapshotTimestampMs := nowMs
    segments := [] }

def addSegment (m : GenerationManifest) (index timestampMs offset size : Nat) :
    GenerationManifest :=
  { m with segments := m.segments ++ [{ index, timestampMs, offset, size }] }

@[simp] theorem new_segments (generation : Str) (nowMs : Nat) :
    (new generation nowMs).segments = [] := rfl

@[simp] theorem addSegment_segments (m : GenerationManifest) (i t o s : Nat) :
    (m.addSegment i t o s).segments = m.segments ++ [⟨i, t, o, s⟩] := rfl

@[simp] theorem addSegment_snapshotTimestampMs (m : GenerationManifest) (i t o s : Nat) :
    (m.addSegment i t o s).snapshotTimestampMs = m.snapshotTimestampMs := rfl

@[simp] theorem addSegment_generation (m : GenerationManifest) (i t o s : Nat) :
    (m.addSegment i t o s).generation = m.generation := rfl

end GenerationManifest

end Waloy.Source
