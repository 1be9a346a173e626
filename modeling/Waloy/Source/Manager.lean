import Waloy.Source.S3
import Waloy.Source.Wal

/-!
# The backup manager

`stats.rs` and the methods of `BackupManager` in `manager.rs` that write to the
bucket. A method keeps what it has changed in `self` when it fails, so the order
of the assignments between the fallible calls is the order of the source.
-/
namespace Waloy.Source
open Waloy.Effect

/-- What the manager tells of itself. -/
structure BackupStats where
  generation : Str
  generationCount : Nat
  walOffset : Nat
  walIndex : Nat
  lastSyncTime : Option Nat
  lastSnapshotTime : Option Nat
  totalBytesUploaded : Nat
  syncCount : Nat
  errorCount : Nat
  deriving DecidableEq, Repr

/-- The counters are `u64`. -/
structure StatsTracker where
  generationCount : Nat
  lastSyncTime : Option Nat
  lastSnapshotTime : Option Nat
  totalBytesUploaded : Nat
  syncCount : Nat
  errorCount : Nat
  deriving DecidableEq, Repr

namespace StatsTracker

def new : StatsTracker :=
  { generationCount := 1, lastSyncTime := none, lastSnapshotTime := none
    totalBytesUploaded := 0, syncCount := 0, errorCount := 0 }

def recordSnapshot (s : StatsTracker) (now bytes : Nat) : StatsTracker :=
  { s with
    lastSnapshotTime := some now
    totalBytesUploaded := wrappingAddU64 s.totalBytesUploaded bytes }

def recordSync (s : StatsTracker) (now bytes : Nat) : StatsTracker :=
  { s with
    lastSyncTime := some now
    totalBytesUploaded := wrappingAddU64 s.totalBytesUploaded bytes
    syncCount := wrappingAddU64 s.syncCount 1 }

def recordNewGeneration (s : StatsTracker) : StatsTracker :=
  { s with generationCount := wrappingAddU64 s.generationCount 1 }

def recordError (s : StatsTracker) : StatsTracker :=
  { s with errorCount := wrappingAddU64 s.errorCount 1 }

end StatsTracker

structure CompactionResult where
  segmentsBefore : Nat
  segmentsAfter : Nat
  deriving DecidableEq, Repr

structure BackupManager (build : Build) where
  config : BackupConfig build
  s3 : S3Client
  generation : Str
  readConn : Conn
  walOffset : Nat
  walIndex : Nat
  walHeaderSalt : Option Bytes
  manifest : GenerationManifest
  stats : StatsTracker
  lastSnapshotTime : Nat
  shutdownComplete : Bool
  hasReadTransaction : Bool

namespace BackupManager

variable (pf : Platform)

/-- A method of the manager. -/
abbrev Method (α : Type) := M (BackupManager pf.build) α

def beginReadTransaction : Method pf Unit := do
  let self ← get
  if self.hasReadTransaction then pure ()
  else do
    orFail .sqlite (call (.executeBatch self.readConn .begin))
    orFail .sqlite (call (.queryMaster self.readConn))
    modify fun self => { self with hasReadTransaction := true }

/-- The result of the `COMMIT` is ignored. -/
def endReadTransaction : Method pf Unit := do
  let self ← get
  if self.hasReadTransaction then do
    let _ ← call (.executeBatch self.readConn .commit)
    modify fun self => { self with hasReadTransaction := false }
  else pure ()

def walPath (self : BackupManager pf.build) : Str :=
  self.config.dbPath ++ ['-', 'w', 'a', 'l']

def uploadManifest : Method pf Unit := do
  let self ← get
  let json ← Op.ofExcept ((pf.libs.jsonToVec self.manifest).mapError
    fun e => Error.other ("manifest serialize: " ++ e))
  let encoded ← pipelineEncode pf self.config json
  self.s3.putObject (Object.manifest self.generation).key encoded

def snapshot : Method pf Unit := do
  let self ← get
  let rawData ← orFail .io (call (.readFile self.config.dbPath))
  let data ← pipelineEncode pf self.config rawData
  self.s3.putObject (Object.snapshot self.generation).key data
  self.s3.putObject Object.latest.key (asBytes self.generation)
  modify fun self => { self with walOffset := 0, walIndex := 0, walHeaderSalt := none }
  let snapshotTime ← call .instantNow
  modify fun self => { self with stats := self.stats.recordSnapshot snapshotTime data.length }
  let lastSnapshotTime ← call .instantNow
  modify fun self => { self with lastSnapshotTime := lastSnapshotTime }
  let now ← nowMs
  modify fun self =>
    { self with manifest := { self.manifest with snapshotTimestampMs := now, segments := [] } }
  uploadManifest pf

/-- `self.generation = Uuid::new_v4()` with its empty manifest and the new count. -/
def startGeneration : Method pf Unit := do
  let generation ← call .newUuid
  modify fun self => { self with generation := generation }
  let now ← nowMs
  modify fun self =>
    { self with
      manifest := GenerationManifest.new generation now
      stats := self.stats.recordNewGeneration }

def recover : Method pf Unit := do
  endReadTransaction pf
  startGeneration pf
  snapshot pf
  beginReadTransaction pf

def walNeedsRecovery (self : BackupManager pf.build) (walData : Bytes) (walLen : Nat) : Bool :=
  checkWalDiscontinuity self.walOffset self.walHeaderSalt walData walLen

/-- `self` after the salt is captured on the first read of a WAL file. -/
def captureSalt (self : BackupManager pf.build) (walData : Bytes) : BackupManager pf.build :=
  if self.walHeaderSalt.isNone ∧ walSaltOffset + walSaltLen ≤ walData.length then
    { self with walHeaderSalt := some (walSalt walData) }
  else self

/-- The upload at the end of `sync_wal`: the bytes from `wal_offset` to the last
complete frame, then the manifest that lists them. -/
def uploadSegment (walData : Bytes) (alignedLen : Nat) : Method pf Unit := do
  let self ← get
  let newData ← Op.ofOption (slice walData self.walOffset alignedLen)
  let encoded ← pipelineEncode pf self.config newData
  self.s3.putObject (Object.segment self.generation self.walIndex).key encoded
  let segmentSize := newData.length
  let now ← nowMs
  modify fun self =>
    { self with
      manifest := self.manifest.addSegment self.walIndex now self.walOffset segmentSize }
  uploadManifest pf
  let syncTime ← call .instantNow
  modify fun self =>
    { self with
      stats := self.stats.recordSync syncTime encoded.length
      walOffset := alignedLen }
  let nextIndex ← Op.ofOption (incrementU32 pf.build self.walIndex)
  modify fun self => { self with walIndex := nextIndex }

def syncWal : Method pf Bool := do
  let self ← get
  let found ← call (.tryExists (self.walPath pf))
  if (found : Except String Bool) ≠ .ok true then pure false
  else do
    let walData ← orFail .io (call (.readFile (self.walPath pf)))
    let walLen := walData.length
    if walLen ≤ walHeaderSize then pure false
    else if self.walNeedsRecovery pf walData walLen then do
      recover pf
      pure false
    else do
      modify fun self => self.captureSalt pf walData
      let alignedLen := walAlignedLen walData
      if alignedLen ≤ walHeaderSize ∨ alignedLen ≤ self.walOffset then pure false
      else do
        uploadSegment pf walData alignedLen
        pure true

def checkpoint : Method pf Unit := do
  let _ ← syncWal pf
  endReadTransaction pf
  let self ← get
  orFail .sqlite (call (.executeBatch self.readConn .walCheckpointTruncate))
  startGeneration pf
  let snapshotResult ← Op.attempt (snapshot pf)
  beginReadTransaction pf
  Op.ofExcept snapshotResult

def maybeSnapshot : Method pf Bool := do
  let self ← get
  match self.config.snapshotInterval with
  | some interval => do
    let now ← call .instantNow
    if interval ≤ now - self.lastSnapshotTime then do
      checkpoint pf
      pure true
    else pure false
  | none => pure false

/-- The method `stats`; its name is that of the field. -/
def currentStats (self : BackupManager pf.build) : BackupStats :=
  { generation := self.generation
    generationCount := self.stats.generationCount
    walOffset := self.walOffset
    walIndex := self.walIndex
    lastSyncTime := self.stats.lastSyncTime
    lastSnapshotTime := self.stats.lastSnapshotTime
    totalBytesUploaded := self.stats.totalBytesUploaded
    syncCount := self.stats.syncCount
    errorCount := self.stats.errorCount }

def shutdown : Method pf Unit := do
  let self ← get
  if self.shutdownComplete then pure ()
  else do
    match ← Op.attempt (syncWal pf) with
    | .ok _ => pure ()
    | .error _ => modify fun self => { self with stats := self.stats.recordError }
    endReadTransaction pf
    modify fun self => { self with shutdownComplete := true }

/-- The loop of `list_generation_manifests` over the listed keys. -/
def readManifests (self : BackupManager pf.build) :
    List Str → Method pf (List (Str × GenerationManifest))
  | [] => pure []
  | key :: keys =>
    if manifestSuffix.isSuffixOf key then do
      let genId := trimEndMatches manifestSuffix key
      match ← Op.attempt (self.s3.getObject key) with
      | .ok data =>
        match decodeManifest pf data self.config with
        | .ok manifest => do
          let rest ← readManifests self keys
          pure ((genId, manifest) :: rest)
        | .error _ => readManifests self keys
      | .error _ => readManifests self keys
    else readManifests self keys

def listGenerationManifests : Method pf (List (Str × GenerationManifest)) := do
  let self ← get
  let allKeys ← self.s3.listKeys []
  readManifests pf self allKeys

def deleteGeneration (genId : Str) : Method pf Unit := do
  let self ← get
  let keys ← self.s3.listKeys (genId ++ ['/'])
  self.s3.deleteObjects keys

/-- The loop of `enforce_retention` over the manifests that were found. -/
def deleteExpired (cutoffMs : Nat) : List (Str × GenerationManifest) → Nat → Method pf Nat
  | [], deleted => pure deleted
  | (genId, manifest) :: rest, deleted => do
    let self ← get
    if genId = self.generation then deleteExpired cutoffMs rest deleted
    else if manifest.createdAtMs < cutoffMs then do
      deleteGeneration pf genId
      let deleted ← Op.ofOption (incrementU32 pf.build deleted)
      deleteExpired cutoffMs rest deleted
    else deleteExpired cutoffMs rest deleted

def enforceRetention : Method pf Nat := do
  let self ← get
  match self.config.retentionDuration with
  | none => pure 0
  | some duration => do
    let now ← nowMs
    let cutoffMs := now - duration % 2 ^ 64
    let manifests ← listGenerationManifests pf
    deleteExpired pf cutoffMs manifests 0

/-- The download loop of `compact`. -/
def downloadSegments (self : BackupManager pf.build) : List Str → Method pf Bytes
  | [] => pure []
  | key :: keys => do
    let data ← self.s3.getObject key
    let decoded ← Op.ofExcept (pipelineDecode pf data self.config)
    let rest ← downloadSegments self keys
    pure (decoded ++ rest)

/-- The chunking loop of `compact` from an offset and an index on. Each iteration
takes one unit of `fuel`; running out of it stands for a loop that goes on. -/
def uploadChunks (self : BackupManager pf.build) (allData : Bytes) (maxSize : Nat) :
    Nat → Nat → Nat → Method pf (List SegmentMeta × Nat)
  | fuel, offset, newIndex =>
    if offset < allData.length then
      match fuel with
      | 0 => Op.halt
      | fuel + 1 => do
        let stop := min (offset + maxSize) allData.length
        let chunk := (allData.drop offset).take (stop - offset)
        let encoded ← pipelineEncode pf self.config chunk
        self.s3.putObject (Object.segment self.generation newIndex).key encoded
        let now ← nowMs
        let nextIndex ← Op.ofOption (incrementU32 pf.build newIndex)
        let (rest, lastIndex) ← uploadChunks self allData maxSize fuel stop nextIndex
        pure (⟨newIndex, now, offset, chunk.length⟩ :: rest, lastIndex)
    else pure ([], newIndex)

def compact (maxSegmentSize : Option Nat) (fuel : Nat) : Method pf CompactionResult := do
  let self ← get
  let maxSize := maxSegmentSize.getD (4 * 1024 * 1024)
  let segmentsBefore := self.manifest.segments.length
  if segmentsBefore ≤ 1 then
    pure { segmentsBefore := segmentsBefore % 2 ^ 32, segmentsAfter := segmentsBefore % 2 ^ 32 }
  else do
    let oldSegmentKeys := self.manifest.segments.map
      fun s => (Object.segment self.generation s.index).key
    let allData ← downloadSegments pf self oldSegmentKeys
    let (newSegments, newIndex) ← uploadChunks pf self allData maxSize fuel 0 self.walIndex
    modify fun self => { self with manifest := { self.manifest with segments := newSegments } }
    uploadManifest pf
    modify fun self => { self with walIndex := newIndex }
    self.s3.deleteObjects oldSegmentKeys
    pure
      { segmentsBefore := segmentsBefore % 2 ^ 32
        segmentsAfter := newSegments.length % 2 ^ 32 }

end BackupManager

end Waloy.Source
