import Waloy.Source.Manager

/-!
# Restoring and opening a backup

The restore functions of `manager.rs`, which read the bucket and write the
database file and its WAL, and `BackupManager::new`, which may restore first.
-/
namespace Waloy.Source
open Waloy.Effect

namespace BackupManager

variable (pf : Platform)

/-- `segment_keys_from_manifest`: the listing stands in for a manifest that is
missing or cannot be decoded, and an empty one for a listing that fails. -/
def segmentKeysFromManifest (s3 : S3Client) (decodeConfig : BackupConfig pf.build)
    (generation : Str) : M Unit (List Str) := do
  let listed : M Unit (List Str) := do
    match ← Op.attempt (s3.listKeys (generation ++ ['/', 'w', 'a', 'l', '/'])) with
    | .ok keys => pure keys
    | .error _ => pure []
  match ← Op.attempt (s3.getObject (Object.manifest generation).key) with
  | .ok data =>
    match decodeManifest pf data decodeConfig with
    | .ok manifest =>
      pure (manifest.segments.map fun s => (Object.segment generation s.index).key)
    | .error _ => listed
  | .error _ => listed

/-- The download loop of both restores. -/
def readSegments (s3 : S3Client) (decodeConfig : BackupConfig pf.build) : List Str → M Unit Bytes
  | [] => pure []
  | key :: keys => do
    let segment ← s3.getObject key
    let decoded ← Op.ofExcept (pipelineDecode pf segment decodeConfig)
    let rest ← readSegments s3 decodeConfig keys
    pure (decoded ++ rest)

/-- The part both restores share after the snapshot is written: the segments, if
there are any, then the replay by SQLite. -/
def replaySegments (s3 : S3Client) (decodeConfig : BackupConfig pf.build) (targetPath : Str)
    (segmentKeys : List Str) : M Unit Unit := do
  if segmentKeys ≠ [] then do
    let walData ← readSegments pf s3 decodeConfig segmentKeys
    let walPath := targetPath ++ ['-', 'w', 'a', 'l']
    orFail .io (call (.writeFile walPath walData))
    orFail .io (call (.syncFile walPath))
  orFail .io (call (.syncFile targetPath))
  let conn ← orFail .sqlite (call (.openConn targetPath))
  orFail .sqlite (call (.executeBatch conn .journalModeWal))
  orFail .sqlite (call (.executeBatch conn .walCheckpointTruncate))
  call (.closeConn conn)

/-- The snapshot download of both restores. -/
def writeSnapshot (s3 : S3Client) (decodeConfig : BackupConfig pf.build) (targetPath : Str)
    (generation : Str) : M Unit Unit := do
  let snapshotData ← s3.getObject (Object.snapshot generation).key
  let snapshotDecoded ← Op.ofExcept (pipelineDecode pf snapshotData decodeConfig)
  orFail .io (call (.writeFile targetPath snapshotDecoded))

/-- The text of the UTF-8 error is left out of the message. -/
def restoreLatest (s3 : S3Client) (decodeConfig : BackupConfig pf.build) (targetPath : Str) :
    M Unit Unit := do
  match ← Op.attempt (s3.getObject Object.latest.key) with
  | .error _ => throw (.other "no backup found: 'latest' marker missing")
  | .ok genBytes =>
    match fromUtf8 genBytes with
    | none => throw (.other "invalid generation id: ")
    | some generation => do
      writeSnapshot pf s3 decodeConfig targetPath generation
      let segmentKeys ← segmentKeysFromManifest pf s3 decodeConfig generation
      replaySegments pf s3 decodeConfig targetPath segmentKeys

/-- The manifests that a point-in-time restore can read, in the order of their keys. -/
def pitrManifests (s3 : S3Client) (decodeConfig : BackupConfig pf.build) :
    List Str → M Unit (List GenerationManifest)
  | [] => pure []
  | key :: keys =>
    if manifestSuffix.isSuffixOf key then do
      match ← Op.attempt (s3.getObject key) with
      | .ok data =>
        match decodeManifest pf data decodeConfig with
        | .ok manifest => do
          let rest ← pitrManifests s3 decodeConfig keys
          pure (manifest :: rest)
        | .error _ => pitrManifests s3 decodeConfig keys
      | .error _ => pitrManifests s3 decodeConfig keys
    else pitrManifests s3 decodeConfig keys

/-- Stable sort by snapshot timestamp, newest first, then the first that is not
newer than the target. -/
def selectManifest (manifests : List GenerationManifest) (timestampMs : Nat) :
    Option GenerationManifest :=
  (manifests.insertionSort fun a b => b.snapshotTimestampMs ≤ a.snapshotTimestampMs).find?
    fun m => m.snapshotTimestampMs ≤ timestampMs

def restorePitr (s3 : S3Client) (decodeConfig : BackupConfig pf.build) (targetPath : Str)
    (timestampMs : Nat) : M Unit Unit := do
  let allKeys ← s3.listKeys []
  let manifests ← pitrManifests pf s3 decodeConfig allKeys
  if manifests = [] then throw (.other "no manifests found for point-in-time restore")
  else
    match selectManifest manifests timestampMs with
    | none =>
      throw (.other ("no generation found with snapshot before timestamp " ++ toString timestampMs))
    | some manifest => do
      writeSnapshot pf s3 decodeConfig targetPath manifest.generation
      let segmentsToReplay := manifest.segments.filter fun s => s.timestampMs ≤ timestampMs
      replaySegments pf s3 decodeConfig targetPath
        (segmentsToReplay.map fun s => (Object.segment manifest.generation s.index).key)

def restoreInner (config : BackupConfig pf.build) (targetPath : Str) (targetTime : Option Nat) :
    M Unit Unit :=
  let s3 := S3Client.new config.s3
  match targetTime with
  | some timestampMs => restorePitr pf s3 config targetPath timestampMs
  | none => restoreLatest pf s3 config targetPath

/-- `BackupConfig::default()` with the given bucket. -/
def defaultConfig (s3Config : S3Config) : BackupConfig pf.build :=
  { dbPath := []
    s3 := s3Config
    retentionDuration := none
    compression := .none
    encryptionKey := none
    autoRestore := false
    snapshotInterval := none }

def restore (s3Config : S3Config) (targetPath : Str) : M Unit Unit :=
  restoreInner pf (defaultConfig pf s3Config) targetPath none

def restoreToTime (s3Config : S3Config) (targetPath : Str) (timestampMs : Nat) : M Unit Unit :=
  restoreInner pf (defaultConfig pf s3Config) targetPath (some timestampMs)

def restoreWithConfig (config : BackupConfig pf.build) (targetPath : Str) : M Unit Unit :=
  restoreInner pf config targetPath none

def restoreToTimeWithConfig (config : BackupConfig pf.build) (targetPath : Str)
    (timestampMs : Nat) : M Unit Unit :=
  restoreInner pf config targetPath (some timestampMs)

/-- `Drop`: the manager ends its read transaction. -/
def drop : Method pf Unit := endReadTransaction pf

/-- The last two lines of `new`; a manager whose first snapshot fails is dropped. -/
def firstSnapshot : Method pf Unit := do
  match ← Op.attempt (snapshot pf) with
  | .ok _ => pure ()
  | .error e => do
    drop pf
    throw e

def new (config : BackupConfig pf.build) : M Unit (BackupManager pf.build) := do
  if config.autoRestore then do
    let found ← call (.tryExists config.dbPath)
    if (found : Except String Bool) ≠ .ok true then
      restoreWithConfig pf config config.dbPath
  let s3 := S3Client.new config.s3
  let readConn ← orFail .sqlite (call (.openConn config.dbPath))
  orFail .sqlite (call (.executeBatch readConn .configure))
  orFail .sqlite (call (.executeBatch readConn .begin))
  orFail .sqlite (call (.queryMaster readConn))
  let generation ← call .newUuid
  let ts ← nowMs
  let now ← call .instantNow
  let mgr : BackupManager pf.build :=
    { config := config
      s3 := s3
      generation := generation
      readConn := readConn
      walOffset := 0
      walIndex := 0
      walHeaderSalt := none
      manifest := GenerationManifest.new generation ts
      stats := StatsTracker.new
      lastSnapshotTime := now
      shutdownComplete := false
      hasReadTransaction := true }
  let (_, mgr) ← Op.runOn mgr (firstSnapshot pf)
  pure mgr

end BackupManager

end Waloy.Source
