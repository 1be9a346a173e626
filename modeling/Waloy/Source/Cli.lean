import Waloy.Source.Restore

/-!
# The command line tool

The commands of `bin/waloy.rs`, with the client of its own that `generations` and `inspect`
read the bucket with; `restore` is the one of the library. A command returns what it prints as
data, in the order of its lines.
-/
namespace Waloy.Source
open Waloy.Effect

/-- The client of the tool: it does not retry. -/
structure CliS3 where
  keyPrefix : Str
  deriving DecidableEq, Repr

namespace CliS3

variable (client : CliS3)

def fullKey (key : Str) : Str := S3Client.fullKey ⟨client.keyPrefix⟩ key

def getObject (key : Str) : M Unit Bytes := orFail .s3 (call (.getObject (client.fullKey key)))

def listKeys (keyPrefix : Str) : M Unit (List Str) := do
  let results ← orFail .s3 (call (.list (client.fullKey keyPrefix)))
  pure (S3Client.sortKeys (results.flatten.map (S3Client.relativeKey ⟨client.keyPrefix⟩)))

end CliS3

namespace Cli

/-- A line of `generations`. Of the manifest, its creation time and its number of segments
are printed. -/
structure GenerationLine where
  generation : Str
  isLatest : Bool
  manifest : Option GenerationManifest
  deriving DecidableEq

/-- What `inspect` prints of a generation: its manifest, or its keys. -/
inductive Inspection where
  | manifest (genId : Str) (m : GenerationManifest)
  | legacy (genId : Str) (keys : List Str)
  deriving DecidableEq

variable (libs : Libs) (client : CliS3)

/-- The loop of `generations`: a manifest that cannot be had is left out of its line. -/
def generationLines (latest : Option Str) : List Str → M Unit (List GenerationLine)
  | [] => pure []
  | generation :: rest => do
    let found ← Op.attempt (client.getObject (Object.manifest generation).key)
    let manifest := found.toOption.bind fun data => (libs.jsonFromSlice data).toOption
    let lines ← generationLines latest rest
    pure (⟨generation, latest = some generation, manifest⟩ :: lines)

def generations : M Unit (List GenerationLine) := do
  let keys ← client.listKeys []
  let generations := S3Client.sortKeys
    ((keys.filter manifestSuffix.isSuffixOf).map (trimEndMatches manifestSuffix))
  let found ← Op.attempt (client.getObject Object.latest.key)
  generationLines libs client (found.toOption.bind fromUtf8) generations

/-- The generation that `inspect` is asked for, or the latest one. -/
def inspectedId : Option Str → M Unit Str
  | some generation => pure generation
  | none => do
    let bytes ← client.getObject Object.latest.key
    match fromUtf8 bytes with
    | some generation => pure generation
    | none => throw (.other "invalid utf-8 sequence")

def inspect (generation : Option Str) : M Unit Inspection := do
  let genId ← inspectedId client generation
  match ← Op.attempt (client.getObject (Object.manifest genId).key) with
  | .ok data => do
    let m ← Op.ofExcept ((libs.jsonFromSlice data).mapError .other)
    pure (.manifest genId m)
  | .error _ => do
    let keys ← client.listKeys (genId ++ ['/'])
    pure (.legacy genId keys)

/-- The subcommand, with its arguments. -/
inductive Commands where
  | restore (output : Str) (timestamp : Option Nat)
  | generations
  | inspect (generation : Option Str)
  deriving DecidableEq

/-- What a command that succeeds has printed. -/
inductive Printed where
  | restored (output : Str)
  | generations (lines : List GenerationLine)
  | inspection (shown : Inspection)
  deriving DecidableEq

/-- `main`, after the arguments are parsed: the tool has no key, whatever the bucket was
written with. -/
def main (pf : Platform) (s3 : S3Config) : Commands → M Unit Printed
  | .restore output (some ts) => do
    BackupManager.restoreToTime pf s3 output ts
    pure (.restored output)
  | .restore output none => do
    BackupManager.restore pf s3 output
    pure (.restored output)
  | .generations => do
    let lines ← generations pf.libs ⟨s3.keyPrefix⟩
    pure (.generations lines)
  | .inspect generation => do
    let shown ← inspect pf.libs ⟨s3.keyPrefix⟩ generation
    pure (.inspection shown)

end Cli

end Waloy.Source
