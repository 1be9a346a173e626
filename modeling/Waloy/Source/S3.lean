import Mathlib.Data.Char
import Mathlib.Data.List.Lex
import Mathlib.Data.List.Sort
import Waloy.Source.Pipeline

/-!
# The S3 client

`s3.rs`. The client adds the configured prefix to every key, retries each call
and removes the prefix from the keys of a listing.
-/
namespace Waloy.Source
open Waloy.Effect

def maxRetries : Nat := 3
def retryBaseDelayMs : Nat := 100

structure S3Client where
  keyPrefix : Str
  deriving DecidableEq, Repr

namespace S3Client

def new (config : S3Config) : S3Client := { keyPrefix := config.keyPrefix }

variable (s3 : S3Client) {σ α : Type}

def fullKey (key : Str) : Str :=
  if s3.keyPrefix = [] then key else s3.keyPrefix ++ '/' :: key

/-- The attempts from the given one on, with `left` more after it. -/
def retryFrom (f : M σ α) : Nat → Nat → M σ α
  | 0, _ => f
  | left + 1, attempt => do
    match ← Op.attempt f with
    | .ok value => pure value
    | .error _ => do
      call (.sleep (retryBaseDelayMs * 2 ^ attempt))
      retryFrom f left (attempt + 1)

/-- The first answer that is no error, or the error of the last attempt. -/
def retry (f : M σ α) : M σ α := retryFrom f maxRetries 0

def putObject (key : Str) (data : Bytes) : M σ Unit :=
  retry (orFail .s3 (call (.putObject (s3.fullKey key) data)))

def getObject (key : Str) : M σ Bytes :=
  retry (orFail .s3 (call (.getObject (s3.fullKey key))))

def deleteObject (key : Str) : M σ Unit :=
  retry (orFail .s3 (call (.deleteObject (s3.fullKey key))))

def deleteObjects : List Str → M σ Unit
  | [] => pure ()
  | key :: keys => do
    deleteObject s3 key
    deleteObjects keys

/-- A listed key without the prefix of the client. -/
def relativeKey (key : Str) : Str :=
  if s3.keyPrefix = [] then key else (stripPrefix (s3.keyPrefix ++ ['/']) key).getD key

/-- `keys.sort()`. -/
def sortKeys (keys : List Str) : List Str := keys.insertionSort (· ≤ ·)

def listKeys (keyPrefix : Str) : M σ (List Str) :=
  retry do
    let results ← orFail .s3 (call (.list (s3.fullKey keyPrefix)))
    pure (sortKeys (results.flatten.map s3.relativeKey))

end S3Client

end Waloy.Source
