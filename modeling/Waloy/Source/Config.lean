import Waloy.Source.Manifest

/-!
# Build, third-party code and configuration

`Cargo.toml`, `config.rs` and `error.rs`. The crates that waloy calls for JSON,
compression, key derivation and authenticated encryption are not part of the
repository: a platform supplies them as functions, and the theorems that rely on
their documented behaviour say so in a hypothesis.
-/
namespace Waloy.Source

/-- The cargo features of a build, and whether integer overflow panics (the `dev`
profile) or wraps (the `release` profile). -/
structure Build where
  compressionLz4 : Bool
  compressionZstd : Bool
  encryption : Bool
  overflowChecks : Bool
  deriving DecidableEq, Repr

/-- The functions waloy calls in other crates. -/
structure Libs where
  /-- `serde_json::to_vec` on a manifest. -/
  jsonToVec : GenerationManifest → Except String Bytes
  /-- `serde_json::from_slice::<GenerationManifest>`. -/
  jsonFromSlice : Bytes → Except String GenerationManifest
  lz4CompressPrependSize : Bytes → Bytes
  lz4DecompressSizePrepended : Bytes → Except String Bytes
  /-- `zstd::encode_all` at a level. -/
  zstdEncodeAll : Bytes → Nat → Except String Bytes
  zstdDecodeAll : Bytes → Except String Bytes
  /-- `Argon2::default().hash_password_into` with a passphrase and a salt. -/
  argon2HashPassword : Bytes → Bytes → Except String Bytes
  /-- `Aes256Gcm::encrypt` with a key, a nonce and the plaintext. -/
  aes256GcmEncrypt : Bytes → Bytes → Bytes → Except String Bytes
  aes256GcmDecrypt : Bytes → Bytes → Bytes → Except String Bytes

structure Platform where
  build : Build
  libs : Libs

inductive Error where
  | sqlite (e : String)
  | io (e : String)
  | s3 (e : String)
  | other (message : String)
  deriving DecidableEq, Repr

structure S3Config where
  keyPrefix : Str
  deriving DecidableEq, Repr

/-- The algorithms of a build: a variant exists only with its feature. -/
inductive CompressionAlgorithm (build : Build) where
  | none
  | lz4 (feature : build.compressionLz4 = true)
  | zstd (feature : build.compressionZstd = true)
  deriving DecidableEq

/-- Durations are in milliseconds where they meet the system clock
(`retention_duration`) and in nanoseconds where they meet an `Instant`. -/
structure BackupConfig (build : Build) where
  dbPath : Str
  s3 : S3Config
  retentionDuration : Option Nat
  compression : CompressionAlgorithm build
  encryptionKey : Option Str
  autoRestore : Bool
  snapshotInterval : Option Nat

/-- `counter += n` on a `u64` in a build without overflow checks. With them it is the same where
the sum fits, and the process panics where it does not. -/
def wrappingAddU64 (counter n : Nat) : Nat := (counter + n) % 2 ^ 64

theorem wrappingAddU64_eq {counter count : Nat} (h : counter = count % 2 ^ 64) (n : Nat) :
    wrappingAddU64 counter n = (count + n) % 2 ^ 64 := by
  rw [h, wrappingAddU64, Nat.mod_add_mod]

/-- `counter += 1` on a `u32`; `none` is the overflow panic. -/
def incrementU32 (build : Build) (n : Nat) : Option Nat :=
  if n + 1 < 2 ^ 32 then some (n + 1) else if build.overflowChecks then none else some 0

theorem incrementU32_of_lt (build : Build) {n : Nat} (h : n + 1 < 2 ^ 32) :
    incrementU32 build n = some (n + 1) := if_pos h

theorem incrementU32_eq {build : Build} {n next : Nat} (small : n < 2 ^ 32)
    (h : incrementU32 build n = some next) : next = (n + 1) % 2 ^ 32 := by
  unfold incrementU32 at h
  split at h
  · cases h
    omega
  · split at h
    · cases h
    · cases h
      omega

theorem incrementU32_lt {build : Build} {n next : Nat} (checks : build.overflowChecks = true)
    (h : incrementU32 build n = some next) : n + 1 < 2 ^ 32 := by
  unfold incrementU32 at h
  split at h
  · assumption
  · cases h

end Waloy.Source
