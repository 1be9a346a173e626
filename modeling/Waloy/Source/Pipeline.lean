import Waloy.Source.Calls

/-!
# The data pipeline

`compression.rs`, `encryption.rs` and the two pipeline functions of `manager.rs`:
compress, then optionally encrypt; decrypt, then decompress what the magic bytes
name. Encoding draws a salt and a nonce when it encrypts, so the bytes it returns
are a relation of its input (`Encodes`); decoding is a function.
-/
namespace Waloy.Source
open Waloy.Effect

def magicLz4 : Bytes := [0x57, 0x4C, 0x34, 0x01]
def magicZstd : Bytes := [0x57, 0x5A, 0x53, 0x01]

/-- `encryption::MAGIC`. -/
def magicEncrypted : Bytes := [0x57, 0x45, 0x4E, 0x01]

def saltLen : Nat := 16
def nonceLen : Nat := 12

variable (pf : Platform)

def compress (data : Bytes) : CompressionAlgorithm pf.build → Except Error Bytes
  | .none => .ok data
  | .lz4 _ => .ok (magicLz4 ++ pf.libs.lz4CompressPrependSize data)
  | .zstd _ =>
    match pf.libs.zstdEncodeAll data 3 with
    | .ok compressed => .ok (magicZstd ++ compressed)
    | .error e => .error (.other ("zstd compress: " ++ e))

def decompress (data : Bytes) : Except Error Bytes :=
  if data.length < 4 then .ok data
  else
    let magic := data.take 4
    if pf.build.compressionLz4 ∧ magic = magicLz4 then
      (pf.libs.lz4DecompressSizePrepended (data.drop 4)).mapError
        fun e => .other ("lz4 decompress: " ++ e)
    else if pf.build.compressionZstd ∧ magic = magicZstd then
      (pf.libs.zstdDecodeAll (data.drop 4)).mapError fun e => .other ("zstd decompress: " ++ e)
    else if magic = magicLz4 then
      .error (.other "data is lz4-compressed but compression-lz4 feature is not enabled")
    else if magic = magicZstd then
      .error (.other "data is zstd-compressed but compression-zstd feature is not enabled")
    else .ok data

def deriveKey (passphrase : Str) (salt : Bytes) : Except Error Bytes :=
  (pf.libs.argon2HashPassword (asBytes passphrase) salt).mapError
    fun e => .other ("argon2 key derivation: " ++ e)

/-- The part of `encrypt` after the salt and the nonce are drawn. -/
def sealWith (data : Bytes) (passphrase : Str) (salt nonce : Bytes) : Except Error Bytes := do
  let key ← deriveKey pf passphrase salt
  let ciphertext ← (pf.libs.aes256GcmEncrypt key nonce data).mapError
    fun e => Error.other ("encryption: " ++ e)
  return magicEncrypted ++ salt ++ nonce ++ ciphertext

def encrypt {σ : Type} (data : Bytes) (passphrase : Str) : M σ Bytes := do
  let salt ← call (.fillBytes saltLen)
  let nonce ← call (.fillBytes nonceLen)
  Op.ofExcept (sealWith pf data passphrase salt nonce)

def decrypt (data : Bytes) (passphrase : Str) : Except Error Bytes :=
  if data.length < magicEncrypted.length + saltLen + nonceLen ∨ data.take 4 ≠ magicEncrypted then
    .ok data
  else do
    let salt := (data.drop 4).take saltLen
    let nonce := (data.drop (4 + saltLen)).take nonceLen
    let ciphertext := data.drop (4 + saltLen + nonceLen)
    let key ← deriveKey pf passphrase salt
    (pf.libs.aes256GcmDecrypt key nonce ciphertext).mapError
      fun e => Error.other ("decryption: " ++ e)

def pipelineEncode {σ : Type} (config : BackupConfig pf.build) (data : Bytes) : M σ Bytes := do
  let compressed ← Op.ofExcept (compress pf data config.compression)
  if pf.build.encryption then
    match config.encryptionKey with
    | some key => encrypt pf compressed key
    | none => pure compressed
  else pure compressed

def pipelineDecode (data : Bytes) (config : BackupConfig pf.build) : Except Error Bytes := do
  let decrypted ←
    if pf.build.encryption then
      match config.encryptionKey with
      | some key => decrypt pf data key
      | none => pure data
    else pure data
  decompress pf decrypted

/-- `decode_manifest`. -/
def decodeManifest (data : Bytes) (config : BackupConfig pf.build) :
    Except Error GenerationManifest := do
  let decoded ← pipelineDecode pf data config
  (pf.libs.jsonFromSlice decoded).mapError fun e => Error.other ("manifest deserialize: " ++ e)

/-- The result of `pipeline_encode` for a drawn salt and nonce. -/
def encodeWith (config : BackupConfig pf.build) (data salt nonce : Bytes) : Except Error Bytes := do
  let compressed ← compress pf data config.compression
  if pf.build.encryption then
    match config.encryptionKey with
    | some key => sealWith pf compressed key salt nonce
    | none => pure compressed
  else pure compressed

/-- The results `pipeline_encode` may have on an input. -/
def EncodesTo (config : BackupConfig pf.build) (data : Bytes) (result : Except Error Bytes) : Prop :=
  ∃ salt nonce : Bytes, salt.length = saltLen ∧ nonce.length = nonceLen ∧
    encodeWith pf config data salt nonce = result

def Encodes (config : BackupConfig pf.build) (data encoded : Bytes) : Prop :=
  EncodesTo pf config data (.ok encoded)

end Waloy.Source
