import Waloy.Spec.Machine

/-!
# The codec of the objects

Decoding finds the algorithm in the first bytes of its input. What was compressed or
encrypted carries these bytes by construction; what was stored as it is carries its own.
-/
namespace Waloy.Spec
open Waloy.Effect Waloy.Source

variable {pf : Platform} (config : BackupConfig pf.build) {A : Type}

/-- The crates decode what they encode. -/
structure Crates (libs : Libs) : Prop where
  lz4 : ∀ data, libs.lz4DecompressSizePrepended (libs.lz4CompressPrependSize data) = .ok data
  zstd : ∀ data level compressed, libs.zstdEncodeAll data level = .ok compressed →
    libs.zstdDecodeAll compressed = .ok data
  aes : ∀ key nonce data ciphertext, libs.aes256GcmEncrypt key nonce data = .ok ciphertext →
    libs.aes256GcmDecrypt key nonce ciphertext = .ok data

/-- The bytes of a container before its ciphertext. -/
def containerHeader (salt nonce : Bytes) : Bytes := magicEncrypted ++ salt ++ nonce

/-- A call of `pipeline_encode`, from its start to its return. -/
def Encoded (env : Env A) (data encoded : Bytes) : Prop :=
  ∃ w w' : World A,
    Steps env.serve (pipelineEncode pf config data (), w) (.pure (.ok encoded, ()), w')

/-- Bytes that carry no magic number of a compression, or one whose decoder returns them
as they are. -/
def Unmistakable (pf : Platform) (data : Bytes) : Prop :=
  (magicLz4 <+: data → pf.build.compressionLz4 = true ∧
    pf.libs.lz4DecompressSizePrepended (data.drop 4) = .ok data) ∧
  (magicZstd <+: data → pf.build.compressionZstd = true ∧
    pf.libs.zstdDecodeAll (data.drop 4) = .ok data)

/-- The codec returns what it was given. -/
def LosslessCodec (env : Env A) : Prop :=
  ∀ data encoded, Encoded config env data encoded → pipelineDecode pf encoded config = .ok data

/-- Bytes that begin like an LZ4 object, stored as they are, cannot be read back. -/
theorem not_losslessCodec :
    ¬ LosslessCodec plainConfig (⟨fileHost fun _ _ => True, fun _ _ _ => True⟩ : Env Files) := by
  intro claim
  let w : World Files := ⟨∅, ⟨none, none⟩, 0, []⟩
  have kept := claim magicLz4 magicLz4 ⟨w, w, .refl⟩
  cases kept

section
variable {config} {data compressed encoded : Bytes}

theorem mapError_eq_ok {ε ε' α : Type} {f : ε → ε'} {r : Except ε α} {value : α} :
    r.mapError f = .ok value ↔ r = .ok value := by
  cases r with
  | ok => simp [Except.mapError]
  | error => simp [Except.mapError]

theorem take_four_eq {magic : Bytes} (four : magic.length = 4) :
    data.take 4 = magic ↔ magic <+: data := by
  rw [List.prefix_iff_eq_take, four]
  exact eq_comm

/-- Decompressing what carries its magic number. -/
theorem decompress_lz4 (feature : pf.build.compressionLz4 = true) (data : Bytes) :
    decompress pf (magicLz4 ++ data) =
      (pf.libs.lz4DecompressSizePrepended data).mapError fun e => .other ("lz4 decompress: " ++ e) := by
  unfold decompress
  rw [if_neg (by simp [magicLz4])]
  apply if_pos
  exact ⟨feature, rfl⟩

theorem decompress_zstd (feature : pf.build.compressionZstd = true) (data : Bytes) :
    decompress pf (magicZstd ++ data) =
      (pf.libs.zstdDecodeAll data).mapError fun e => .other ("zstd decompress: " ++ e) := by
  have other : (magicZstd ++ data).take 4 ≠ magicLz4 := by simp [magicZstd, magicLz4]
  unfold decompress
  rw [if_neg (by simp [magicZstd])]
  dsimp only
  rw [if_neg fun lz4 => other lz4.2]
  apply if_pos
  exact ⟨feature, rfl⟩

/-- Decompression leaves bytes alone that no algorithm claims, and these only. -/
theorem decompress_eq_self : decompress pf data = .ok data ↔ Unmistakable pf data := by
  unfold decompress Unmistakable
  rw [← take_four_eq rfl, ← take_four_eq rfl]
  by_cases short : data.length < 4
  · have other : ∀ magic : Bytes, magic.length = 4 → data.take 4 ≠ magic := by
      rintro magic four rfl
      rw [List.length_take] at four
      omega
    simp [short, other magicLz4 rfl, other magicZstd rfl]
  rw [if_neg short]
  by_cases lz4 : data.take 4 = magicLz4
  · have notZstd : magicLz4 ≠ magicZstd := by decide
    by_cases feature : pf.build.compressionLz4 = true
    · simp [lz4, feature, notZstd, mapError_eq_ok]
    · simp [lz4, feature, notZstd]
  · by_cases zstd : data.take 4 = magicZstd
    · have notLz4 : magicZstd ≠ magicLz4 := by decide
      by_cases feature : pf.build.compressionZstd = true
      · simp [zstd, feature, notLz4, mapError_eq_ok]
      · simp [zstd, feature, notLz4]
    · simp [lz4, zstd]

/-- Decompression inverts compression, except where it takes plain bytes for compressed. -/
theorem decompress_compress (crates : Crates pf.libs)
    (compresses : compress pf data config.compression = .ok compressed) :
    decompress pf compressed = .ok data ↔
      config.compression ≠ .none ∨ Unmistakable pf data := by
  cases algorithm : config.compression with
  | none =>
    rw [algorithm] at compresses
    cases compresses
    rw [decompress_eq_self]
    simp
  | lz4 feature =>
    rw [algorithm] at compresses
    cases compresses
    rw [decompress_lz4 feature, mapError_eq_ok]
    simp [crates.lz4]
  | zstd feature =>
    rw [algorithm] at compresses
    unfold compress at compresses
    dsimp only at compresses
    cases encodes : pf.libs.zstdEncodeAll data 3 with
    | error => rw [encodes] at compresses; cases compresses
    | ok bytes =>
      rw [encodes] at compresses
      cases compresses
      rw [decompress_zstd feature, mapError_eq_ok]
      simp [crates.zstd _ _ _ encodes]

section
variable {salt nonce ciphertext : Bytes} {passphrase : Str}

theorem length_containerHeader (hsalt : salt.length = saltLen) (hnonce : nonce.length = nonceLen) :
    (containerHeader salt nonce).length = magicEncrypted.length + saltLen + nonceLen := by
  rw [containerHeader, List.length_append, List.length_append, hsalt, hnonce]

/-- What a container is made of. -/
theorem sealWith_eq_ok : sealWith pf data passphrase salt nonce = .ok encoded ↔
    ∃ key ciphertext, deriveKey pf passphrase salt = .ok key ∧
      pf.libs.aes256GcmEncrypt key nonce data = .ok ciphertext ∧
      encoded = containerHeader salt nonce ++ ciphertext := by
  unfold sealWith containerHeader
  cases derived : deriveKey pf passphrase salt with
  | error e => simp [bind, Except.bind]
  | ok key =>
    cases encrypts : pf.libs.aes256GcmEncrypt key nonce data with
    | error e => simp [bind, Except.bind, encrypts, Except.mapError]
    | ok ciphertext =>
      simp only [bind, Except.bind, encrypts, Except.mapError, pure, Except.pure, Except.ok.injEq]
      constructor
      · rintro rfl
        exact ⟨key, ciphertext, rfl, encrypts, rfl⟩
      · rintro ⟨_, _, rfl, encrypts', rfl⟩
        rw [encrypts] at encrypts'
        cases encrypts'
        rfl

/-- The reader takes a container apart into its salt, its nonce and its ciphertext. -/
theorem decrypt_container (hsalt : salt.length = saltLen) (hnonce : nonce.length = nonceLen) :
    decrypt pf (containerHeader salt nonce ++ ciphertext) passphrase =
      (deriveKey pf passphrase salt).bind fun key =>
        (pf.libs.aes256GcmDecrypt key nonce ciphertext).mapError
          fun e => Error.other ("decryption: " ++ e) := by
  have four : magicEncrypted.length = 4 := rfl
  have header := length_containerHeader hsalt hnonce
  have long : ¬ ((containerHeader salt nonce ++ ciphertext).length <
      magicEncrypted.length + saltLen + nonceLen ∨
      (containerHeader salt nonce ++ ciphertext).take 4 ≠ magicEncrypted) := by
    rintro (short | other)
    · rw [List.length_append] at short
      omega
    · exact other rfl
  have salted : ((containerHeader salt nonce ++ ciphertext).drop 4).take saltLen = salt := by
    rw [containerHeader, List.append_assoc, List.append_assoc, ← four, List.drop_left, ← hsalt,
      List.take_left]
  have nonced : ((containerHeader salt nonce ++ ciphertext).drop (4 + saltLen)).take nonceLen =
      nonce := by
    rw [containerHeader, List.append_assoc, ← four, ← hsalt, ← List.length_append, List.drop_left,
      ← hnonce, List.take_left]
  have rest : (containerHeader salt nonce ++ ciphertext).drop (4 + saltLen + nonceLen) =
      ciphertext := by
    rw [← four, ← header, List.drop_left]
  unfold decrypt
  rw [if_neg long]
  simp only [salted, nonced, rest]
  rfl

/-- A reader that opens a container has its key and its ciphertext. -/
theorem decrypt_eq_ok {data' : Bytes} (hsalt : salt.length = saltLen)
    (hnonce : nonce.length = nonceLen) :
    decrypt pf (containerHeader salt nonce ++ ciphertext) passphrase = .ok data' ↔
      ∃ key, deriveKey pf passphrase salt = .ok key ∧
        pf.libs.aes256GcmDecrypt key nonce ciphertext = .ok data' := by
  rw [decrypt_container hsalt hnonce]
  cases derived : deriveKey pf passphrase salt with
  | error e => simp [Except.bind]
  | ok key => simp [Except.bind, mapError_eq_ok]

/-- Decryption inverts encryption: what was sealed always shows its magic number. -/
theorem decrypt_sealWith (crates : Crates pf.libs) (hsalt : salt.length = saltLen)
    (hnonce : nonce.length = nonceLen)
    (seals : sealWith pf data passphrase salt nonce = .ok encoded) :
    decrypt pf encoded passphrase = .ok data := by
  obtain ⟨key, ciphertext, derives, encrypts, rfl⟩ := sealWith_eq_ok.mp seals
  exact (decrypt_eq_ok hsalt hnonce).mpr ⟨key, derives, crates.aes _ _ _ _ encrypts⟩

end

/-- Decoding inverts encoding, except where plain bytes are taken for compressed ones. -/
theorem pipelineDecode_encodes (crates : Crates pf.libs) (encodes : Encodes pf config data encoded) :
    pipelineDecode pf encoded config = .ok data ↔
      config.compression ≠ .none ∨ Unmistakable pf data := by
  obtain ⟨salt, nonce, hsalt, hnonce, encoded_eq⟩ := encodes
  unfold encodeWith at encoded_eq
  cases compresses : compress pf data config.compression with
  | error => rw [compresses] at encoded_eq; cases encoded_eq
  | ok compressed =>
    rw [compresses] at encoded_eq
    dsimp only [bind, Except.bind] at encoded_eq
    rw [← decompress_compress crates compresses]
    unfold pipelineDecode
    by_cases feature : pf.build.encryption = true
    · simp only [feature, if_true] at encoded_eq ⊢
      cases passphrase : config.encryptionKey with
      | none =>
        rw [passphrase] at encoded_eq
        cases encoded_eq
        rfl
      | some key =>
        rw [passphrase] at encoded_eq
        simp only [decrypt_sealWith crates hsalt hnonce encoded_eq, bind, Except.bind]
    · simp only [feature] at encoded_eq ⊢
      cases encoded_eq
      rfl

theorem Encoded.encodes {env : Env A} (call : Encoded config env data encoded) :
    Encodes pf config data encoded := by
  obtain ⟨w, w', steps⟩ := call
  have returned : Op.wp env.serve (watch anyChange) (pipelineEncode pf config data)
      (fun bytes _ _ => Encodes pf config data bytes) (fun _ _ _ => True) () w :=
    wp_pipelineEncode config data trivial (fun _ _ _ encodes => encodes) fun _ _ _ _ => trivial
  have result := Steps.result steps returned
  exact result

end

/-- The codec returns what it was given exactly where it compresses or the bytes cannot be
taken for compressed ones. -/
theorem codec_lossless_iff (crates : Crates pf.libs) {env : Env A} {data encoded : Bytes}
    (call : Encoded config env data encoded) :
    pipelineDecode pf encoded config = .ok data ↔
      config.compression ≠ .none ∨ Unmistakable pf data :=
  pipelineDecode_encodes crates call.encodes

theorem plain_crates : Crates plain.libs where
  lz4 _ := rfl
  zstd := by
    rintro data level compressed ⟨⟩
    rfl
  aes := by
    rintro key nonce data ciphertext ⟨⟩

theorem codec_lossless_plain :
    pipelineDecode plain (walHeader 7) plainConfig = .ok (walHeader 7) ↔
      plainConfig.compression ≠ .none ∨ Unmistakable plain (walHeader 7) := by
  let env : Env Files := ⟨fileHost fun _ _ => True, fun _ _ _ => True⟩
  let w : World Files := ⟨∅, ⟨none, none⟩, 0, []⟩
  have call : Encoded plainConfig env (walHeader 7) (walHeader 7) := ⟨w, w, .refl⟩
  exact codec_lossless_iff plainConfig plain_crates call

end Waloy.Spec
