import Waloy.Guarantees.Container

/-!
# A reader with another configuration

Objects carry no description of how they were encoded but their magic numbers. A reader of
another build, with another key or without one, goes by these numbers alone.
-/
namespace Waloy.Spec
open Waloy.Effect Waloy.Source

/-- The objects of a configuration are encrypted. -/
def isEncrypted {build : Build} (config : BackupConfig build) : Bool :=
  build.encryption && config.encryptionKey.isSome

/-- The data begins with no magic number of the format. -/
def Markless (data : Bytes) : Prop :=
  ¬ magicLz4 <+: data ∧ ¬ magicZstd <+: data ∧ ¬ magicEncrypted <+: data

/-- Ideal crates: they decode what they encode, and a ciphertext opens with its key only. -/
structure IdealCrates (libs : Libs) : Prop extends Crates libs where
  rejects : ∀ key key' nonce data ciphertext data',
    libs.aes256GcmEncrypt key nonce data = .ok ciphertext →
    libs.aes256GcmDecrypt key' nonce ciphertext = .ok data' → key' = key

/-- A reader with its own build and configuration never takes what it decodes for something
else than what was encoded. -/
def NeverWrong (libs : Libs) : Prop :=
  IdealCrates libs → ∀ {build build' : Build} (writer : BackupConfig build)
    (reader : BackupConfig build') (data encoded : Bytes), Markless data →
    Encodes ⟨build, libs⟩ writer data encoded →
    ∀ bytes, pipelineDecode ⟨build', libs⟩ encoded reader = .ok bytes → bytes = data

/-- The configuration of a writer with a key, and of a reader without one. -/
def sealedConfig (passphrase : Option Str) : BackupConfig sealing.build where
  dbPath := ['d', 'b']
  s3 := ⟨[]⟩
  retentionDuration := none
  compression := .none
  encryptionKey := passphrase
  autoRestore := false
  snapshotInterval := none

/-- A cipher for one key. -/
def oneKeyLibs : Libs :=
  { plain.libs with
    argon2HashPassword := fun passphrase _ => .ok passphrase
    aes256GcmEncrypt := fun key _ data => if key = [112] then .ok data else .error "rejected"
    aes256GcmDecrypt := fun key _ data => if key = [112] then .ok data else .error "rejected" }

theorem oneKey_ideal : IdealCrates oneKeyLibs where
  lz4 _ := rfl
  zstd := by
    rintro data level compressed ⟨⟩
    rfl
  aes := by
    intro key nonce data ciphertext encrypts
    simp only [oneKeyLibs] at encrypts ⊢
    split at encrypts
    case isTrue same =>
      cases encrypts
      exact if_pos same
    case isFalse => cases encrypts
  rejects := by
    intro key key' nonce data ciphertext data' encrypts decrypts
    simp only [oneKeyLibs] at encrypts decrypts
    split at encrypts
    case isTrue same =>
      split at decrypts
      case isTrue same' => exact same'.trans same.symm
      case isFalse => cases decrypts
    case isFalse => cases encrypts

/-- Without the key, the container itself is taken for the data. -/
theorem not_neverWrong : ¬ NeverWrong oneKeyLibs := by
  intro claim
  let salt : Bytes := List.replicate saltLen 0
  let nonce : Bytes := List.replicate nonceLen 0
  have markless : Markless [] := ⟨by decide, by decide, by decide⟩
  have same := claim oneKey_ideal (sealedConfig (some ['p'])) (sealedConfig none) []
    (containerHeader salt nonce) markless ⟨salt, nonce, rfl, rfl, rfl⟩ (containerHeader salt nonce) rfl
  cases same

section
variable {libs : Libs} {build build' : Build} {writer : BackupConfig build}
  {reader : BackupConfig build'} {data compressed encoded bytes : Bytes} {passphrase : Str}

variable (libs) in
/-- A build without an algorithm still knows its magic number. -/
theorem decompress_unknown_lz4 (unknown : build'.compressionLz4 = false) (frame : Bytes) :
    ∃ e, decompress ⟨build', libs⟩ (magicLz4 ++ frame) = .error e := by
  have other : magicLz4 ≠ magicZstd := by decide
  have marked : (magicLz4 ++ frame).take 4 = magicLz4 := rfl
  unfold decompress
  rw [if_neg (by simp [magicLz4])]
  simp [marked, unknown, other]

variable (libs) in
theorem decompress_unknown_zstd (unknown : build'.compressionZstd = false) (frame : Bytes) :
    ∃ e, decompress ⟨build', libs⟩ (magicZstd ++ frame) = .error e := by
  have other : magicZstd ≠ magicLz4 := by decide
  have marked : (magicZstd ++ frame).take 4 = magicZstd := rfl
  unfold decompress
  rw [if_neg (by simp [magicZstd])]
  simp [marked, unknown, other]

/-- What was compressed is decompressed by any build that knows the algorithm, and by no
other; what was not is left alone. -/
theorem decompress_elsewhere (crates : Crates libs) (markless : Markless data)
    (compresses : compress ⟨build, libs⟩ data writer.compression = .ok compressed)
    (decompresses : decompress ⟨build', libs⟩ compressed = .ok bytes) : bytes = data := by
  cases algorithm : writer.compression with
  | none =>
    rw [algorithm] at compresses
    cases compresses
    have plainly : decompress ⟨build', libs⟩ data = .ok data :=
      decompress_eq_self.mpr ⟨fun lz4 => absurd lz4 markless.1, fun zstd => absurd zstd markless.2.1⟩
    rw [plainly] at decompresses
    cases decompresses
    rfl
  | lz4 feature =>
    rw [algorithm] at compresses
    cases compresses
    by_cases known : build'.compressionLz4 = true
    · have here : (⟨build', libs⟩ : Platform).build.compressionLz4 = true := known
      rw [decompress_lz4 here, mapError_eq_ok, crates.lz4] at decompresses
      cases decompresses
      rfl
    · obtain ⟨e, fails⟩ := decompress_unknown_lz4 libs (Bool.not_eq_true _ ▸ known)
        (libs.lz4CompressPrependSize data)
      cases fails.symm.trans decompresses
  | zstd feature =>
    rw [algorithm] at compresses
    unfold compress at compresses
    dsimp only at compresses
    cases encodes : libs.zstdEncodeAll data 3 with
    | error e => rw [encodes] at compresses; cases compresses
    | ok frame =>
      rw [encodes] at compresses
      cases compresses
      by_cases known : build'.compressionZstd = true
      · have here : (⟨build', libs⟩ : Platform).build.compressionZstd = true := known
        rw [decompress_zstd here, mapError_eq_ok,
          crates.zstd _ _ _ encodes] at decompresses
        cases decompresses
        rfl
      · obtain ⟨e, fails⟩ := decompress_unknown_zstd libs (Bool.not_eq_true _ ▸ known) frame
        cases fails.symm.trans decompresses

/-- Compression does not make a container of what is none. -/
theorem compress_unsealed (markless : Markless data)
    (compresses : compress ⟨build, libs⟩ data writer.compression = .ok compressed) :
    ¬ magicEncrypted <+: compressed := by
  cases algorithm : writer.compression with
  | none =>
    rw [algorithm] at compresses
    cases compresses
    exact markless.2.2
  | lz4 feature =>
    rw [algorithm] at compresses
    cases compresses
    rw [← take_four_eq rfl]
    simp [magicEncrypted, magicLz4]
  | zstd feature =>
    rw [algorithm] at compresses
    unfold compress at compresses
    dsimp only at compresses
    cases encodes : libs.zstdEncodeAll data 3 with
    | error e => rw [encodes] at compresses; cases compresses
    | ok frame =>
      rw [encodes] at compresses
      cases compresses
      rw [← take_four_eq rfl]
      simp [magicEncrypted, magicZstd]

/-- What is no container is handed back. -/
theorem decrypt_unsealed (unsealed : ¬ magicEncrypted <+: data) :
    decrypt ⟨build, libs⟩ data passphrase = .ok data := by
  unfold decrypt
  refine if_pos (.inr ?_)
  rwa [Ne, take_four_eq rfl]

/-- The decoding of a configuration, one layer after the other. -/
theorem pipelineDecode_eq : pipelineDecode ⟨build, libs⟩ encoded writer =
    (if isEncrypted writer = true then
      decrypt ⟨build, libs⟩ encoded (writer.encryptionKey.getD []) else .ok encoded).bind
        (decompress ⟨build, libs⟩) := by
  unfold pipelineDecode isEncrypted
  dsimp only
  cases build.encryption with
  | false => rfl
  | true => cases writer.encryptionKey with
    | none => rfl
    | some key => rfl

/-- The encoding of a configuration, one layer after the other. -/
theorem encodes_layers (encodes : Encodes ⟨build, libs⟩ writer data encoded) :
    ∃ compressed, compress ⟨build, libs⟩ data writer.compression = .ok compressed ∧
      if isEncrypted writer = true then
        ∃ salt nonce : Bytes, salt.length = saltLen ∧ nonce.length = nonceLen ∧
          sealWith ⟨build, libs⟩ compressed (writer.encryptionKey.getD []) salt nonce = .ok encoded
      else encoded = compressed := by
  obtain ⟨salt, nonce, hsalt, hnonce, result⟩ := encodes
  unfold encodeWith at result
  cases compresses : compress ⟨build, libs⟩ data writer.compression with
  | error e => rw [compresses] at result; cases result
  | ok compressed =>
    rw [compresses] at result
    dsimp only [bind, Except.bind] at result
    refine ⟨compressed, rfl, ?_⟩
    unfold isEncrypted
    cases feature : build.encryption with
    | false =>
      rw [feature] at result
      cases result
      rfl
    | true =>
      rw [feature] at result
      cases passphrase : writer.encryptionKey with
      | none =>
        rw [passphrase] at result
        cases result
        rfl
      | some key =>
        rw [passphrase] at result
        exact ⟨salt, nonce, hsalt, hnonce, result⟩

end

/-- A reader goes wrong on an object exactly where it takes no key to one that is encrypted. -/
theorem never_wrong_iff {libs : Libs} {build build' : Build} {writer : BackupConfig build}
    {reader : BackupConfig build'} {data encoded : Bytes} (ideal : IdealCrates libs)
    (markless : Markless data) (encodes : Encodes ⟨build, libs⟩ writer data encoded) :
    (∀ bytes, pipelineDecode ⟨build', libs⟩ encoded reader = .ok bytes → bytes = data) ↔
      (isEncrypted writer = true → isEncrypted reader = true) := by
  obtain ⟨compressed, compresses, layer⟩ := encodes_layers encodes
  rw [pipelineDecode_eq]
  by_cases seals : isEncrypted writer = true
  · rw [if_pos seals] at layer
    obtain ⟨salt, nonce, hsalt, hnonce, sealed⟩ := layer
    obtain ⟨key, ciphertext, derives, encrypts, rfl⟩ := sealWith_eq_ok.mp sealed
    by_cases opens : isEncrypted reader = true
    · rw [if_pos opens]
      refine iff_of_true (fun bytes decoded => ?_) fun _ => opens
      cases decrypted : decrypt ⟨build', libs⟩ (containerHeader salt nonce ++ ciphertext)
          (reader.encryptionKey.getD []) with
      | error e => rw [decrypted] at decoded; cases decoded
      | ok inner =>
        rw [decrypted] at decoded
        obtain ⟨key', -, decrypts⟩ := (decrypt_eq_ok hsalt hnonce).mp decrypted
        obtain rfl := ideal.rejects _ _ _ _ _ _ encrypts decrypts
        rw [ideal.aes _ _ _ _ encrypts] at decrypts
        cases decrypts
        exact decompress_elsewhere ideal.toCrates markless compresses decoded
    · rw [if_neg opens]
      constructor
      · intro right
        have unmistakable : Unmistakable ⟨build', libs⟩ (containerHeader salt nonce ++ ciphertext) := by
          unfold Unmistakable
          rw [← take_four_eq rfl, ← take_four_eq rfl]
          have marked : (containerHeader salt nonce ++ ciphertext).take 4 = magicEncrypted := rfl
          rw [marked]
          exact ⟨fun lz4 => absurd lz4 (by decide), fun zstd => absurd zstd (by decide)⟩
        have same := right _ (decompress_eq_self.mpr unmistakable)
        refine absurd ?_ markless.2.2
        rw [← same, containerHeader, List.append_assoc, List.append_assoc]
        exact List.prefix_append _ _
      · exact fun needs => absurd (needs seals) opens
  · rw [if_neg seals] at layer
    subst layer
    refine iff_of_true (fun bytes decoded => ?_) fun needs => absurd needs seals
    have unsealed := compress_unsealed markless compresses
    have inner : (if isEncrypted reader = true then
        decrypt ⟨build', libs⟩ encoded (reader.encryptionKey.getD []) else .ok encoded) =
        .ok encoded := by
      split
      · exact decrypt_unsealed unsealed
      · rfl
    rw [inner] at decoded
    exact decompress_elsewhere ideal.toCrates markless compresses decoded

theorem never_wrong_sealed :
    (∀ bytes, pipelineDecode ⟨sealing.build, oneKeyLibs⟩
      (containerHeader (List.replicate saltLen 0) (List.replicate nonceLen 0) ++ [1, 2])
        (sealedConfig (some ['p'])) = .ok bytes → bytes = [1, 2]) ↔
      (isEncrypted (sealedConfig (some ['p'])) = true →
        isEncrypted (sealedConfig (some ['p'])) = true) := by
  have markless : Markless [1, 2] := ⟨by decide, by decide, by decide⟩
  have encodes : Encodes ⟨sealing.build, oneKeyLibs⟩ (sealedConfig (some ['p'])) [1, 2]
      (containerHeader (List.replicate saltLen 0) (List.replicate nonceLen 0) ++ [1, 2]) :=
    ⟨List.replicate saltLen 0, List.replicate nonceLen 0, rfl, rfl, rfl⟩
  exact never_wrong_iff oneKey_ideal markless encodes

end Waloy.Spec
