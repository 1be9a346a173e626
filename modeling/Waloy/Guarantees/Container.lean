import Waloy.Guarantees.Lossless

/-!
# The encryption container

A container is a magic number, a salt, a nonce and a ciphertext. What is shorter than the
first three is no container to the reader, which hands it back as it is.
-/
namespace Waloy.Spec
open Waloy.Effect Waloy.Source

variable (pf : Platform)

/-- An ideal cipher under a nonce that sealed one message: the derived key opens the
ciphertext, and no other key or ciphertext opens. -/
structure IdealAead (data : Bytes) (passphrase : Str) (salt nonce : Bytes) : Prop where
  opens : ∀ {key ciphertext}, deriveKey pf passphrase salt = .ok key →
    pf.libs.aes256GcmEncrypt key nonce data = .ok ciphertext →
    pf.libs.aes256GcmDecrypt key nonce ciphertext = .ok data
  only : ∀ {key ciphertext key' ciphertext' data'}, deriveKey pf passphrase salt = .ok key →
    pf.libs.aes256GcmEncrypt key nonce data = .ok ciphertext →
    pf.libs.aes256GcmDecrypt key' nonce ciphertext' = .ok data' →
    key' = key ∧ ciphertext' = ciphertext

/-- The container opens with its passphrase, and fails with a passphrase of another key. -/
def OpensWithKey (data encoded : Bytes) (passphrase : Str) (salt : Bytes) : Prop :=
  decrypt pf encoded passphrase = .ok data ∧
    ∀ other, deriveKey pf other salt ≠ deriveKey pf passphrase salt →
      ∃ e, decrypt pf encoded other = .error e

/-- No part of a container opens. -/
def PartsFail (encoded : Bytes) : Prop :=
  ∀ other n, n < encoded.length → ∃ e, decrypt pf (encoded.take n) other = .error e

/-- Every container opens with its key, and neither with another one nor in part. -/
def ContainerRoundTrips : Prop :=
  ∀ {data encoded : Bytes} {passphrase : Str} {salt nonce : Bytes}, salt.length = saltLen →
    nonce.length = nonceLen → IdealAead pf data passphrase salt nonce →
    sealWith pf data passphrase salt nonce = .ok encoded →
    OpensWithKey pf data encoded passphrase salt ∧ PartsFail pf encoded

/-- The message of the platform below, and its salt. -/
def sealedMessage : Bytes := [1, 2, 3, 4, 5]

def sealedSalt : Bytes := (List.range saltLen).map UInt8.ofNat

/-- The cipher of the platform below appends a tag. -/
def taggedMessage : Bytes := sealedMessage ++ List.replicate 16 7

/-- A platform whose cipher has sealed one message with one key, derived from a passphrase and
the salt. -/
def sealing : Platform where
  build := ⟨false, false, true, true⟩
  libs :=
    { plain.libs with
      argon2HashPassword := fun passphrase salt => .ok (passphrase ++ salt)
      aes256GcmEncrypt := fun _ _ data => .ok (data ++ List.replicate 16 7)
      aes256GcmDecrypt := fun key _ ciphertext =>
        if key = 112 :: sealedSalt ∧ ciphertext = taggedMessage then .ok sealedMessage
        else .error "rejected" }

theorem sealing_ideal (nonce : Bytes) : IdealAead sealing sealedMessage ['p'] sealedSalt nonce where
  opens := by
    rintro key ciphertext ⟨⟩ ⟨⟩
    simp only [sealing]
    exact if_pos ⟨rfl, rfl⟩
  only := by
    rintro key ciphertext key' ciphertext' data' ⟨⟩ ⟨⟩ opened
    simp only [sealing] at opened
    split at opened
    case isTrue same => exact same
    case isFalse => cases opened

/-- The first byte of a container is handed back. -/
theorem not_containerRoundTrips : ¬ ContainerRoundTrips sealing := by
  intro claim
  let nonce : Bytes := List.replicate nonceLen 0
  have sealed : sealWith sealing sealedMessage ['p'] sealedSalt nonce =
      .ok (containerHeader sealedSalt nonce ++ taggedMessage) := rfl
  have parts := (claim rfl rfl (sealing_ideal nonce) sealed).2
  obtain ⟨e, failed⟩ := parts [] 1 (by decide)
  cases failed

section
variable {pf} {data encoded salt nonce ciphertext : Bytes} {passphrase : Str}

/-- What is shorter than a header is handed back. -/
theorem decrypt_short (short : data.length < magicEncrypted.length + saltLen + nonceLen) :
    decrypt pf data passphrase = .ok data := by
  unfold decrypt
  exact if_pos (.inl short)

theorem exists_error_iff {ε α : Type} {r : Except ε α} : (∃ e, r = .error e) ↔ ∀ x, r ≠ .ok x := by
  cases r with
  | error e => simp
  | ok x => simp

end

/-- A container opens with its passphrase alone; of its parts, those that reach its
ciphertext fail, and those that do not are handed back as they are. -/
theorem container_roundTrips {data encoded : Bytes} {passphrase : Str} {salt nonce : Bytes}
    (hsalt : salt.length = saltLen) (hnonce : nonce.length = nonceLen)
    (ideal : IdealAead pf data passphrase salt nonce)
    (seals : sealWith pf data passphrase salt nonce = .ok encoded) :
    OpensWithKey pf data encoded passphrase salt ∧
      ∀ other n, n < encoded.length →
        if magicEncrypted.length + saltLen + nonceLen ≤ n then
          ∃ e, decrypt pf (encoded.take n) other = .error e
        else decrypt pf (encoded.take n) other = .ok (encoded.take n) := by
  obtain ⟨key, ciphertext, derives, encrypts, rfl⟩ := sealWith_eq_ok.mp seals
  have header := length_containerHeader hsalt hnonce
  refine ⟨⟨?_, ?_⟩, ?_⟩
  · exact (decrypt_eq_ok hsalt hnonce).mpr ⟨key, derives, ideal.opens derives encrypts⟩
  · intro other differs
    rw [exists_error_iff]
    intro data' opened
    obtain ⟨key', derives', decrypts⟩ := (decrypt_eq_ok hsalt hnonce).mp opened
    obtain ⟨rfl, -⟩ := ideal.only derives encrypts decrypts
    exact differs (derives'.trans derives.symm)
  · intro other n part
    by_cases reaches : magicEncrypted.length + saltLen + nonceLen ≤ n
    · rw [if_pos reaches, exists_error_iff]
      intro data' opened
      rw [List.take_append, List.take_of_length_le (by omega), decrypt_eq_ok hsalt hnonce] at opened
      obtain ⟨key', -, decrypts⟩ := opened
      obtain ⟨-, whole⟩ := ideal.only derives encrypts decrypts
      have length := congrArg List.length whole
      rw [List.length_take] at length
      rw [List.length_append] at part
      omega
    · rw [if_neg reaches]
      apply decrypt_short
      rw [List.length_take]
      omega

theorem container_roundTrips_sealing :
    let container := containerHeader sealedSalt (List.replicate nonceLen 0) ++ taggedMessage
    OpensWithKey sealing sealedMessage container ['p'] sealedSalt ∧
      ∀ other n, n < container.length →
        if magicEncrypted.length + saltLen + nonceLen ≤ n then
          ∃ e, decrypt sealing (container.take n) other = .error e
        else decrypt sealing (container.take n) other = .ok (container.take n) :=
  container_roundTrips sealing rfl rfl (sealing_ideal _) rfl

end Waloy.Spec
