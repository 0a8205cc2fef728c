import SkPqc.Kem
import SkPqc.Foundations.Float

/-!
# The group epoch ratchet

This module embeds `group_ratchet.rs`: the key schedule, the epoch distribution
and the ratchet of one group epoch.  It is written separately from the DM
ratchet: same layout, same KEM, other labels, one more length check and another
error for a secret of a wrong length.

Main results:

- Theorem `wrapEpochSecret_eq_ok_iff`: what a wrapped epoch secret contains.
- Theorem `unwrapEpochSecret_wrap`: the member's private key unwraps a wrapped
  epoch secret.
- Theorems `wrapEpochSecret_ne_panic` and `unwrapEpochSecret_ne_panic`: no
  input makes the wrap or the unwrap panic.
-/

namespace SkPqc
namespace GroupRatchet

open Rust Kem

/-! ## Interop constants -/

abbrev epochSecretLen : Nat := 32
abbrev messageKeyLen : Nat := 32
abbrev wrapNonceLen : Nat := 12
abbrev wrappedSecretLen : Nat := epochSecretLen + 16

/-- `ct ‖ nonce ‖ wrapped`. -/
abbrev wrappedPayloadLen : Nat := ciphertextLen + wrapNonceLen + wrappedSecretLen

def defaultRekeyMsgBound : UInt64 := 50
def defaultRekeyAgeSeconds : UInt64 := 7 * 24 * 3600

/-- HKDF info of the epoch-wrap key. -/
def epochWrapInfo : Bytes := byteLit "skchat/group-ratchet/epoch-wrap/v1"

/-- HKDF salt prefix of a message key; the epoch follows. -/
def msgSaltPrefix : Bytes := byteLit "skchat/epoch/"

/-- HKDF info prefix of a message key; the index follows. -/
def msgInfoPrefix : Bytes := byteLit "skchat/group-ratchet/msg/v1/"

/-- Errors of the group ratchet. -/
inductive GroupRatchetError where
  | badSecretLen (got : Nat)
  | badPublicKeyLen (got : Nat)
  | badPrivateKeyLen (got : Nat)
  | badPayloadLen (got : Nat)
  | kem (e : KemError)
  /-- AES-256-GCM refused the payload. -/
  | unwrapFailed
deriving DecidableEq, Repr

/-- What `wrap_epoch_secret` draws from `OsRng`. -/
structure WrapDraws where
  encap : EncapDraws
  nonce : ByteBlock wrapNonceLen

/-! ## Key schedule and epoch distribution -/

variable (P : Primitives)

/-- The message key of a secret of known length. -/
def deriveMessageKeyArr {ε : Type} (epochSecret : ByteBlock epochSecretLen)
    (epoch index : UInt64) : Outcome ε (ByteBlock messageKeyLen) :=
  let salt := msgSaltPrefix ++ u64Be epoch
  let info := msgInfoPrefix ++ u64Be index
  P.hkdfExpand salt epochSecret.toList info messageKeyLen

/-- The AES-256 key of group message `index` in `epoch`. -/
def deriveMessageKey (epochSecret : Bytes) (epoch index : UInt64) :
    Outcome GroupRatchetError (ByteBlock messageKeyLen) := do
  let es ← Outcome.okOr (.badSecretLen epochSecret.length)
    (tryFromSlice epochSecretLen epochSecret)
  deriveMessageKeyArr P es epoch index

/-- The AES-256 wrap key of a hybrid shared secret. -/
def deriveWrapKey {ε : Type} (shared : Bytes) : Outcome ε (ByteBlock 32) :=
  P.hkdfExpand [] shared epochWrapInfo 32

/-- Wrap an epoch secret to a member's hybrid public key. -/
def wrapEpochSecret (epochSecret memberHybridPub : Bytes) (draws : WrapDraws) :
    Outcome GroupRatchetError Bytes :=
  if epochSecret.length ≠ epochSecretLen then
    .err (.badSecretLen epochSecret.length)
  else if memberHybridPub.length ≠ publicKeyLen then
    .err (.badPublicKeyLen memberHybridPub.length)
  else do
    let (ciphertext, shared) ← (hybridEncap P memberHybridPub draws.encap).mapErr .kem
    let wrapKey ← deriveWrapKey P shared.toList
    let sealed ← P.aes256GcmEncrypt wrapKey.toList draws.nonce.toList [] epochSecret
    let wrapped ← Outcome.okOr .unwrapFailed sealed
    pure (ciphertext ++ draws.nonce.toList ++ wrapped)

/-- Recover an epoch secret with the member's hybrid private key. -/
def unwrapEpochSecret (payload memberHybridPriv : Bytes) :
    Outcome GroupRatchetError (ByteBlock epochSecretLen) :=
  if payload.length ≠ wrappedPayloadLen then
    .err (.badPayloadLen payload.length)
  else if memberHybridPriv.length ≠ privateKeyLen then
    .err (.badPrivateKeyLen memberHybridPriv.length)
  else do
    let ciphertext ← slice payload 0 ciphertextLen
    let nonce ← slice payload ciphertextLen (ciphertextLen + wrapNonceLen)
    let wrapped ← slice payload (ciphertextLen + wrapNonceLen) payload.length
    let shared ← (hybridDecap P ciphertext memberHybridPriv).mapErr .kem
    let wrapKey ← deriveWrapKey P shared.toList
    let opened ← P.aes256GcmDecrypt wrapKey.toList nonce [] wrapped
    let plaintext ← Outcome.okOr .unwrapFailed opened
    Outcome.okOr (.badSecretLen plaintext.length) (tryFromSlice epochSecretLen plaintext)

/-! ## The ratchet of an epoch -/

section Ratchet

variable {φ : Type}

/-- Ratchet state of one group epoch, of a sender or of a receiver. -/
structure EpochRatchet (φ : Type) where
  epoch : UInt64
  epochSecret : ByteBlock epochSecretLen
  /-- Next outbound message index in this epoch. -/
  messageIndex : UInt64
  rekeyMsgBound : UInt64
  rekeyAgeSeconds : UInt64
  /-- Wall-clock reading at which the epoch began. -/
  epochStartedAt : φ

namespace EpochRatchet

/-- A ratchet at index 0 with the default bounds and an explicit start. -/
def newWithStartedAt (epoch : UInt64) (epochSecret : ByteBlock epochSecretLen)
    (epochStartedAt : φ) : EpochRatchet φ where
  epoch := epoch
  epochSecret := epochSecret
  messageIndex := 0
  rekeyMsgBound := defaultRekeyMsgBound
  rekeyAgeSeconds := defaultRekeyAgeSeconds
  epochStartedAt := epochStartedAt

/-- A ratchet that starts now; `clock` is the reading of `now_unix`. -/
def new (epoch : UInt64) (epochSecret : ByteBlock epochSecretLen) (clock : φ) : EpochRatchet φ where
  epoch := epoch
  epochSecret := epochSecret
  messageIndex := 0
  rekeyMsgBound := defaultRekeyMsgBound
  rekeyAgeSeconds := defaultRekeyAgeSeconds
  epochStartedAt := clock

/-- A ratchet that starts now is one that is replayed from this reading. -/
theorem newWithStartedAt_eq_new (epoch : UInt64) (epochSecret : ByteBlock epochSecretLen)
    (clock : φ) : newWithStartedAt epoch epochSecret clock = new epoch epochSecret clock :=
  rfl

/-- The message key of an index. -/
def messageKey {ε : Type} (r : EpochRatchet φ) (index : UInt64) :
    Outcome ε (ByteBlock messageKeyLen) :=
  deriveMessageKeyArr P r.epochSecret r.epoch index

/-- The next index and its key, with the counter advanced. -/
def nextOutboundKey {ε : Type} (r : EpochRatchet φ) :
    Outcome ε ((UInt64 × ByteBlock messageKeyLen) × EpochRatchet φ) := do
  let idx := r.messageIndex
  let key ← deriveMessageKeyArr P r.epochSecret r.epoch idx
  pure ((idx, key), { r with messageIndex := r.messageIndex + 1 })

/-- Whether the message count or the age of the epoch calls for a new one. -/
def shouldRekey [F64 φ] (r : EpochRatchet φ) (now : φ) : Bool :=
  if r.messageIndex ≥ r.rekeyMsgBound then true
  else F64.ge (F64.sub now r.epochStartedAt) (F64.ofU64 r.rekeyAgeSeconds)

end EpochRatchet

end Ratchet

/-! ## What the functions return -/

/-- The key of a message slot. -/
def slotKey (epochSecret : ByteBlock epochSecretLen) (epoch index : UInt64) :
    ByteBlock messageKeyLen :=
  P.hkdfSha256 (msgSaltPrefix ++ u64Be epoch) epochSecret.toList (msgInfoPrefix ++ u64Be index)
    messageKeyLen

@[simp] theorem deriveMessageKeyArr_eq {ε : Type} (epochSecret : ByteBlock epochSecretLen)
    (epoch index : UInt64) :
    (deriveMessageKeyArr P epochSecret epoch index : Outcome ε _) =
      .ok (slotKey P epochSecret epoch index) := by
  simp [deriveMessageKeyArr, slotKey]

@[simp] theorem EpochRatchet.messageKey_eq {φ ε : Type} (r : EpochRatchet φ) (index : UInt64) :
    (r.messageKey P index : Outcome ε _) = .ok (slotKey P r.epochSecret r.epoch index) :=
  deriveMessageKeyArr_eq P _ _ _

@[simp] theorem EpochRatchet.nextOutboundKey_eq {φ ε : Type} (r : EpochRatchet φ) :
    (r.nextOutboundKey P : Outcome ε _) =
      .ok ((r.messageIndex, slotKey P r.epochSecret r.epoch r.messageIndex),
        { r with messageIndex := r.messageIndex + 1 }) := by
  simp [EpochRatchet.nextOutboundKey]

/-- The wrap key of a hybrid shared secret. -/
def wrapKey (shared : ByteBlock sharedSecretLen) : ByteBlock 32 :=
  P.hkdfSha256 [] shared.toList epochWrapInfo 32

@[simp] theorem deriveWrapKey_toList {ε : Type} (shared : ByteBlock sharedSecretLen) :
    (deriveWrapKey P shared.toList : Outcome ε _) = .ok (wrapKey P shared) := by
  simp [deriveWrapKey, wrapKey]

/-- What a successful wrap contains. -/
theorem wrapEpochSecret_eq_ok_iff {P : Primitives} {secret : ByteBlock epochSecretLen}
    {memberHybridPub payload : Bytes} {draws : WrapDraws} :
    wrapEpochSecret P secret.toList memberHybridPub draws = .ok payload ↔
      ∃ ciphertext shared wrapped,
        hybridEncap P memberHybridPub draws.encap = .ok (ciphertext, shared) ∧
        P.aesGcmEncrypt (wrapKey P shared) draws.nonce [] secret.toList = some wrapped ∧
        payload = ciphertext ++ draws.nonce.toList ++ wrapped := by
  simp only [wrapEpochSecret, Outcome.guard_eq_ok_iff, List.Vector.toList_length, ne_eq,
    not_not, true_and, Outcome.bind_eq_ok_iff, Outcome.mapErr_eq_ok_iff, Prod.exists,
    deriveWrapKey_toList, Outcome.ok.injEq, Primitives.aes256GcmEncrypt_toList,
    exists_eq_left', Outcome.pure_eq, Outcome.okOr_eq_ok_iff]
  constructor
  · rintro ⟨-, ciphertext, shared, hencap, wrapped, hwrapped, rfl⟩
    exact ⟨ciphertext, shared, wrapped, hencap, hwrapped, rfl⟩
  · rintro ⟨ciphertext, shared, wrapped, hencap, hwrapped, rfl⟩
    have hpub := length_publicKey_of_hybridEncap P hencap
    exact ⟨hpub, ciphertext, shared, hencap, wrapped, hwrapped, rfl⟩

/-- Unwrapping a payload given by its three parts. -/
theorem unwrapEpochSecret_append {ciphertext wrapped priv : Bytes}
    (nonce : ByteBlock wrapNonceLen) (hct : ciphertext.length = ciphertextLen)
    (hwrapped : wrapped.length = wrappedSecretLen) (hpriv : priv.length = privateKeyLen) :
    unwrapEpochSecret P (ciphertext ++ nonce.toList ++ wrapped) priv = (do
      let shared ← (hybridDecap P ciphertext priv).mapErr .kem
      let plain ← Outcome.okOr .unwrapFailed
        (P.aesGcmDecrypt (wrapKey P shared) nonce [] wrapped)
      Outcome.okOr (.badSecretLen plain.length) (tryFromSlice epochSecretLen plain)) := by
  have hlen : (ciphertext ++ nonce.toList ++ wrapped).length = wrappedPayloadLen := by
    simp [hct, hwrapped, wrappedPayloadLen, Nat.add_assoc]
  unfold unwrapEpochSecret
  rw [if_neg (not_not.mpr hlen), if_neg (not_not.mpr hpriv), List.append_assoc,
    slice_append_left hct, ← List.append_assoc, slice_append_middle hct (by simp),
    slice_append_right (by simp [hct]) (by simp [hct, hwrapped, Nat.add_assoc])]
  simp

/-- The matching private key unwraps a wrapped epoch secret. -/
theorem unwrapEpochSecret_wrap {P : Primitives} (kem : P.KemLaws) (aead : P.AeadLaws)
    {keys : KeypairDraws} {secret : ByteBlock epochSecretLen} {draws : WrapDraws}
    {payload : Bytes}
    (h : wrapEpochSecret P secret.toList (hybridKeypair P keys).publicKey draws = .ok payload) :
    unwrapEpochSecret P payload (hybridKeypair P keys).privateKey = .ok secret := by
  rcases wrapEpochSecret_eq_ok_iff.mp h with ⟨ciphertext, shared, wrapped, hencap, hseal, rfl⟩
  have hwrapped : wrapped.length = wrappedSecretLen := by
    rw [aead.length_encrypt _ _ _ _ _ hseal]
    simp
  have hpriv : (hybridKeypair P keys).privateKey.length = privateKeyLen := by
    simp [hybridKeypair]
  rw [unwrapEpochSecret_append P draws.nonce (length_of_hybridEncap P hencap) hwrapped hpriv,
    hybridDecap_hybridEncap kem hencap]
  simp [aead.decrypt_encrypt _ _ _ _ _ hseal]

theorem wrapEpochSecret_ne_panic (epochSecret memberHybridPub : Bytes) (draws : WrapDraws) :
    wrapEpochSecret P epochSecret memberHybridPub draws ≠ .panic := by
  unfold wrapEpochSecret
  rw [Outcome.guard_ne_panic_iff]
  intro _
  rw [Outcome.guard_ne_panic_iff]
  intro _
  simp only [deriveWrapKey_toList, Outcome.ok_bind, Primitives.aes256GcmEncrypt_toList,
    Outcome.bind_ne_panic_iff, ne_eq, Outcome.mapErr_eq_panic_iff]
  refine ⟨hybridEncap_ne_panic P _ _, fun pair _ => ?_⟩
  exact ⟨Outcome.okOr_ne_panic _ _, by simp⟩

theorem unwrapEpochSecret_ne_panic (payload memberHybridPriv : Bytes) :
    unwrapEpochSecret P payload memberHybridPriv ≠ .panic := by
  by_cases hlen : payload.length = wrappedPayloadLen
  · by_cases hpriv : memberHybridPriv.length = privateKeyLen
    · obtain ⟨ciphertext, nonce, wrapped, rfl⟩ := exists_three_blocks hlen
      rw [unwrapEpochSecret_append P nonce (by simp) (by simp) hpriv]
      simp only [Outcome.bind_ne_panic_iff, ne_eq, Outcome.mapErr_eq_panic_iff]
      refine ⟨hybridDecap_ne_panic P _ _, fun shared _ => ?_⟩
      exact ⟨Outcome.okOr_ne_panic _ _, fun plain _ => Outcome.okOr_ne_panic _ _⟩
    · simp [unwrapEpochSecret, hlen, hpriv]
  · simp [unwrapEpochSecret, hlen]

end GroupRatchet
end SkPqc
