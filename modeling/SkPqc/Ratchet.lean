import SkPqc.Kem
import SkPqc.Foundations.Float

/-!
# The DM epoch ratchet

This module embeds `ratchet.rs`: the per-message key schedule, the wrapping of
an epoch secret for the peer's hybrid key, and the outbound ratchet with its
two rekey bounds.

Main results:

- Theorem `deriveDmMessageKey_toList`: a 32-byte secret always yields a key.
- Theorem `wrapDmEpochSecret_eq_ok_iff`: what a wrapped epoch secret contains.
- Theorem `unwrapDmEpochSecret_wrap`: the peer's private key unwraps a wrapped
  epoch secret.
- Theorems `wrapDmEpochSecret_ne_panic` and `unwrapDmEpochSecret_ne_panic`: no
  input makes the wrap or the unwrap panic.
-/

namespace SkPqc
namespace Ratchet

open Rust Kem

/-! ## Interop constants -/

abbrev epochSecretLen : Nat := 32
abbrev messageKeyLen : Nat := 32
abbrev wrapNonceLen : Nat := 12
abbrev wrappedSecretLen : Nat := epochSecretLen + 16

/-- `hybrid_ct ‖ nonce ‖ wrapped`. -/
abbrev wrappedPayloadLen : Nat := ciphertextLen + wrapNonceLen + wrappedSecretLen

def defaultRekeyMsgBound : UInt64 := 50
def defaultRekeyAgeSeconds : UInt64 := 7 * 24 * 3600

/-- HKDF salt prefix of a message key; the epoch follows. -/
def epochSaltPrefix : Bytes := byteLit "skchat/dm-epoch/"

/-- HKDF info prefix of a message key; the index follows. -/
def msgInfoPrefix : Bytes := byteLit "skchat/dm-ratchet/msg/v1/"

/-- HKDF info of the epoch-wrap key. -/
def infoDmWrap : Bytes := byteLit "skchat/dm-ratchet/epoch-wrap/v1"

/-- Errors of the key schedule and of the epoch-secret distribution. -/
inductive RatchetError where
  | badSecretLen (got : Nat)
  | badPublicKeyLen (got : Nat)
  | badPayloadLen (got : Nat)
  | kem (e : KemError)
  /-- Tamper, wrong key, or an implicitly rejected KEM ciphertext. -/
  | unwrapFailed
deriving DecidableEq, Repr

/-- What `wrap_dm_epoch_secret` draws from `OsRng`. -/
structure WrapDraws where
  encap : EncapDraws
  nonce : ByteBlock wrapNonceLen

/-! ## Key schedule and epoch-secret distribution -/

section Functions

variable (P : Primitives)

/-- The AES-256 key of DM message `index` in `epoch`. -/
def deriveDmMessageKey (epochSecret : Bytes) (epoch index : UInt64) :
    Outcome RatchetError (ByteBlock messageKeyLen) :=
  if epochSecret.length ≠ epochSecretLen then
    .err (.badSecretLen epochSecret.length)
  else
    let salt := epochSaltPrefix ++ u64Be epoch
    let info := msgInfoPrefix ++ u64Be index
    P.hkdfExpand salt epochSecret info messageKeyLen

/-- The AES-256 wrap key of a hybrid shared secret. -/
def dmWrapKey {ε : Type} (shared : Bytes) : Outcome ε (ByteBlock 32) :=
  P.hkdfExpand [] shared infoDmWrap 32

/-- Wrap an epoch secret to a peer's hybrid public key. -/
def wrapDmEpochSecret (epochSecret peerHybridPub : Bytes) (draws : WrapDraws) :
    Outcome RatchetError Bytes :=
  if epochSecret.length ≠ epochSecretLen then
    .err (.badSecretLen epochSecret.length)
  else if peerHybridPub.length ≠ publicKeyLen then
    .err (.badPublicKeyLen peerHybridPub.length)
  else do
    let (ciphertext, shared) ← (hybridEncap P peerHybridPub draws.encap).mapErr .kem
    let wrapKey ← dmWrapKey P shared.toList
    let sealed ← P.aes256GcmEncrypt wrapKey.toList draws.nonce.toList [] epochSecret
    let wrapped ← Outcome.okOr .unwrapFailed sealed
    pure (ciphertext ++ draws.nonce.toList ++ wrapped)

/-- Recover an epoch secret with the recipient's hybrid private key. -/
def unwrapDmEpochSecret (payload peerHybridPriv : Bytes) :
    Outcome RatchetError (ByteBlock epochSecretLen) :=
  if payload.length ≠ wrappedPayloadLen then
    .err (.badPayloadLen payload.length)
  else do
    let ciphertext ← slice payload 0 ciphertextLen
    let nonceBytes ← slice payload ciphertextLen (ciphertextLen + wrapNonceLen)
    let wrapped ← slice payload (ciphertextLen + wrapNonceLen) payload.length
    let shared ← (hybridDecap P ciphertext peerHybridPriv).mapErr .kem
    let wrapKey ← dmWrapKey P shared.toList
    let opened ← P.aes256GcmDecrypt wrapKey.toList nonceBytes [] wrapped
    let plain ← Outcome.okOr .unwrapFailed opened
    if plain.length ≠ epochSecretLen then .err .unwrapFailed
    else fromSlice epochSecretLen plain

end Functions

/-! ## The outbound ratchet -/

section Ratchet

variable {φ : Type} [F64 φ]

/-- Whether the message count or the age of an epoch calls for a new one. -/
def shouldRekey (messageIndex : UInt64) (epochStartedAt now : φ)
    (rekeyMsgBound rekeyAgeSeconds : UInt64) : Bool :=
  if messageIndex ≥ rekeyMsgBound then true
  else F64.ge (F64.sub now epochStartedAt) (F64.ofU64 rekeyAgeSeconds)

/-- Ratchet state of one conversation epoch. -/
structure DmRatchet (φ : Type) where
  epoch : UInt64
  epochSecret : ByteBlock epochSecretLen
  /-- Next outbound message index in this epoch. -/
  messageIndex : UInt64
  rekeyMsgBound : UInt64
  rekeyAgeSeconds : UInt64
  /-- Wall-clock reading at which the epoch began. -/
  epochStartedAt : φ

namespace DmRatchet

/-- A ratchet at index 0; `clock` is the wall-clock reading of the call. -/
def withBounds (epoch : UInt64) (epochSecret : ByteBlock epochSecretLen)
    (rekeyMsgBound rekeyAgeSeconds : UInt64) (clock : φ) : DmRatchet φ where
  epoch := epoch
  epochSecret := epochSecret
  messageIndex := 0
  rekeyMsgBound := rekeyMsgBound
  rekeyAgeSeconds := rekeyAgeSeconds
  epochStartedAt := clock

/-- The next index and its key, with the counter advanced. -/
def nextOutboundKey {ε : Type} (P : Primitives) (r : DmRatchet φ) :
    Outcome ε ((UInt64 × ByteBlock messageKeyLen) × DmRatchet φ) := do
  let idx := r.messageIndex
  let key ← Outcome.expect (deriveDmMessageKey P r.epochSecret.toList r.epoch idx)
  pure ((idx, key), { r with messageIndex := r.messageIndex + 1 })

/-- The rekey bound of this ratchet; `now` defaults to the wall clock. -/
def shouldRekey (r : DmRatchet φ) (now : Option φ) (clock : φ) : Bool :=
  Ratchet.shouldRekey r.messageIndex r.epochStartedAt (now.getD clock)
    r.rekeyMsgBound r.rekeyAgeSeconds

/-- A ratchet that need not rekey has not reached its message bound. -/
theorem messageIndex_lt_of_shouldRekey_eq_false {r : DmRatchet φ} {now : Option φ} {clock : φ}
    (h : r.shouldRekey now clock = false) : r.messageIndex < r.rekeyMsgBound := by
  unfold DmRatchet.shouldRekey Ratchet.shouldRekey at h
  split at h
  · cases h
  · rename_i hbound
    exact UInt64.not_le.mp hbound

end DmRatchet

end Ratchet

/-! ## What the functions return -/

variable (P : Primitives)

/-- The key that `deriveDmMessageKey` derives from a 32-byte secret. -/
def messageKey (secret : ByteBlock epochSecretLen) (epoch index : UInt64) :
    ByteBlock messageKeyLen :=
  P.hkdfSha256 (epochSaltPrefix ++ u64Be epoch) secret.toList
    (msgInfoPrefix ++ u64Be index) messageKeyLen

@[simp] theorem deriveDmMessageKey_toList (secret : ByteBlock epochSecretLen)
    (epoch index : UInt64) :
    deriveDmMessageKey P secret.toList epoch index = .ok (messageKey P secret epoch index) := by
  simp [deriveDmMessageKey, messageKey]

@[simp] theorem DmRatchet.nextOutboundKey_eq {φ ε : Type} (r : DmRatchet φ) :
    (r.nextOutboundKey P : Outcome ε _) =
      .ok ((r.messageIndex, messageKey P r.epochSecret r.epoch r.messageIndex),
        { r with messageIndex := r.messageIndex + 1 }) := by
  simp [DmRatchet.nextOutboundKey]

/-- The wrap key of a hybrid shared secret. -/
def wrapKey (shared : ByteBlock sharedSecretLen) : ByteBlock 32 :=
  P.hkdfSha256 [] shared.toList infoDmWrap 32

@[simp] theorem dmWrapKey_toList {ε : Type} (shared : ByteBlock sharedSecretLen) :
    (dmWrapKey P shared.toList : Outcome ε _) = .ok (wrapKey P shared) := by
  simp [dmWrapKey, wrapKey]

/-- What a successful wrap contains. -/
theorem wrapDmEpochSecret_eq_ok_iff {P : Primitives} {secret : ByteBlock epochSecretLen}
    {peerHybridPub payload : Bytes} {draws : WrapDraws} :
    wrapDmEpochSecret P secret.toList peerHybridPub draws = .ok payload ↔
      ∃ ciphertext shared wrapped,
        hybridEncap P peerHybridPub draws.encap = .ok (ciphertext, shared) ∧
        P.aesGcmEncrypt (wrapKey P shared) draws.nonce [] secret.toList = some wrapped ∧
        payload = ciphertext ++ draws.nonce.toList ++ wrapped := by
  simp only [wrapDmEpochSecret, Outcome.guard_eq_ok_iff, List.Vector.toList_length, ne_eq,
    not_not, true_and, Outcome.bind_eq_ok_iff, Outcome.mapErr_eq_ok_iff, Prod.exists,
    dmWrapKey_toList, Outcome.ok.injEq, Primitives.aes256GcmEncrypt_toList,
    exists_eq_left', Outcome.pure_eq, Outcome.okOr_eq_ok_iff]
  constructor
  · rintro ⟨-, ciphertext, shared, hencap, wrapped, hwrapped, rfl⟩
    exact ⟨ciphertext, shared, wrapped, hencap, hwrapped, rfl⟩
  · rintro ⟨ciphertext, shared, wrapped, hencap, hwrapped, rfl⟩
    have hpub := length_publicKey_of_hybridEncap P hencap
    exact ⟨hpub, ciphertext, shared, hencap, wrapped, hwrapped, rfl⟩

/-- Unwrapping a payload given by its three parts. -/
theorem unwrapDmEpochSecret_append {ciphertext wrapped : Bytes} (nonce : ByteBlock wrapNonceLen)
    (priv : Bytes) (hct : ciphertext.length = ciphertextLen)
    (hwrapped : wrapped.length = wrappedSecretLen) :
    unwrapDmEpochSecret P (ciphertext ++ nonce.toList ++ wrapped) priv = (do
      let shared ← (hybridDecap P ciphertext priv).mapErr .kem
      let plain ← Outcome.okOr .unwrapFailed
        (P.aesGcmDecrypt (wrapKey P shared) nonce [] wrapped)
      if plain.length ≠ epochSecretLen then .err .unwrapFailed
      else fromSlice epochSecretLen plain) := by
  have hlen : (ciphertext ++ nonce.toList ++ wrapped).length = wrappedPayloadLen := by
    simp [hct, hwrapped, wrappedPayloadLen, Nat.add_assoc]
  unfold unwrapDmEpochSecret
  rw [if_neg (not_not.mpr hlen), List.append_assoc, slice_append_left hct,
    ← List.append_assoc, slice_append_middle hct (by simp),
    slice_append_right (by simp [hct]) (by simp [hct, hwrapped, Nat.add_assoc])]
  simp

/-- The matching private key unwraps a wrapped epoch secret. -/
theorem unwrapDmEpochSecret_wrap {P : Primitives} (kem : P.KemLaws) (aead : P.AeadLaws)
    {keys : KeypairDraws} {secret : ByteBlock epochSecretLen} {draws : WrapDraws}
    {payload : Bytes}
    (h : wrapDmEpochSecret P secret.toList (hybridKeypair P keys).publicKey draws =
      .ok payload) :
    unwrapDmEpochSecret P payload (hybridKeypair P keys).privateKey = .ok secret := by
  rcases wrapDmEpochSecret_eq_ok_iff.mp h with ⟨ciphertext, shared, wrapped, hencap, hseal, rfl⟩
  have hwrapped : wrapped.length = wrappedSecretLen := by
    rw [aead.length_encrypt _ _ _ _ _ hseal]
    simp
  rw [unwrapDmEpochSecret_append P draws.nonce _ (length_of_hybridEncap P hencap) hwrapped,
    hybridDecap_hybridEncap kem hencap]
  simp [aead.decrypt_encrypt _ _ _ _ _ hseal]

theorem wrapDmEpochSecret_ne_panic (epochSecret peerHybridPub : Bytes) (draws : WrapDraws) :
    wrapDmEpochSecret P epochSecret peerHybridPub draws ≠ .panic := by
  unfold wrapDmEpochSecret
  rw [Outcome.guard_ne_panic_iff]
  intro _
  rw [Outcome.guard_ne_panic_iff]
  intro _
  simp only [dmWrapKey_toList, Outcome.ok_bind, Primitives.aes256GcmEncrypt_toList,
    Outcome.bind_ne_panic_iff, ne_eq, Outcome.mapErr_eq_panic_iff]
  refine ⟨hybridEncap_ne_panic P _ _, fun pair _ => ?_⟩
  exact ⟨Outcome.okOr_ne_panic _ _, by simp⟩

theorem unwrapDmEpochSecret_ne_panic (payload peerHybridPriv : Bytes) :
    unwrapDmEpochSecret P payload peerHybridPriv ≠ .panic := by
  by_cases hlen : payload.length = wrappedPayloadLen
  · obtain ⟨ciphertext, nonce, wrapped, rfl⟩ := exists_three_blocks hlen
    rw [unwrapDmEpochSecret_append P nonce _ (by simp) (by simp)]
    simp only [Outcome.bind_ne_panic_iff, ne_eq, Outcome.mapErr_eq_panic_iff]
    refine ⟨hybridDecap_ne_panic P _ _, fun shared _ => ?_⟩
    refine ⟨Outcome.okOr_ne_panic _ _, fun plain _ => ?_⟩
    apply Outcome.guard_ne_panic_iff.mpr
    intro hplain
    rw [fromSlice_of_length (not_not.mp hplain)]
    simp
  · simp [unwrapDmEpochSecret, hlen]

variable {P} in
/-- On a payload and a private key of the right lengths, the unwrap fails in one
way only. -/
theorem unwrapDmEpochSecret_failsOnly (total : P.MlkemTotal) {payload peerHybridPriv : Bytes}
    (hpayload : payload.length = wrappedPayloadLen)
    (hpriv : peerHybridPriv.length = privateKeyLen) :
    (unwrapDmEpochSecret P payload peerHybridPriv).FailsOnly (· = .unwrapFailed) := by
  obtain ⟨ciphertext, nonce, wrapped, rfl⟩ := exists_three_blocks hpayload
  rcases (exists_hybridDecap_eq_ok_iff total ciphertext.toList peerHybridPriv).mpr
    ⟨by simp, hpriv⟩ with ⟨shared, hdecap⟩
  rw [unwrapDmEpochSecret_append P nonce _ (by simp) (by simp), hdecap,
    Outcome.mapErr_ok, Outcome.ok_bind]
  refine Outcome.FailsOnly.bind ?_ fun plain => ?_
  · cases P.aesGcmDecrypt (wrapKey P shared) nonce [] wrapped.toList with
    | none => exact Outcome.FailsOnly.err rfl
    | some plain => exact Outcome.FailsOnly.ok plain _
  · split
    · exact Outcome.FailsOnly.err rfl
    · exact fromSlice_failsOnly _ _ _

end Ratchet
end SkPqc
