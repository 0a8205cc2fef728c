import SkPqc.IdealPrimitives

/-!
# The hybrid KEM

This module embeds `kem.rs`: X25519 and ML-KEM-768 composed by
concatenate-then-KDF.  Keys and ciphertexts are the X25519 part followed by the
ML-KEM part; the slices that take them apart are the source's own.

Main results:

- Theorem `hybridDecap_hybridEncap`: decapsulation with the matching private
  key recovers the encapsulated secret.
- Theorems `hybridEncap_ne_panic` and `hybridDecap_ne_panic`: no input makes
  the KEM panic.
- Theorem `hybrid_kem_agreement`: both ends of every encapsulation to a
  generated key agree, and decapsulation fails on wrong lengths only.
-/

namespace SkPqc
namespace Kem

open Rust

/-! ## Interop constants -/

/-- HKDF combiner `info`. -/
def hkdfInfo : Bytes := byteLit "sk_pqc/x25519-mlkem768/v1"

abbrev x25519PubLen : Nat := 32
abbrev x25519SeedLen : Nat := 32
abbrev mlkemPubLen : Nat := 1184
abbrev mlkemSecretLen : Nat := 2400
abbrev mlkemCtLen : Nat := 1088

/-- `X25519_pub ‖ MLKEM_ek`. -/
abbrev publicKeyLen : Nat := x25519PubLen + mlkemPubLen

/-- `X25519_seed ‖ MLKEM_dk`. -/
abbrev privateKeyLen : Nat := x25519SeedLen + mlkemSecretLen

/-- `X25519_eph_pub ‖ MLKEM_ct`. -/
abbrev ciphertextLen : Nat := x25519PubLen + mlkemCtLen

abbrev sharedSecretLen : Nat := 32

/-- Errors of the hybrid KEM. -/
inductive KemError where
  /-- A field had the wrong length: `(what, expected, got)`. -/
  | badLength (what : String) (expected got : Nat)
  /-- ML-KEM rejected the material. -/
  | mlKem (msg : String)
deriving DecidableEq, Repr

/-- `KemError`'s `Display`. -/
def KemError.display : KemError → String
  | .badLength what expected got => s!"{what} must be {expected} bytes, got {got}"
  | .mlKem msg => s!"ML-KEM error: {msg}"

/-- A hybrid keypair on the wire. -/
structure HybridKeyPair where
  publicKey : Bytes
  privateKey : Bytes

/-- What `hybrid_keypair` draws from `OsRng`. -/
structure KeypairDraws where
  xSeed : ByteBlock x25519SeedLen
  mlkemSeed : ByteBlock 64

/-- What `hybrid_encap` draws from `OsRng`. -/
structure EncapDraws where
  xEph : ByteBlock x25519SeedLen
  coins : ByteBlock 32

/-! ## The KEM functions -/

def expectLen (what : String) (value : Bytes) (expected : Nat) : Outcome KemError Unit :=
  if value.length ≠ expected then .err (.badLength what expected value.length) else .ok ()

variable (P : Primitives)

/-- Concat-then-KDF combiner, X25519 secret first. -/
def combine {ε : Type} (x25519Ss mlkemSs : Bytes) : Outcome ε (ByteBlock sharedSecretLen) :=
  P.hkdfExpand [] (x25519Ss ++ mlkemSs) hkdfInfo sharedSecretLen

/-- Generate a keypair laid out as X25519 part, then ML-KEM part. -/
def hybridKeypair (draws : KeypairDraws) : HybridKeyPair :=
  let (dk, ek) := P.mlkemGenerate draws.mlkemSeed
  { publicKey := (P.x25519Public draws.xSeed).toList ++ ek.toList
    privateKey := draws.xSeed.toList ++ dk.toList }

/-- Encapsulate to a peer's hybrid public key: `(ciphertext, shared)`. -/
def hybridEncap (peerPublicKey : Bytes) (draws : EncapDraws) :
    Outcome KemError (Bytes × ByteBlock sharedSecretLen) := do
  expectLen "hybrid public key" peerPublicKey publicKeyLen
  let xPeerBytes ← slice peerPublicKey 0 x25519PubLen
  let xPeer ← fromSlice x25519PubLen xPeerBytes
  let mlkemPub ← slice peerPublicKey x25519PubLen peerPublicKey.length
  let ek ← Outcome.okOr (.badLength "ML-KEM public key" mlkemPubLen mlkemPub.length)
    (tryFromSlice mlkemPubLen mlkemPub)
  let xEphPub := P.x25519Public draws.xEph
  let xSs := P.diffieHellman draws.xEph xPeer
  let (ct, mlkemSs) ← Outcome.okOr (.mlKem "encapsulation failed")
    (P.mlkemEncapsulate ek draws.coins)
  let shared ← combine P xSs.toList mlkemSs.toList
  pure (xEphPub.toList ++ ct.toList, shared)

/-- Decapsulate a hybrid ciphertext with the hybrid private key. -/
def hybridDecap (ciphertext privateKey : Bytes) :
    Outcome KemError (ByteBlock sharedSecretLen) := do
  expectLen "hybrid ciphertext" ciphertext ciphertextLen
  expectLen "hybrid private key" privateKey privateKeyLen
  let xEphBytes ← slice ciphertext 0 x25519PubLen
  let xEphPub ← fromSlice x25519PubLen xEphBytes
  let mlkemCt ← slice ciphertext x25519PubLen ciphertext.length
  let xSeedBytes ← slice privateKey 0 x25519SeedLen
  let xSeed ← fromSlice x25519SeedLen xSeedBytes
  let mlkemDk ← slice privateKey x25519SeedLen privateKey.length
  let xSs := P.diffieHellman xSeed xEphPub
  let dk ← Outcome.okOr (.badLength "ML-KEM secret key" mlkemSecretLen mlkemDk.length)
    (tryFromSlice mlkemSecretLen mlkemDk)
  let ct ← Outcome.okOr (.badLength "ML-KEM ciphertext" mlkemCtLen mlkemCt.length)
    (tryFromSlice mlkemCtLen mlkemCt)
  let mlkemSs ← Outcome.okOr (.mlKem "decapsulation failed") (P.mlkemDecapsulate dk ct)
  combine P xSs.toList mlkemSs.toList

/-! ## What the functions return -/

theorem expectLen_of_length {what : String} {value : Bytes} {expected : Nat}
    (h : value.length = expected) : expectLen what value expected = .ok () := by
  simp [expectLen, h]

theorem expectLen_of_length_ne {what : String} {value : Bytes} {expected : Nat}
    (h : value.length ≠ expected) :
    expectLen what value expected = .err (.badLength what expected value.length) := by
  simp [expectLen, h]

/-- The shared secret of an exchange whose two leg secrets are given. -/
def sharedSecret (x25519Ss mlkemSs : ByteBlock 32) : ByteBlock sharedSecretLen :=
  P.hkdfSha256 [] (x25519Ss.toList ++ mlkemSs.toList) hkdfInfo sharedSecretLen

@[simp] theorem combine_toList {ε : Type} (x25519Ss mlkemSs : ByteBlock 32) :
    (combine P x25519Ss.toList mlkemSs.toList : Outcome ε _) =
      .ok (sharedSecret P x25519Ss mlkemSs) := by
  simp [combine, sharedSecret]

/-- Encapsulation to a public key given by its two parts. -/
theorem hybridEncap_append (xPeer : ByteBlock 32) (ek : ByteBlock 1184) (draws : EncapDraws) :
    hybridEncap P (xPeer.toList ++ ek.toList) draws =
      match P.mlkemEncapsulate ek draws.coins with
      | none => .err (.mlKem "encapsulation failed")
      | some (ct, mlkemSs) =>
          .ok ((P.x25519Public draws.xEph).toList ++ ct.toList,
            sharedSecret P (P.diffieHellman draws.xEph xPeer) mlkemSs) := by
  have hlen : (xPeer.toList ++ ek.toList).length = publicKeyLen :=
    length_append_blocks xPeer ek
  unfold hybridEncap
  rw [expectLen_of_length hlen, slice_append_left (by simp),
    slice_append_right (by simp) (by simp)]
  cases hct : P.mlkemEncapsulate ek draws.coins with
  | none => simp [hct]
  | some pair => simp [hct]

/-- Decapsulation of a ciphertext and a private key given by their parts. -/
theorem hybridDecap_append (xEphPub : ByteBlock 32) (ct : ByteBlock 1088)
    (xSeed : ByteBlock 32) (dk : ByteBlock 2400) :
    hybridDecap P (xEphPub.toList ++ ct.toList) (xSeed.toList ++ dk.toList) =
      match P.mlkemDecapsulate dk ct with
      | none => .err (.mlKem "decapsulation failed")
      | some mlkemSs => .ok (sharedSecret P (P.diffieHellman xSeed xEphPub) mlkemSs) := by
  have hct : (xEphPub.toList ++ ct.toList).length = ciphertextLen :=
    length_append_blocks xEphPub ct
  have hsk : (xSeed.toList ++ dk.toList).length = privateKeyLen :=
    length_append_blocks xSeed dk
  unfold hybridDecap
  rw [expectLen_of_length hct, expectLen_of_length hsk, slice_append_left (by simp),
    slice_append_right (by simp) (by simp), slice_append_left (by simp),
    slice_append_right (by simp) (by simp)]
  cases hss : P.mlkemDecapsulate dk ct with
  | none => simp [hss]
  | some mlkemSs => simp [hss]

/-- No public key makes encapsulation panic. -/
theorem hybridEncap_ne_panic (peerPublicKey : Bytes) (draws : EncapDraws) :
    hybridEncap P peerPublicKey draws ≠ .panic := by
  by_cases hlen : peerPublicKey.length = publicKeyLen
  · obtain ⟨xPeer, ek, rfl⟩ := exists_blocks hlen
    rw [hybridEncap_append]
    split <;> simp
  · simp [hybridEncap, expectLen_of_length_ne hlen]

/-- No ciphertext and no private key make decapsulation panic. -/
theorem hybridDecap_ne_panic (ciphertext privateKey : Bytes) :
    hybridDecap P ciphertext privateKey ≠ .panic := by
  by_cases hct : ciphertext.length = ciphertextLen
  · by_cases hsk : privateKey.length = privateKeyLen
    · obtain ⟨xEphPub, ct, rfl⟩ := exists_blocks hct
      obtain ⟨xSeed, dk, rfl⟩ := exists_blocks hsk
      rw [hybridDecap_append]
      split <;> simp
    · simp [hybridDecap, expectLen_of_length hct, expectLen_of_length_ne hsk]
  · simp [hybridDecap, expectLen_of_length_ne hct]

/-- A successful encapsulation was to a public key of the fixed length. -/
theorem length_publicKey_of_hybridEncap {peerPublicKey : Bytes} {draws : EncapDraws}
    {r : Bytes × ByteBlock sharedSecretLen} (h : hybridEncap P peerPublicKey draws = .ok r) :
    peerPublicKey.length = publicKeyLen := by
  by_contra hlen
  simp [hybridEncap, expectLen_of_length_ne hlen] at h

/-- A successful encapsulation has a ciphertext of the fixed length. -/
theorem length_of_hybridEncap {peerPublicKey ciphertext : Bytes} {draws : EncapDraws}
    {shared : ByteBlock sharedSecretLen}
    (h : hybridEncap P peerPublicKey draws = .ok (ciphertext, shared)) :
    ciphertext.length = ciphertextLen := by
  obtain ⟨xPeer, ek, rfl⟩ := exists_blocks (length_publicKey_of_hybridEncap P h)
  rw [hybridEncap_append] at h
  split at h
  · cases h
  · cases h
    exact length_append_blocks _ _

/-- An encapsulation to a key pair has an ML-KEM ciphertext behind the ephemeral
public value, and the secret of both exchanges. -/
theorem exists_parts_of_hybridEncap {P : Primitives} {keys : KeypairDraws} {draws : EncapDraws}
    {ciphertext : Bytes} {shared : ByteBlock sharedSecretLen}
    (h : hybridEncap P (hybridKeypair P keys).publicKey draws = .ok (ciphertext, shared)) :
    ∃ ct mlkemSs,
      P.mlkemEncapsulate (P.mlkemGenerate keys.mlkemSeed).2 draws.coins = some (ct, mlkemSs) ∧
      ciphertext = (P.x25519Public draws.xEph).toList ++ ct.toList ∧
      shared = sharedSecret P (P.diffieHellman draws.xEph (P.x25519Public keys.xSeed)) mlkemSs := by
  simp only [hybridKeypair] at h
  rw [hybridEncap_append] at h
  cases hct : P.mlkemEncapsulate (P.mlkemGenerate keys.mlkemSeed).2 draws.coins with
  | none => simp [hct] at h
  | some pair =>
      obtain ⟨ct, mlkemSs⟩ := pair
      simp only [hct, Outcome.ok.injEq, Prod.mk.injEq] at h
      exact ⟨ct, mlkemSs, rfl, h.1.symm, h.2.symm⟩

/-- Decapsulation with the matching private key recovers the secret. -/
theorem hybridDecap_hybridEncap {P : Primitives} (laws : P.KemLaws) {keys : KeypairDraws}
    {draws : EncapDraws} {ciphertext : Bytes} {shared : ByteBlock sharedSecretLen}
    (h : hybridEncap P (hybridKeypair P keys).publicKey draws = .ok (ciphertext, shared)) :
    hybridDecap P ciphertext (hybridKeypair P keys).privateKey = .ok shared := by
  rcases exists_parts_of_hybridEncap h with ⟨ct, mlkemSs, hct, rfl, rfl⟩
  simp only [hybridKeypair]
  rw [hybridDecap_append, laws.decapsulate_encapsulate _ _ _ _ hct, laws.dh_comm]

/-! ## Agreement -/

/-- Encapsulation to a generated public key returns. -/
theorem exists_hybridEncap_eq_ok {P : Primitives} (total : P.MlkemTotal) (keys : KeypairDraws)
    (draws : EncapDraws) :
    ∃ ciphertext shared,
      hybridEncap P (hybridKeypair P keys).publicKey draws = .ok (ciphertext, shared) := by
  have hsome := total.encapsulate_isSome (P.mlkemGenerate keys.mlkemSeed).2 draws.coins
  rcases Option.isSome_iff_exists.mp hsome with ⟨⟨ct, mlkemSs⟩, hct⟩
  simp only [hybridKeypair]
  rw [hybridEncap_append, hct]
  exact ⟨_, _, rfl⟩

/-- Decapsulation returns a secret exactly on the right lengths. -/
theorem exists_hybridDecap_eq_ok_iff {P : Primitives} (total : P.MlkemTotal)
    (ciphertext privateKey : Bytes) :
    (∃ shared, hybridDecap P ciphertext privateKey = .ok shared) ↔
      ciphertext.length = ciphertextLen ∧ privateKey.length = privateKeyLen := by
  by_cases hct : ciphertext.length = ciphertextLen
  · by_cases hsk : privateKey.length = privateKeyLen
    · obtain ⟨xEphPub, ct, rfl⟩ := exists_blocks hct
      obtain ⟨xSeed, dk, rfl⟩ := exists_blocks hsk
      have hsome := total.decapsulate_isSome dk ct
      rcases Option.isSome_iff_exists.mp hsome with ⟨mlkemSs, hss⟩
      rw [hybridDecap_append, hss]
      exact iff_of_true ⟨_, rfl⟩ ⟨hct, hsk⟩
    · simp [hybridDecap, expectLen_of_length hct, expectLen_of_length_ne hsk, hsk]
  · simp [hybridDecap, expectLen_of_length_ne hct, hct]

/-- Every encapsulation to a generated key succeeds with the fixed ciphertext
length and the matching private key recovers its secret; decapsulation is an
error exactly on a ciphertext or a private key of a wrong length. -/
theorem hybrid_kem_agreement {P : Primitives} (laws : P.KemLaws) (total : P.MlkemTotal) :
    (∀ (keys : KeypairDraws) (draws : EncapDraws), ∃ ciphertext shared,
      hybridEncap P (hybridKeypair P keys).publicKey draws = .ok (ciphertext, shared) ∧
        ciphertext.length = 1120 ∧
        hybridDecap P ciphertext (hybridKeypair P keys).privateKey = .ok shared) ∧
    ∀ ciphertext privateKey : Bytes,
      (∃ e, hybridDecap P ciphertext privateKey = .err e) ↔
        ciphertext.length ≠ 1120 ∨ privateKey.length ≠ 2432 := by
  constructor
  · intro keys draws
    rcases exists_hybridEncap_eq_ok total keys draws with ⟨ciphertext, shared, hencap⟩
    exact ⟨ciphertext, shared, hencap, length_of_hybridEncap P hencap,
      hybridDecap_hybridEncap laws hencap⟩
  · intro ciphertext privateKey
    have hok := exists_hybridDecap_eq_ok_iff total ciphertext privateKey
    have hpanic := hybridDecap_ne_panic P ciphertext privateKey
    rw [← not_and_or]
    change _ ↔ ¬ (ciphertext.length = ciphertextLen ∧ privateKey.length = privateKeyLen)
    rw [← hok]
    cases hdecap : hybridDecap P ciphertext privateKey with
    | ok shared => simp
    | err e => simp
    | panic => exact absurd hdecap hpanic

namespace Sample

def primitives : Primitives := Primitives.tabled [] []

def keys : KeypairDraws := ⟨List.Vector.replicate 32 7, List.Vector.replicate 64 7⟩

def draws : EncapDraws := ⟨List.Vector.replicate 32 8, List.Vector.replicate 32 9⟩

end Sample

/-- The two ends of a sample exchange agree, and an empty ciphertext is an error. -/
theorem hybrid_kem_agreement_sample :
    (∃ ciphertext shared,
      hybridEncap Sample.primitives (hybridKeypair Sample.primitives Sample.keys).publicKey
          Sample.draws = .ok (ciphertext, shared) ∧
        ciphertext.length = 1120 ∧
        hybridDecap Sample.primitives ciphertext
          (hybridKeypair Sample.primitives Sample.keys).privateKey = .ok shared) ∧
      ∃ e, hybridDecap Sample.primitives [] [] = .err e := by
  have hagree := hybrid_kem_agreement (P := Sample.primitives) Primitives.tabled_kemLaws
    Primitives.tabled_mlkemTotal
  exact ⟨hagree.1 Sample.keys Sample.draws, (hagree.2 [] []).mpr (.inl (by decide))⟩

end Kem
end SkPqc
