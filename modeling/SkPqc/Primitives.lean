import SkPqc.Foundations.Bytes

/-!
# Cryptographic primitives

The crate implements no lattice, curve, AEAD or hash mathematics: it wires the
functions of `x25519-dalek`, `ml-kem`, `hkdf` and `aes-gcm`.  `Primitives`
collects what the modelled code calls; every definition of the development
takes it as a parameter.

The documented behaviour that a result relies on is a named hypothesis:
`KemLaws`, `AeadLaws`, or, for one sealed body, `OpensOnlyUnder` and
`IdealBody`.

Main results:

- Theorems `tagged_kemLaws` and `tagged_aeadLaws`: the laws are satisfiable,
  with the byte lengths of the real primitives.
- Theorem `onlyTag_idealBody`: so are the ideal bodies.
-/

namespace SkPqc

open Rust

/-- The functions of the primitive crates.  Randomness is an argument. -/
structure Primitives where
  /-- `PublicKey::from(&StaticSecret)` of `x25519-dalek`. -/
  x25519Public : ByteBlock 32 → ByteBlock 32
  /-- `StaticSecret::diffie_hellman(seed, public)`. -/
  diffieHellman : ByteBlock 32 → ByteBlock 32 → ByteBlock 32
  /-- `MlKem768::generate`, returning the encoded `(dk, ek)`. -/
  mlkemGenerate : ByteBlock 64 → ByteBlock 2400 × ByteBlock 1184
  /-- `EncapsulationKey::encapsulate`, returning `(ct, shared)`. -/
  mlkemEncapsulate : ByteBlock 1184 → ByteBlock 32 → Option (ByteBlock 1088 × ByteBlock 32)
  /-- `DecapsulationKey::decapsulate`. -/
  mlkemDecapsulate : ByteBlock 2400 → ByteBlock 1088 → Option (ByteBlock 32)
  /-- HKDF-SHA256 of `(salt, ikm, info)`, to a length it can produce. -/
  hkdfSha256 : Bytes → Bytes → Bytes → (len : Nat) → ByteBlock len
  /-- AES-256-GCM `encrypt` of `(key, nonce, aad, msg)`, body and tag together. -/
  aesGcmEncrypt : ByteBlock 32 → ByteBlock 12 → Bytes → Bytes → Option Bytes
  /-- AES-256-GCM `decrypt` of `(key, nonce, aad, body)`. -/
  aesGcmDecrypt : ByteBlock 32 → ByteBlock 12 → Bytes → Bytes → Option Bytes

/-- The longest message and the longest AAD that `aes-gcm` encrypts. -/
def aesGcmMax : Nat := 2 ^ 36

/-- The longest output of HKDF-SHA256. -/
def hkdfMax : Nat := 255 * 32

namespace Primitives

variable (P : Primitives) {ε : Type}

/-! ## Calls with a precondition -/

/-- `Hkdf::<Sha256>::new(Some(salt), ikm).expand(info, okm).expect(..)`. -/
def hkdfExpand (salt ikm info : Bytes) (len : Nat) : Outcome ε (ByteBlock len) :=
  if len ≤ hkdfMax then .ok (P.hkdfSha256 salt ikm info len) else .panic

/-- `Aes256Gcm::new(Key::from_slice(key)).encrypt(Nonce::from_slice(nonce), ..)`. -/
def aes256GcmEncrypt (key nonce aad msg : Bytes) : Outcome ε (Option Bytes) := do
  let key ← fromSlice 32 key
  let nonce ← fromSlice 12 nonce
  pure (P.aesGcmEncrypt key nonce aad msg)

/-- `Aes256Gcm::new(Key::from_slice(key)).decrypt(Nonce::from_slice(nonce), ..)`. -/
def aes256GcmDecrypt (key nonce aad body : Bytes) : Outcome ε (Option Bytes) := do
  let key ← fromSlice 32 key
  let nonce ← fromSlice 12 nonce
  pure (P.aesGcmDecrypt key nonce aad body)

@[simp] theorem hkdfExpand_32 (salt ikm info : Bytes) :
    (P.hkdfExpand salt ikm info 32 : Outcome ε (ByteBlock 32)) =
      .ok (P.hkdfSha256 salt ikm info 32) := by
  simp [hkdfExpand, hkdfMax]

@[simp] theorem aes256GcmEncrypt_toList (key : ByteBlock 32) (nonce : ByteBlock 12)
    (aad msg : Bytes) :
    (P.aes256GcmEncrypt key.toList nonce.toList aad msg : Outcome ε (Option Bytes)) =
      .ok (P.aesGcmEncrypt key nonce aad msg) := by
  simp [aes256GcmEncrypt]

@[simp] theorem aes256GcmDecrypt_toList (key : ByteBlock 32) (nonce : ByteBlock 12)
    (aad body : Bytes) :
    (P.aes256GcmDecrypt key.toList nonce.toList aad body : Outcome ε (Option Bytes)) =
      .ok (P.aesGcmDecrypt key nonce aad body) := by
  simp [aes256GcmDecrypt]

/-- Under a key of the right length, decryption panics exactly on a nonce of the
wrong one. -/
theorem aes256GcmDecrypt_cases (key : ByteBlock 32) (nonce aad body : Bytes) :
    (nonce.length = 12 ∧ ∃ opened,
        (P.aes256GcmDecrypt key.toList nonce aad body : Outcome ε _) = .ok opened) ∨
      (nonce.length ≠ 12 ∧
        (P.aes256GcmDecrypt key.toList nonce aad body : Outcome ε _) = .panic) := by
  unfold aes256GcmDecrypt
  rw [fromSlice_toList, Outcome.ok_bind]
  by_cases hnonce : nonce.length = 12
  · left
    rw [fromSlice_of_length hnonce]
    exact ⟨hnonce, _, rfl⟩
  · right
    rw [fromSlice_of_length_ne hnonce]
    exact ⟨hnonce, rfl⟩

/-! ## Documented behaviour -/

/-- What the KEM combiner relies on. -/
structure KemLaws : Prop where
  /-- Both ends of an X25519 exchange compute the same secret. -/
  dh_comm : ∀ a b, P.diffieHellman a (P.x25519Public b) = P.diffieHellman b (P.x25519Public a)
  /-- ML-KEM decapsulates its own encapsulations. -/
  decapsulate_encapsulate : ∀ seed coins ct shared,
    P.mlkemEncapsulate (P.mlkemGenerate seed).2 coins = some (ct, shared) →
      P.mlkemDecapsulate (P.mlkemGenerate seed).1 ct = some shared

/-- What every sealed body relies on. -/
structure AeadLaws : Prop where
  /-- Decryption under the sealing key, nonce and AAD returns the message. -/
  decrypt_encrypt : ∀ key nonce aad msg body,
    P.aesGcmEncrypt key nonce aad msg = some body →
      P.aesGcmDecrypt key nonce aad body = some msg
  /-- The body is the message and a 16-byte tag. -/
  length_encrypt : ∀ key nonce aad msg body,
    P.aesGcmEncrypt key nonce aad msg = some body → body.length = msg.length + 16
  /-- Messages within the limits of AES-GCM are encrypted. -/
  encrypt_isSome : ∀ key nonce aad msg, aad.length ≤ aesGcmMax → msg.length ≤ aesGcmMax →
    (P.aesGcmEncrypt key nonce aad msg).isSome

/-- An idealised sealed body: it decrypts under no other key, nonce or AAD. -/
def OpensOnlyUnder (key : ByteBlock 32) (nonce : ByteBlock 12) (aad body : Bytes) : Prop :=
  ∀ key' nonce' aad' msg, P.aesGcmDecrypt key' nonce' aad' body = some msg →
    key' = key ∧ nonce' = nonce ∧ aad' = aad

/-- The body of a message opens only where it was sealed. -/
def IdealBody (msg body : Bytes) : Prop :=
  ∀ key nonce aad, P.aesGcmEncrypt key nonce aad msg = some body →
    P.OpensOnlyUnder key nonce aad body

/-! ## A transparent instance -/

/-- A byte string cut or zero-padded to `n` bytes. -/
def resize (n : Nat) (bs : Bytes) : ByteBlock n :=
  ⟨(bs ++ List.replicate n 0).take n, by simp⟩

/-- Padding a block and cutting it back recovers the block. -/
theorem resize_resize {n m : Nat} (h : n ≤ m) (b : ByteBlock n) :
    resize n (resize m b.toList).toList = b := by
  apply List.Vector.eq
  have hlen : b.toList.length = n := b.toList_length
  change ((b.toList ++ List.replicate m 0).take m ++ List.replicate n 0).take n = b.toList
  rw [List.take_append_of_le_length (by simp; omega), List.take_take, Nat.min_eq_left h,
    List.take_append_of_le_length (by omega), List.take_of_length_le (by omega)]

/-- Primitives without secrecy: keys are public, KEM ciphertexts carry the
shared secret, the KDF cuts its input, and the AEAD appends the given tag to
the message.  They have the lengths of the real primitives and obey the laws. -/
def tagged (tag : ByteBlock 32 → ByteBlock 12 → Bytes → ByteBlock 16) : Primitives where
  x25519Public seed := seed
  diffieHellman a b := List.Vector.map₂ (· + ·) a b
  mlkemGenerate seed := (resize 2400 seed.toList, resize 1184 seed.toList)
  mlkemEncapsulate _ coins := some (resize 1088 coins.toList, coins)
  mlkemDecapsulate _ ct := some (resize 32 ct.toList)
  hkdfSha256 _ ikm _ len := resize len ikm
  aesGcmEncrypt key nonce aad msg :=
    if aad.length ≤ aesGcmMax ∧ msg.length ≤ aesGcmMax then
      some (msg ++ (tag key nonce aad).toList)
    else none
  aesGcmDecrypt key nonce aad body :=
    if (tag key nonce aad).toList <:+ body then some (body.take (body.length - 16)) else none

/-- The tagged primitives whose tag is the front half of the key. -/
def transparent : Primitives := tagged fun key _ _ => resize 16 key.toList

variable (tag : ByteBlock 32 → ByteBlock 12 → Bytes → ByteBlock 16)

theorem tagged_kemLaws : (tagged tag).KemLaws where
  dh_comm a b := by
    apply List.Vector.ext
    intro i
    simp only [tagged, List.Vector.get_map₂, UInt8.add_comm]
  decapsulate_encapsulate seed coins ct shared h := by
    simp only [tagged, Option.some.injEq, Prod.mk.injEq] at h ⊢
    obtain ⟨rfl, rfl⟩ := h
    exact resize_resize (by decide) coins

theorem tagged_aeadLaws : (tagged tag).AeadLaws where
  decrypt_encrypt key nonce aad msg body h := by
    simp only [tagged] at h ⊢
    split at h
    · cases h
      simp
    · cases h
  length_encrypt key nonce aad msg body h := by
    simp only [tagged] at h
    split at h
    · cases h
      simp
    · cases h
  encrypt_isSome key nonce aad msg haad hmsg := by
    simp [tagged, haad, hmsg]

/-! ## An instance that tells one sealing from all others -/

/-- A tag that differs at one key, nonce and AAD. -/
def onlyTag (key : ByteBlock 32) (nonce : ByteBlock 12) (aad : Bytes)
    (key' : ByteBlock 32) (nonce' : ByteBlock 12) (aad' : Bytes) : ByteBlock 16 :=
  if key' = key ∧ nonce' = nonce ∧ aad' = aad then List.Vector.replicate 16 1
  else List.Vector.replicate 16 0

variable {key : ByteBlock 32} {nonce : ByteBlock 12} {aad : Bytes}

/-- A body that ends in the tag of the one sealing opens nowhere else. -/
theorem onlyTag_opensOnlyUnder {body : Bytes} (h : List.replicate 16 1 <:+ body) :
    (tagged (onlyTag key nonce aad)).OpensOnlyUnder key nonce aad body := by
  intro key' nonce' aad' msg hdecrypt
  by_contra hother
  have htag : (onlyTag key nonce aad key' nonce' aad').toList = List.replicate 16 0 := by
    rw [onlyTag, if_neg hother]
    rfl
  simp only [tagged, htag] at hdecrypt
  split at hdecrypt
  · rename_i hsuffix
    have hsame := List.suffix_or_suffix_of_suffix h hsuffix
    revert hsame
    decide
  · cases hdecrypt

/-- Such a body is ideal for any message. -/
theorem onlyTag_idealBody (msg : Bytes) {body : Bytes} (h : List.replicate 16 1 <:+ body) :
    (tagged (onlyTag key nonce aad)).IdealBody msg body := by
  intro key' nonce' aad' hencrypt
  have hdecrypt := (tagged_aeadLaws _).decrypt_encrypt _ _ _ _ _ hencrypt
  rcases onlyTag_opensOnlyUnder h _ _ _ _ hdecrypt with ⟨rfl, rfl, rfl⟩
  exact onlyTag_opensOnlyUnder h

end Primitives

end SkPqc
