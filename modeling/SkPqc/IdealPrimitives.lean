import SkPqc.Primitives

/-!
# Idealised primitives

Security arguments take the primitives as ideal.  A KDF with 32-byte outputs
cannot be injective, and neither can a decapsulation, so each idealisation is a
statement about one value in use: no other input leads to it.

The salt of HKDF is an HMAC key, which HMAC pads with zeros to its block size;
two salts are told apart only after the padding.

Main results:

- Theorems `tabled_kemLaws`, `tabled_aeadLaws`, `tabled_mlkemTotal`,
  `tabled_x25519Laws` and `tabled_aeadExact`: one instance obeys all the laws.
- Theorems `tabled_kdfUnique`, `tabled_encapsulationUnique`,
  `tabled_opensOnlyLogged` and `tabled_opensOnlyUnder`: it is ideal at the values
  of its two tables.
-/

namespace SkPqc
namespace Primitives

open Rust

/-! ## Laws -/

variable (P : Primitives)

/-- ML-KEM accepts everything of the right length: a ciphertext it does not
recognise is rejected implicitly. -/
structure MlkemTotal : Prop where
  encapsulate_isSome : ∀ ek coins, (P.mlkemEncapsulate ek coins).isSome
  decapsulate_isSome : ∀ dk ct, (P.mlkemDecapsulate dk ct).isSome

/-- A public value without its top bit. -/
def maskTop (u : ByteBlock 32) : ByteBlock 32 := u.set 31 (u.get 31 &&& 0x7f)

/-- X25519 ignores the top bit of a public value. -/
structure X25519Laws : Prop where
  diffieHellman_maskTop : ∀ seed u, P.diffieHellman seed (maskTop u) = P.diffieHellman seed u

/-- An HMAC key as HMAC uses it: zero-padded to the block of SHA-256. -/
def hmacPad (key : Bytes) : Bytes := key ++ List.replicate (64 - key.length) 0

/-- No other input of the KDF leads to the output of this one. -/
def KdfUnique (salt ikm info : Bytes) : Prop :=
  ∀ salt' ikm' info', P.hkdfSha256 salt' ikm' info' 32 = P.hkdfSha256 salt ikm info 32 →
    hmacPad salt' = hmacPad salt ∧ ikm' = ikm ∧ info' = info

/-- No other ciphertext decapsulates to the secret of this one. -/
def EncapsulationUnique (dk : ByteBlock 2400) (ct : ByteBlock 1088) : Prop :=
  ∀ ct', P.mlkemDecapsulate dk ct' = P.mlkemDecapsulate dk ct → ct' = ct

/-- AES-GCM is deterministic: under one key, nonce and AAD a message comes from one
body, also where `decrypt` accepts more than `encrypt` would seal. -/
structure AeadExact : Prop where
  /-- What opens is a message and a 16-byte tag. -/
  length_decrypt : ∀ key nonce aad body msg,
    P.aesGcmDecrypt key nonce aad body = some msg → body.length = msg.length + 16
  /-- No other body opens to the same message. -/
  decrypt_injective : ∀ key nonce aad body body' msg,
    P.aesGcmDecrypt key nonce aad body = some msg →
      P.aesGcmDecrypt key nonce aad body' = some msg → body' = body

/-! ## The log of an AEAD -/

/-- The key, the nonce and the AAD of one sealing. -/
structure Sealing where
  key : ByteBlock 32
  nonce : ByteBlock 12
  aad : Bytes
deriving DecidableEq

/-- A sealing and the body that came out of it. -/
structure SealRecord extends Sealing where
  body : Bytes
deriving DecidableEq

/-- The record of a message that was sealed. -/
def SealRecord.Of (e : SealRecord) (msg : Bytes) : Prop :=
  P.aesGcmEncrypt e.key e.nonce e.aad msg = some e.body

/-- An AEAD with this log of sealings, handed `body`: it opens what was sealed,
where it was sealed, and nothing else. -/
def OpensOnlyLogged (log : List SealRecord) (body : Bytes) : Prop :=
  ∀ key nonce aad msg, P.aesGcmDecrypt key nonce aad body = some msg →
    ⟨⟨key, nonce, aad⟩, body⟩ ∈ log

variable {P}

/-- Towards the body of its only record this is `OpensOnlyUnder`. -/
theorem opensOnlyLogged_self_iff {e : SealRecord} :
    P.OpensOnlyLogged [e] e.body ↔ P.OpensOnlyUnder e.key e.nonce e.aad e.body := by
  constructor
  · intro h key' nonce' aad' msg hopen
    have hrecord := List.mem_singleton.mp (h key' nonce' aad' msg hopen)
    rw [← hrecord]
    exact ⟨rfl, rfl, rfl⟩
  · intro h key' nonce' aad' msg hopen
    rcases h key' nonce' aad' msg hopen with ⟨rfl, rfl, rfl⟩
    exact List.mem_singleton.mpr rfl

/-! ## An instance with a table of KDF inputs -/

/-- The input of one HKDF call. -/
structure KdfInput where
  salt : Bytes
  ikm : Bytes
  info : Bytes
deriving DecidableEq

/-- A tag that numbers the sealings of a list, and one more for all others. -/
def numberedTag (seals : List Sealing) (key : ByteBlock 32) (nonce : ByteBlock 12)
    (aad : Bytes) : ByteBlock 16 :=
  List.Vector.replicate 16 (UInt8.ofNat (seals.idxOf ⟨key, nonce, aad⟩))

/-- The tagged primitives with a masked X25519, an ML-KEM that recognises its
own ciphertexts, a KDF whose outputs number the inputs of a table, and an AEAD
whose tags number the sealings of a list. -/
def tabled (table : List KdfInput) (seals : List Sealing) : Primitives :=
  { tagged (numberedTag seals) with
    diffieHellman := fun a u => List.Vector.map₂ (· + ·) (maskTop a) (maskTop u)
    mlkemDecapsulate := fun _ ct =>
      if ct = resize 1088 (resize 32 ct.toList).toList then some (resize 32 ct.toList)
      else some (List.Vector.replicate 32 0)
    hkdfSha256 := fun salt ikm info len =>
      List.Vector.replicate len (UInt8.ofNat (table.idxOf ⟨hmacPad salt, ikm, info⟩))
    aesGcmDecrypt := fun key nonce aad body =>
      if aad.length ≤ aesGcmMax ∧ body.length ≤ aesGcmMax + 16 then
        (tagged (numberedTag seals)).aesGcmDecrypt key nonce aad body
      else none }

variable {table : List KdfInput} {seals : List Sealing}

theorem maskTop_maskTop (u : ByteBlock 32) : maskTop (maskTop u) = maskTop u := by
  apply List.Vector.ext
  intro i
  by_cases hi : i = 31
  · subst hi
    simp [maskTop, UInt8.and_assoc]
  · simp [maskTop, List.Vector.get_set_of_ne, Ne.symm hi]

theorem tabled_x25519Laws : (tabled table seals).X25519Laws where
  diffieHellman_maskTop seed u := by
    simp only [tabled, maskTop_maskTop]

theorem tabled_kemLaws : (tabled table seals).KemLaws where
  dh_comm a b := by
    apply List.Vector.ext
    intro i
    simp only [tabled, tagged, List.Vector.get_map₂, UInt8.add_comm]
  decapsulate_encapsulate seed coins ct shared h := by
    simp only [tabled, tagged, Option.some.injEq, Prod.mk.injEq] at h ⊢
    obtain ⟨rfl, rfl⟩ := h
    have hown : resize 32 (resize 1088 coins.toList).toList = coins :=
      resize_resize (by decide) coins
    rw [hown, if_pos rfl]

theorem tabled_mlkemTotal : (tabled table seals).MlkemTotal where
  encapsulate_isSome ek coins := rfl
  decapsulate_isSome dk ct := by
    simp only [tabled]
    split <;> rfl

/-- What opens was accepted by the tagged primitives. -/
theorem decrypt_of_tabled {key : ByteBlock 32} {nonce : ByteBlock 12} {aad body msg : Bytes}
    (h : (tabled table seals).aesGcmDecrypt key nonce aad body = some msg) :
    (aad.length ≤ aesGcmMax ∧ body.length ≤ aesGcmMax + 16) ∧
      (tagged (numberedTag seals)).aesGcmDecrypt key nonce aad body = some msg := by
  simp only [tabled] at h
  split at h
  · rename_i hsize
    exact ⟨hsize, h⟩
  · cases h

theorem tabled_aeadLaws : (tabled table seals).AeadLaws where
  decrypt_encrypt key nonce aad msg body h := by
    have hlen := (tagged_aeadLaws (numberedTag seals)).length_encrypt key nonce aad msg body h
    have hopen := (tagged_aeadLaws (numberedTag seals)).decrypt_encrypt key nonce aad msg body h
    have hsize : aad.length ≤ aesGcmMax ∧ msg.length ≤ aesGcmMax := by
      by_contra hlarge
      simp [tabled, tagged, hlarge] at h
    simp only [tabled]
    rw [if_pos ⟨hsize.1, by omega⟩, hopen]
  length_encrypt := (tagged_aeadLaws (numberedTag seals)).length_encrypt
  encrypt_isSome := (tagged_aeadLaws (numberedTag seals)).encrypt_isSome

/-- A ciphertext of nonzero coins is the only one of its secret. -/
theorem tabled_encapsulationUnique (dk : ByteBlock 2400) {coins : ByteBlock 32}
    (hcoins : coins ≠ List.Vector.replicate 32 0) :
    (tabled table seals).EncapsulationUnique dk (resize 1088 coins.toList) := by
  intro ct' h
  have hown : resize 32 (resize 1088 coins.toList).toList = coins :=
    resize_resize (by decide) coins
  simp only [tabled, hown, if_true] at h
  split at h
  · rename_i hct
    rw [hct, Option.some.inj h]
  · exact absurd (Option.some.inj h).symm hcoins

/-- Different numbers of the list are different bytes. -/
theorem eq_of_ofNat_idxOf_eq {α : Type} [DecidableEq α] {l : List α} (hsize : l.length < 256)
    {a b : α} (ha : a ∈ l) (h : UInt8.ofNat (l.idxOf b) = UInt8.ofNat (l.idxOf a)) : b = a := by
  have hle := List.idxOf_le_length (l := l) (a := b)
  have hlt := List.idxOf_lt_length_of_mem ha
  have hnum := congrArg UInt8.toNat h
  rw [UInt8.toNat_ofNat', UInt8.toNat_ofNat', Nat.mod_eq_of_lt (by omega),
    Nat.mod_eq_of_lt (by omega)] at hnum
  exact ((List.idxOf_inj ha).mp hnum.symm).symm

/-- The inputs of the table have unique outputs. -/
theorem tabled_kdfUnique (hsize : table.length < 256) {salt ikm info : Bytes}
    (hmem : ⟨hmacPad salt, ikm, info⟩ ∈ table) :
    (tabled table seals).KdfUnique salt ikm info := by
  intro salt' ikm' info' h
  have hbyte := congrArg (fun v : ByteBlock 32 => v.get 0) h
  simp only [tabled, List.Vector.get_replicate] at hbyte
  have hsame := eq_of_ofNat_idxOf_eq hsize hmem hbyte
  simp only [KdfInput.mk.injEq] at hsame
  exact hsame

/-- What opens is the message and its tag. -/
theorem body_of_tabled {key : ByteBlock 32} {nonce : ByteBlock 12} {aad body msg : Bytes}
    (h : (tabled table seals).aesGcmDecrypt key nonce aad body = some msg) :
    body = msg ++ (numberedTag seals key nonce aad).toList := by
  have hopen := (decrypt_of_tabled h).2
  simp only [tagged] at hopen
  split at hopen
  · rename_i hsuffix
    rcases hsuffix with ⟨front, hfront⟩
    have hmsg : msg = front := by
      rw [← Option.some.inj hopen, ← hfront]
      simp
    rw [hmsg, hfront]
  · cases hopen

theorem tabled_aeadExact : (tabled table seals).AeadExact where
  length_decrypt key nonce aad body msg h := by
    rw [body_of_tabled h, List.length_append, List.Vector.toList_length]
  decrypt_injective key nonce aad body body' msg h h' := by
    rw [body_of_tabled h, body_of_tabled h']

/-! ## Sealed bodies -/

variable {key : ByteBlock 32} {nonce : ByteBlock 12} {aad body : Bytes}

/-- A body that ends in the tag of a listed sealing opens as that sealing only. -/
theorem tabled_opensOnlyLogged (hsize : seals.length < 256) {log : List SealRecord}
    {e : SealRecord} (hmem : e.toSealing ∈ seals) (hlog : e ∈ log)
    (h : (numberedTag seals e.key e.nonce e.aad).toList <:+ e.body) :
    (tabled table seals).OpensOnlyLogged log e.body := by
  intro key' nonce' aad' msg hopen
  have hsuffix : (numberedTag seals key' nonce' aad').toList <:+ e.body := by
    rw [body_of_tabled hopen]
    exact List.suffix_append _ _
  have htags : (numberedTag seals key' nonce' aad').toList =
      (numberedTag seals e.key e.nonce e.aad).toList := by
    rcases List.suffix_or_suffix_of_suffix hsuffix h with hle | hle
    · exact hle.eq_of_length (by simp)
    · exact (hle.eq_of_length (by simp)).symm
  have hbyte := congrArg (fun v : ByteBlock 16 => v.get 0) (List.Vector.toList_injective htags)
  simp only [numberedTag, List.Vector.get_replicate] at hbyte
  have hsame := eq_of_ofNat_idxOf_eq hsize hmem hbyte
  rw [hsame]
  exact hlog

/-- So the body of a listed sealing opens under its key, nonce and AAD only. -/
theorem tabled_opensOnlyUnder (hsize : seals.length < 256) (hmem : ⟨key, nonce, aad⟩ ∈ seals)
    {msg : Bytes} (h : (tabled table seals).aesGcmEncrypt key nonce aad msg = some body) :
    (tabled table seals).OpensOnlyUnder key nonce aad body := by
  have hsuffix : (numberedTag seals key nonce aad).toList <:+ body := by
    simp only [tabled, tagged] at h
    split at h
    · cases h
      exact List.suffix_append _ _
    · cases h
  exact opensOnlyLogged_self_iff.mp
    (tabled_opensOnlyLogged (e := ⟨⟨key, nonce, aad⟩, body⟩) hsize hmem List.mem_cons_self hsuffix)

/-- A body that ends in no tag at all opens nowhere, whatever the log. -/
theorem tabled_opensOnlyLogged_of_untagged {body' : Bytes}
    (h : ∀ i ∈ List.range (seals.length + 1), ¬ List.replicate 16 (UInt8.ofNat i) <:+ body')
    (log : List SealRecord) : (tabled table seals).OpensOnlyLogged log body' := by
  intro key' nonce' aad' msg hopen
  have hle := List.idxOf_le_length (l := seals) (a := ⟨key', nonce', aad'⟩)
  refine absurd ?_ (h _ (List.mem_range.mpr (Nat.lt_succ_of_le hle)))
  rw [body_of_tabled hopen]
  exact List.suffix_append _ _

end Primitives
end SkPqc
