import SkPqc.Ratchet
import SkPqc.GroupRatchet

/-!
# Epoch wraps of the two protocols

A DM payload and a group payload have one layout, one KEM, one AEAD and an
empty AAD: only the HKDF label of the wrap key keeps one from being taken for
the other.

Main results:

- Theorem `epoch_wraps_never_cross`: both wraps have 1180 bytes and unwrap to
  the secret in their own protocol, and unwrapping either in the other protocol
  is an `UnwrapFailed`.
-/

namespace SkPqc
namespace EpochWraps

open Rust Kem Ratchet GroupRatchet

section Wraps

variable {P : Primitives} {keys : KeypairDraws} {secret : ByteBlock 32} {encap : EncapDraws}
  {nonce : ByteBlock 12} {info payload : Bytes}

/-- The wrap key under an HKDF label. -/
def labelledKey (P : Primitives) (info : Bytes) (shared : ByteBlock sharedSecretLen) :
    ByteBlock 32 :=
  P.hkdfSha256 [] shared.toList info 32

/-- The payload of a wrap under a label. -/
def WrappedUnder (P : Primitives) (keys : KeypairDraws) (secret : ByteBlock 32)
    (encap : EncapDraws) (nonce : ByteBlock 12) (info payload : Bytes) : Prop :=
  ∃ ciphertext shared wrapped,
    hybridEncap P (hybridKeypair P keys).publicKey encap = .ok (ciphertext, shared) ∧
    P.aesGcmEncrypt (labelledKey P info shared) nonce [] secret.toList = some wrapped ∧
    payload = ciphertext ++ nonce.toList ++ wrapped

/-- The KDF and the AEAD are ideal towards the wrap under a label: no other KDF
input leads to its key, and its body opens under that key only. -/
def IdealWrap (P : Primitives) (keys : KeypairDraws) (secret : ByteBlock 32)
    (encap : EncapDraws) (nonce : ByteBlock 12) (info : Bytes) : Prop :=
  ∀ ciphertext shared wrapped,
    hybridEncap P (hybridKeypair P keys).publicKey encap = .ok (ciphertext, shared) →
    P.aesGcmEncrypt (labelledKey P info shared) nonce [] secret.toList = some wrapped →
      P.KdfUnique [] shared.toList info ∧
        P.OpensOnlyUnder (labelledKey P info shared) nonce [] wrapped

/-! ## Wrapping -/

/-- There is a wrap under every label. -/
theorem exists_wrappedUnder (total : P.MlkemTotal) (aead : P.AeadLaws) (keys : KeypairDraws)
    (secret : ByteBlock 32) (encap : EncapDraws) (nonce : ByteBlock 12) (info : Bytes) :
    ∃ payload, WrappedUnder P keys secret encap nonce info payload := by
  rcases exists_hybridEncap_eq_ok total keys encap with ⟨ciphertext, shared, hencap⟩
  have hsome := aead.encrypt_isSome (labelledKey P info shared) nonce [] secret.toList
    (Nat.zero_le _) (by simp [aesGcmMax])
  rcases Option.isSome_iff_exists.mp hsome with ⟨wrapped, hwrapped⟩
  exact ⟨_, ciphertext, shared, wrapped, hencap, hwrapped, rfl⟩

theorem length_wrapped (aead : P.AeadLaws) {key : ByteBlock 32} {wrapped : Bytes}
    (h : P.aesGcmEncrypt key nonce [] secret.toList = some wrapped) : wrapped.length = 48 := by
  rw [aead.length_encrypt _ _ _ _ _ h, List.Vector.toList_length]

theorem WrappedUnder.length_eq (aead : P.AeadLaws)
    (h : WrappedUnder P keys secret encap nonce info payload) : payload.length = 1180 := by
  rcases h with ⟨ciphertext, shared, wrapped, hencap, hwrapped, rfl⟩
  have hct := length_of_hybridEncap P hencap
  rw [List.length_append, List.length_append, hct, List.Vector.toList_length,
    length_wrapped aead hwrapped]
  rfl

/-! ## Unwrapping -/

/-- What the owner of the private key decrypts under a label. -/
theorem WrappedUnder.decrypt_eq (aead : P.AeadLaws)
    (hideal : IdealWrap P keys secret encap nonce info)
    {ciphertext wrapped : Bytes} {shared : ByteBlock sharedSecretLen}
    (hencap : hybridEncap P (hybridKeypair P keys).publicKey encap = .ok (ciphertext, shared))
    (hwrapped : P.aesGcmEncrypt (labelledKey P info shared) nonce [] secret.toList = some wrapped)
    (info' : Bytes) :
    P.aesGcmDecrypt (labelledKey P info' shared) nonce [] wrapped =
      if info' = info then some secret.toList else none := by
  split
  · rename_i hsame
    rw [hsame]
    exact aead.decrypt_encrypt _ _ _ _ _ hwrapped
  · rename_i hother
    rcases hideal ciphertext shared wrapped hencap hwrapped with ⟨hkdf, hopens⟩
    cases hopen : P.aesGcmDecrypt (labelledKey P info' shared) nonce [] wrapped with
    | none => rfl
    | some plain =>
        have hkey := (hopens _ _ _ _ hopen).1
        exact absurd (hkdf _ _ _ hkey).2.2 hother

/-- Unwrapping as a DM payload. -/
theorem WrappedUnder.unwrapDm (kem : P.KemLaws) (aead : P.AeadLaws)
    (h : WrappedUnder P keys secret encap nonce info payload)
    (hideal : IdealWrap P keys secret encap nonce info) :
    unwrapDmEpochSecret P payload (hybridKeypair P keys).privateKey =
      if infoDmWrap = info then .ok secret else .err .unwrapFailed := by
  rcases h with ⟨ciphertext, shared, wrapped, hencap, hwrapped, rfl⟩
  have hct := length_of_hybridEncap P hencap
  have hopen := WrappedUnder.decrypt_eq aead hideal hencap hwrapped infoDmWrap
  have hkey : Ratchet.wrapKey P shared = labelledKey P infoDmWrap shared := rfl
  rw [unwrapDmEpochSecret_append P nonce _ hct (length_wrapped aead hwrapped),
    hybridDecap_hybridEncap kem hencap, Outcome.mapErr_ok, Outcome.ok_bind, hkey, hopen]
  split
  · simp
  · rfl

/-- Unwrapping as a group payload. -/
theorem WrappedUnder.unwrapGroup (kem : P.KemLaws) (aead : P.AeadLaws)
    (h : WrappedUnder P keys secret encap nonce info payload)
    (hideal : IdealWrap P keys secret encap nonce info) :
    unwrapEpochSecret P payload (hybridKeypair P keys).privateKey =
      if epochWrapInfo = info then .ok secret else .err .unwrapFailed := by
  rcases h with ⟨ciphertext, shared, wrapped, hencap, hwrapped, rfl⟩
  have hct := length_of_hybridEncap P hencap
  have hopen := WrappedUnder.decrypt_eq aead hideal hencap hwrapped epochWrapInfo
  have hkey : GroupRatchet.wrapKey P shared = labelledKey P epochWrapInfo shared := rfl
  have hpriv : (hybridKeypair P keys).privateKey.length = privateKeyLen := by
    simp [hybridKeypair]
  rw [unwrapEpochSecret_append P nonce hct (length_wrapped aead hwrapped) hpriv,
    hybridDecap_hybridEncap kem hencap, Outcome.mapErr_ok, Outcome.ok_bind, hkey, hopen]
  split
  · simp
  · rfl

/-! ## Both protocols -/

theorem labels_ne : infoDmWrap ≠ epochWrapInfo := by decide

/-- Each wrap has 1180 bytes and unwraps to the secret in its own protocol, and
neither unwraps in the other. -/
theorem epoch_wraps_never_cross (kem : P.KemLaws) (total : P.MlkemTotal) (aead : P.AeadLaws)
    (keys : KeypairDraws) (secret : ByteBlock 32) (dmDraws : Ratchet.WrapDraws)
    (groupDraws : GroupRatchet.WrapDraws)
    (hdm : IdealWrap P keys secret dmDraws.encap dmDraws.nonce infoDmWrap)
    (hgroup : IdealWrap P keys secret groupDraws.encap groupDraws.nonce epochWrapInfo) :
    ∃ dm group,
      wrapDmEpochSecret P secret.toList (hybridKeypair P keys).publicKey dmDraws = .ok dm ∧
      wrapEpochSecret P secret.toList (hybridKeypair P keys).publicKey groupDraws = .ok group ∧
      dm.length = 1180 ∧ group.length = 1180 ∧
      unwrapDmEpochSecret P dm (hybridKeypair P keys).privateKey = .ok secret ∧
      unwrapEpochSecret P group (hybridKeypair P keys).privateKey = .ok secret ∧
      unwrapEpochSecret P dm (hybridKeypair P keys).privateKey = .err .unwrapFailed ∧
      unwrapDmEpochSecret P group (hybridKeypair P keys).privateKey = .err .unwrapFailed := by
  rcases exists_wrappedUnder total aead keys secret dmDraws.encap dmDraws.nonce infoDmWrap with
    ⟨dm, hdmWrap⟩
  rcases exists_wrappedUnder total aead keys secret groupDraws.encap groupDraws.nonce
    epochWrapInfo with ⟨group, hgroupWrap⟩
  refine ⟨dm, group, wrapDmEpochSecret_eq_ok_iff.mpr hdmWrap,
    wrapEpochSecret_eq_ok_iff.mpr hgroupWrap, hdmWrap.length_eq aead, hgroupWrap.length_eq aead,
    ?_, ?_, ?_, ?_⟩
  · rw [hdmWrap.unwrapDm kem aead hdm, if_pos rfl]
  · rw [hgroupWrap.unwrapGroup kem aead hgroup, if_pos rfl]
  · rw [hdmWrap.unwrapGroup kem aead hdm, if_neg labels_ne.symm]
  · rw [hgroupWrap.unwrapDm kem aead hgroup, if_neg labels_ne]

end Wraps

/-! ## A sample wrap of each kind -/

namespace Sample

def nonce : ByteBlock 12 := List.Vector.replicate 12 7

def encap : EncapDraws := ⟨List.Vector.replicate 32 7, List.Vector.replicate 32 7⟩

def keys : KeypairDraws := ⟨List.Vector.replicate 32 7, List.Vector.replicate 64 7⟩

/-- The KDF numbers the two labels, the AEAD the two wrap keys. -/
def primitives : Primitives :=
  Primitives.tabled
    [⟨List.replicate 64 0, List.replicate 32 2, infoDmWrap⟩,
      ⟨List.replicate 64 0, List.replicate 32 2, epochWrapInfo⟩]
    [⟨List.Vector.replicate 32 0, nonce, []⟩, ⟨List.Vector.replicate 32 1, nonce, []⟩]

theorem shared_eq {ciphertext : Bytes} {shared : ByteBlock sharedSecretLen}
    (h : hybridEncap primitives (hybridKeypair primitives keys).publicKey encap =
      .ok (ciphertext, shared)) : shared = List.Vector.replicate 32 2 := by
  have hresult : (hybridEncap primitives (hybridKeypair primitives keys).publicKey encap >>=
      fun pair => Outcome.assert (pair.2 = List.Vector.replicate 32 2)) = .ok () := by
    decide +kernel
  rw [h, Outcome.ok_bind] at hresult
  by_contra hother
  rw [decide_eq_false hother, Outcome.assert_false] at hresult
  cases hresult

/-- The sample primitives are ideal towards both wraps. -/
theorem idealWrap (secret : ByteBlock 32) (info : Bytes)
    (hinfo : ⟨List.replicate 64 0, List.replicate 32 2, info⟩ ∈
      [(⟨List.replicate 64 0, List.replicate 32 2, infoDmWrap⟩ : Primitives.KdfInput),
        ⟨List.replicate 64 0, List.replicate 32 2, epochWrapInfo⟩])
    (hkey : labelledKey primitives info (List.Vector.replicate 32 2) =
        List.Vector.replicate 32 0 ∨
      labelledKey primitives info (List.Vector.replicate 32 2) = List.Vector.replicate 32 1) :
    IdealWrap primitives keys secret encap nonce info := by
  intro ciphertext shared wrapped hencap hwrapped
  rw [shared_eq hencap] at hwrapped ⊢
  refine ⟨Primitives.tabled_kdfUnique (by decide) hinfo, ?_⟩
  refine Primitives.tabled_opensOnlyUnder (by decide) ?_ hwrapped
  rcases hkey with hkey | hkey
  · rw [hkey]
    exact List.mem_cons_self
  · rw [hkey]
    exact List.mem_cons_of_mem _ List.mem_cons_self

end Sample

/-- The wraps of a sample secret in both protocols. -/
theorem epoch_wraps_never_cross_sample :
    let sk := (hybridKeypair Sample.primitives Sample.keys).privateKey
    ∃ dm group,
      unwrapDmEpochSecret Sample.primitives dm sk = .ok (List.Vector.replicate 32 9) ∧
      unwrapEpochSecret Sample.primitives group sk = .ok (List.Vector.replicate 32 9) ∧
      unwrapEpochSecret Sample.primitives dm sk = .err .unwrapFailed ∧
      unwrapDmEpochSecret Sample.primitives group sk = .err .unwrapFailed := by
  have hdm := Sample.idealWrap (List.Vector.replicate 32 9) infoDmWrap List.mem_cons_self
    (.inl (by decide +kernel))
  have hgroup := Sample.idealWrap (List.Vector.replicate 32 9) epochWrapInfo
    (List.mem_cons_of_mem _ List.mem_cons_self) (.inr (by decide +kernel))
  rcases epoch_wraps_never_cross Primitives.tabled_kemLaws Primitives.tabled_mlkemTotal
    Primitives.tabled_aeadLaws Sample.keys (List.Vector.replicate 32 9)
    ⟨Sample.encap, Sample.nonce⟩ ⟨Sample.encap, Sample.nonce⟩ hdm hgroup with
    ⟨dm, group, -, -, -, -, hunwraps⟩
  exact ⟨dm, group, hunwraps⟩

end EpochWraps
end SkPqc
