import SkPqc.EpochWraps

/-!
# An epoch secret takes both legs

The wrap key of an epoch secret is derived from the shared secret of the hybrid
KEM, which is derived from the secrets of its two legs.  With an ideal KDF and an
ideal AEAD towards one wrap, nobody opens its body without both of them: whatever
private key is used, and whatever ciphertext and nonce stand before the body, the
unwrap returns the epoch secret exactly if the X25519 leg and the ML-KEM leg both
lead to the secrets of the wrap, and is an `UnwrapFailed` otherwise.

Main results:

- Theorem `decrypt_wrapped_eq`: which legs and which nonce decrypt the body.
- Theorem `both_legs_needed`: the exact condition, in both protocols.
-/

namespace SkPqc
namespace EpochWraps

open Rust Kem Ratchet GroupRatchet

/-! ## The parts of a wrap -/

/-- What a wrap has computed: the secrets of the two legs, the KEM ciphertext and
the sealed body. -/
structure WrapParts (P : Primitives) (keys : KeypairDraws) (secret : ByteBlock 32)
    (encap : EncapDraws) (nonce : ByteBlock 12) (info payload : Bytes)
    (xSs mlkemSs : ByteBlock 32) (ct : ByteBlock 1088) (wrapped : Bytes) : Prop where
  exchanged : P.diffieHellman encap.xEph (P.x25519Public keys.xSeed) = xSs
  encapsulated : P.mlkemEncapsulate (P.mlkemGenerate keys.mlkemSeed).2 encap.coins =
    some (ct, mlkemSs)
  sealed : P.aesGcmEncrypt (labelledKey P info (sharedSecret P xSs mlkemSs)) nonce []
    secret.toList = some wrapped
  layout : payload = (P.x25519Public encap.xEph).toList ++ ct.toList ++ nonce.toList ++ wrapped

/-- The KDF and the AEAD are ideal towards the wrap: no other input leads to the
shared secret or to the wrap key, and the body opens under that key only. -/
structure IdealLegs (P : Primitives) (nonce : ByteBlock 12) (info : Bytes)
    (xSs mlkemSs : ByteBlock 32) (wrapped : Bytes) : Prop where
  combiner : P.KdfUnique [] (xSs.toList ++ mlkemSs.toList) hkdfInfo
  wrap : P.KdfUnique [] (sharedSecret P xSs mlkemSs).toList info
  body : P.OpensOnlyUnder (labelledKey P info (sharedSecret P xSs mlkemSs)) nonce [] wrapped

section Parts

variable {P : Primitives} {keys : KeypairDraws} {secret : ByteBlock 32} {encap : EncapDraws}
  {nonce : ByteBlock 12} {info payload : Bytes} {xSs mlkemSs : ByteBlock 32}
  {ct : ByteBlock 1088} {wrapped : Bytes}

/-- A wrap has all its parts. -/
theorem WrappedUnder.exists_parts (h : WrappedUnder P keys secret encap nonce info payload) :
    ∃ xSs mlkemSs ct wrapped,
      WrapParts P keys secret encap nonce info payload xSs mlkemSs ct wrapped := by
  rcases h with ⟨ciphertext, shared, wrapped, hencap, hwrapped, rfl⟩
  rcases exists_parts_of_hybridEncap hencap with ⟨ct, mlkemSs, hct, rfl, rfl⟩
  exact ⟨_, mlkemSs, ct, wrapped, rfl, hct, hwrapped, rfl⟩

theorem WrapParts.length_wrapped (aead : P.AeadLaws)
    (h : WrapParts P keys secret encap nonce info payload xSs mlkemSs ct wrapped) :
    wrapped.length = 48 :=
  EpochWraps.length_wrapped aead h.sealed

/-- Both leg secrets and the nonce of the wrap decrypt its body, and nothing else
does. -/
theorem decrypt_wrapped_eq (aead : P.AeadLaws)
    (h : WrapParts P keys secret encap nonce info payload xSs mlkemSs ct wrapped)
    (hideal : IdealLegs P nonce info xSs mlkemSs wrapped) (xSs' mlkemSs' : ByteBlock 32)
    (nonce' : ByteBlock 12) :
    P.aesGcmDecrypt (labelledKey P info (sharedSecret P xSs' mlkemSs')) nonce' [] wrapped =
      if xSs' = xSs ∧ mlkemSs' = mlkemSs ∧ nonce' = nonce then some secret.toList else none := by
  split
  · rename_i hsame
    rcases hsame with ⟨rfl, rfl, rfl⟩
    exact aead.decrypt_encrypt _ _ _ _ _ h.sealed
  · rename_i hother
    cases hopen : P.aesGcmDecrypt (labelledKey P info (sharedSecret P xSs' mlkemSs')) nonce' []
        wrapped with
    | none => rfl
    | some plain =>
        -- From the body inwards: the wrap key, the shared secret, the two secrets.
        rcases hideal.body _ _ _ _ hopen with ⟨hkey, hnonce, -⟩
        rcases hideal.wrap _ _ _ hkey with ⟨-, hshared, -⟩
        rcases hideal.combiner _ _ _ (List.Vector.toList_injective hshared) with ⟨-, hikm, -⟩
        rcases List.append_inj hikm (by simp) with ⟨hx, hmlkem⟩
        exact absurd ⟨List.Vector.toList_injective hx, List.Vector.toList_injective hmlkem,
          hnonce⟩ hother

end Parts

/-! ## Unwrapping with any key -/

/-- The private key `xSeed ‖ dk` reaches the secrets of both legs. -/
def ReachesBoth (P : Primitives) (xSs mlkemSs : ByteBlock 32) (xEphPub : ByteBlock 32)
    (ct : ByteBlock 1088) (xSeed : ByteBlock 32) (dk : ByteBlock 2400) : Prop :=
  P.diffieHellman xSeed xEphPub = xSs ∧ P.mlkemDecapsulate dk ct = some mlkemSs

instance (P : Primitives) (xSs mlkemSs xEphPub : ByteBlock 32) (ct : ByteBlock 1088)
    (xSeed : ByteBlock 32) (dk : ByteBlock 2400) :
    Decidable (ReachesBoth P xSs mlkemSs xEphPub ct xSeed dk) :=
  inferInstanceAs (Decidable (_ ∧ _))

/-- The primitives are ideal towards the wrap, whatever its parts are. -/
def IdealTowards (P : Primitives) (keys : KeypairDraws) (secret : ByteBlock 32)
    (encap : EncapDraws) (nonce : ByteBlock 12) (info payload : Bytes) : Prop :=
  ∀ xSs mlkemSs ct wrapped,
    WrapParts P keys secret encap nonce info payload xSs mlkemSs ct wrapped →
      IdealLegs P nonce info xSs mlkemSs wrapped

section Unwraps

variable {P : Primitives} {keys : KeypairDraws} {secret : ByteBlock 32} {encap : EncapDraws}
  {nonce : ByteBlock 12} {info payload : Bytes} {xSs mlkemSs : ByteBlock 32}
  {ct : ByteBlock 1088} {wrapped : Bytes}

/-- The legs that a private key reaches from a ciphertext decide what it decrypts. -/
theorem WrapParts.decrypt_eq (aead : P.AeadLaws)
    (h : WrapParts P keys secret encap nonce info payload xSs mlkemSs ct wrapped)
    (hideal : IdealLegs P nonce info xSs mlkemSs wrapped) {xEphPub : ByteBlock 32}
    {ct' : ByteBlock 1088} {xSeed mlkemSs' : ByteBlock 32} {dk : ByteBlock 2400}
    (hss : P.mlkemDecapsulate dk ct' = some mlkemSs') (nonce' : ByteBlock 12) :
    P.aesGcmDecrypt (labelledKey P info (sharedSecret P (P.diffieHellman xSeed xEphPub) mlkemSs'))
        nonce' [] wrapped =
      if ReachesBoth P xSs mlkemSs xEphPub ct' xSeed dk ∧ nonce' = nonce then some secret.toList
      else none := by
  have hreaches : (ReachesBoth P xSs mlkemSs xEphPub ct' xSeed dk ∧ nonce' = nonce) ↔
      P.diffieHellman xSeed xEphPub = xSs ∧ mlkemSs' = mlkemSs ∧ nonce' = nonce := by
    rw [ReachesBoth, hss, Option.some.injEq, and_assoc]
  rw [decrypt_wrapped_eq aead h hideal]
  exact if_congr hreaches.symm rfl rfl

/-- Unwrapping the body of a DM wrap, behind any ciphertext and nonce and with any
private key. -/
theorem WrapParts.unwrapDm_eq (total : P.MlkemTotal) (aead : P.AeadLaws)
    (h : WrapParts P keys secret encap nonce infoDmWrap payload xSs mlkemSs ct wrapped)
    (hideal : IdealLegs P nonce infoDmWrap xSs mlkemSs wrapped) (xEphPub : ByteBlock 32)
    (ct' : ByteBlock 1088) (nonce' : ByteBlock 12) (xSeed : ByteBlock 32) (dk : ByteBlock 2400) :
    unwrapDmEpochSecret P (xEphPub.toList ++ ct'.toList ++ nonce'.toList ++ wrapped)
        (xSeed.toList ++ dk.toList) =
      if ReachesBoth P xSs mlkemSs xEphPub ct' xSeed dk ∧ nonce' = nonce then .ok secret
      else .err .unwrapFailed := by
  rcases Option.isSome_iff_exists.mp (total.decapsulate_isSome dk ct') with ⟨mlkemSs', hss⟩
  have hlen : (xEphPub.toList ++ ct'.toList).length = ciphertextLen :=
    length_append_blocks xEphPub ct'
  have hkey : ∀ shared, Ratchet.wrapKey P shared = labelledKey P infoDmWrap shared :=
    fun _ => rfl
  rw [unwrapDmEpochSecret_append P nonce' _ hlen (h.length_wrapped aead), hybridDecap_append, hss,
    Outcome.mapErr_ok, Outcome.ok_bind, hkey, h.decrypt_eq aead hideal hss]
  split
  · simp
  · rfl

/-- The same for a group wrap. -/
theorem WrapParts.unwrapGroup_eq (total : P.MlkemTotal) (aead : P.AeadLaws)
    (h : WrapParts P keys secret encap nonce epochWrapInfo payload xSs mlkemSs ct wrapped)
    (hideal : IdealLegs P nonce epochWrapInfo xSs mlkemSs wrapped) (xEphPub : ByteBlock 32)
    (ct' : ByteBlock 1088) (nonce' : ByteBlock 12) (xSeed : ByteBlock 32) (dk : ByteBlock 2400) :
    unwrapEpochSecret P (xEphPub.toList ++ ct'.toList ++ nonce'.toList ++ wrapped)
        (xSeed.toList ++ dk.toList) =
      if ReachesBoth P xSs mlkemSs xEphPub ct' xSeed dk ∧ nonce' = nonce then .ok secret
      else .err .unwrapFailed := by
  rcases Option.isSome_iff_exists.mp (total.decapsulate_isSome dk ct') with ⟨mlkemSs', hss⟩
  have hlen : (xEphPub.toList ++ ct'.toList).length = ciphertextLen :=
    length_append_blocks xEphPub ct'
  have hpriv : (xSeed.toList ++ dk.toList).length = privateKeyLen := length_append_blocks xSeed dk
  have hkey : ∀ shared, GroupRatchet.wrapKey P shared = labelledKey P epochWrapInfo shared :=
    fun _ => rfl
  rw [unwrapEpochSecret_append P nonce' hlen (h.length_wrapped aead) hpriv, hybridDecap_append,
    hss, Outcome.mapErr_ok, Outcome.ok_bind, hkey, h.decrypt_eq aead hideal hss]
  split
  · simp
  · rfl

/-- In both protocols a wrapped epoch secret takes both legs of the KEM: with any
private key, and behind any ciphertext and nonce, its body unwraps to the secret
if the X25519 leg and the ML-KEM leg give the secrets of the wrap and the nonce is
that of the wrap, and is an `UnwrapFailed` otherwise. -/
theorem both_legs_needed (total : P.MlkemTotal) (aead : P.AeadLaws)
    {dmDraws : Ratchet.WrapDraws} {groupDraws : GroupRatchet.WrapDraws} {dm group : Bytes}
    (hdm : wrapDmEpochSecret P secret.toList (hybridKeypair P keys).publicKey dmDraws = .ok dm)
    (hgroup : wrapEpochSecret P secret.toList (hybridKeypair P keys).publicKey groupDraws =
      .ok group)
    (hdmIdeal : IdealTowards P keys secret dmDraws.encap dmDraws.nonce infoDmWrap dm)
    (hgroupIdeal : IdealTowards P keys secret groupDraws.encap groupDraws.nonce epochWrapInfo
      group) :
    (∃ xSs mlkemSs ct wrapped,
      WrapParts P keys secret dmDraws.encap dmDraws.nonce infoDmWrap dm xSs mlkemSs ct wrapped ∧
      ∀ xEphPub ct' nonce' xSeed dk,
        unwrapDmEpochSecret P (xEphPub.toList ++ ct'.toList ++ nonce'.toList ++ wrapped)
            (xSeed.toList ++ dk.toList) =
          if ReachesBoth P xSs mlkemSs xEphPub ct' xSeed dk ∧ nonce' = dmDraws.nonce
          then .ok secret else .err .unwrapFailed) ∧
    ∃ xSs mlkemSs ct wrapped,
      WrapParts P keys secret groupDraws.encap groupDraws.nonce epochWrapInfo group
        xSs mlkemSs ct wrapped ∧
      ∀ xEphPub ct' nonce' xSeed dk,
        unwrapEpochSecret P (xEphPub.toList ++ ct'.toList ++ nonce'.toList ++ wrapped)
            (xSeed.toList ++ dk.toList) =
          if ReachesBoth P xSs mlkemSs xEphPub ct' xSeed dk ∧ nonce' = groupDraws.nonce
          then .ok secret else .err .unwrapFailed := by
  constructor
  · rcases WrappedUnder.exists_parts (wrapDmEpochSecret_eq_ok_iff.mp hdm) with
      ⟨xSs, mlkemSs, ct, wrapped, hparts⟩
    exact ⟨xSs, mlkemSs, ct, wrapped, hparts,
      hparts.unwrapDm_eq total aead (hdmIdeal _ _ _ _ hparts)⟩
  · rcases WrappedUnder.exists_parts (wrapEpochSecret_eq_ok_iff.mp hgroup) with
      ⟨xSs, mlkemSs, ct, wrapped, hparts⟩
    exact ⟨xSs, mlkemSs, ct, wrapped, hparts,
      hparts.unwrapGroup_eq total aead (hgroupIdeal _ _ _ _ hparts)⟩

end Unwraps

/-! ## A sample wrap -/

namespace Sample

/-- The inputs of the combiner and of the two wrap keys.  The first one leads to
the shared secret of zeros. -/
def legInputs : List Primitives.KdfInput :=
  [⟨List.replicate 64 0, List.replicate 32 14 ++ List.replicate 32 7, hkdfInfo⟩,
    ⟨List.replicate 64 0, List.replicate 32 0, infoDmWrap⟩,
    ⟨List.replicate 64 0, List.replicate 32 0, epochWrapInfo⟩]

def legPrimitives : Primitives :=
  Primitives.tabled legInputs
    [⟨List.Vector.replicate 32 1, nonce, []⟩, ⟨List.Vector.replicate 32 2, nonce, []⟩]

/-- The sample primitives are ideal towards a wrap under both labels. -/
theorem idealTowards {secret : ByteBlock 32} {info payload : Bytes}
    (hinfo : ⟨List.replicate 64 0, List.replicate 32 0, info⟩ ∈ legInputs)
    (hkey : ⟨labelledKey legPrimitives info (List.Vector.replicate 32 0), nonce, []⟩ ∈
      [(⟨List.Vector.replicate 32 1, nonce, []⟩ : Primitives.Sealing),
        ⟨List.Vector.replicate 32 2, nonce, []⟩]) :
    IdealTowards legPrimitives keys secret encap nonce info payload := by
  intro xSs mlkemSs ct wrapped hparts
  have hx : xSs = List.Vector.replicate 32 14 := by
    rw [← hparts.exchanged]
    decide +kernel
  have hmlkem : mlkemSs = List.Vector.replicate 32 7 := by
    have hsome := hparts.encapsulated
    simp only [legPrimitives, Primitives.tabled, Primitives.tagged, Option.some.injEq,
      Prod.mk.injEq] at hsome
    rw [← hsome.2]
    rfl
  have hshared : sharedSecret legPrimitives xSs mlkemSs = List.Vector.replicate 32 0 := by
    rw [hx, hmlkem]
    decide +kernel
  have hsealed := hparts.sealed
  constructor
  case combiner =>
    rw [hx, hmlkem]
    exact Primitives.tabled_kdfUnique (by decide) List.mem_cons_self
  case wrap =>
    rw [hshared]
    exact Primitives.tabled_kdfUnique (by decide) hinfo
  case body =>
    rw [hshared] at hsealed ⊢
    exact Primitives.tabled_opensOnlyUnder (by decide) hkey hsealed

end Sample

/-- A DM wrap of a sample secret opens to its owner, and not to a private key that
differs in the X25519 leg. -/
theorem both_legs_needed_sample :
    ∃ (xEphPub : ByteBlock 32) (ct : ByteBlock 1088) (wrapped : Bytes) (dk : ByteBlock 2400),
      unwrapDmEpochSecret Sample.legPrimitives
          (xEphPub.toList ++ ct.toList ++ Sample.nonce.toList ++ wrapped)
          (Sample.keys.xSeed.toList ++ dk.toList) = .ok (List.Vector.replicate 32 9) ∧
      unwrapDmEpochSecret Sample.legPrimitives
          (xEphPub.toList ++ ct.toList ++ Sample.nonce.toList ++ wrapped)
          (List.replicate 32 8 ++ dk.toList) = .err .unwrapFailed := by
  have total : Sample.legPrimitives.MlkemTotal := Primitives.tabled_mlkemTotal
  have aead : Sample.legPrimitives.AeadLaws := Primitives.tabled_aeadLaws
  have kem : Sample.legPrimitives.KemLaws := Primitives.tabled_kemLaws
  rcases exists_wrappedUnder total aead Sample.keys (List.Vector.replicate 32 9) Sample.encap
    Sample.nonce infoDmWrap with ⟨dm, hdm⟩
  rcases exists_wrappedUnder total aead Sample.keys (List.Vector.replicate 32 9) Sample.encap
    Sample.nonce epochWrapInfo with ⟨group, hgroup⟩
  have hdmWrap : wrapDmEpochSecret Sample.legPrimitives (List.Vector.replicate 32 9).toList
      (hybridKeypair Sample.legPrimitives Sample.keys).publicKey ⟨Sample.encap, Sample.nonce⟩ =
        .ok dm := wrapDmEpochSecret_eq_ok_iff.mpr hdm
  have hgroupWrap : wrapEpochSecret Sample.legPrimitives (List.Vector.replicate 32 9).toList
      (hybridKeypair Sample.legPrimitives Sample.keys).publicKey ⟨Sample.encap, Sample.nonce⟩ =
        .ok group := wrapEpochSecret_eq_ok_iff.mpr hgroup
  rcases (both_legs_needed total aead hdmWrap hgroupWrap
    (Sample.idealTowards (by decide) (by decide +kernel))
    (Sample.idealTowards (by decide) (by decide +kernel))).1 with
    ⟨xSs, mlkemSs, ct, wrapped, hparts, hunwrap⟩
  have hx : xSs = List.Vector.replicate 32 14 := by
    rw [← hparts.exchanged]
    decide +kernel
  have hss := kem.decapsulate_encapsulate _ _ _ _ hparts.encapsulated
  refine ⟨Sample.legPrimitives.x25519Public Sample.encap.xEph, ct, wrapped,
    (Sample.legPrimitives.mlkemGenerate Sample.keys.mlkemSeed).1, ?_, ?_⟩
  · rw [hunwrap, if_pos]
    exact ⟨⟨by rw [hx]; decide +kernel, hss⟩, rfl⟩
  · have hother : List.replicate 32 8 = (List.Vector.replicate 32 (8 : UInt8)).toList := rfl
    rw [hother, hunwrap, if_neg]
    rintro ⟨⟨hdh, -⟩, -⟩
    rw [hx] at hdh
    revert hdh
    decide +kernel

end EpochWraps
end SkPqc
