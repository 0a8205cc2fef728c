import SkPqc.DmSession.Rejection
import SkPqc.IdealPrimitives
import Mathlib.Data.Fintype.BigOperators

/-!
# Errors of a failed open

`open` fails in three places: the KAM does not unwrap, the store has no secret,
the body does not decrypt.  Whoever sees the error of one frame after another,
all of one shape, may learn from it which of these places refused the frame.

Main results:

- Theorem `open_error`: the error of a failed open, from the state, the presence
  of a KAM and whether the KAM unwraps.
- Theorem `exists_undecryptable`: an exact AEAD refuses some body of every
  length.
- Theorem `noOracle_iff`: in which states and for which shapes all failures look
  alike, and which two failures look alike in the others.
-/

namespace SkPqc
namespace DmSession

open Rust Kem Ratchet

variable {φ : Type}

/-! ## Shapes -/

/-- What the wire shows of a frame. -/
structure FrameShape where
  epoch : UInt64
  index : UInt64
  bodyLen : Nat
  hasKam : Bool

/-- A frame of the shape, with a nonce and a KAM of the lengths `open` expects. -/
structure SealedDmFrame.HasShape (frame : SealedDmFrame) (shape : FrameShape) : Prop where
  epoch : frame.epoch = shape.epoch
  index : frame.index = shape.index
  nonce : frame.nonce.length = frameNonceLen
  body : frame.body.length = shape.bodyLen
  kam : frame.kam.map List.length = if shape.hasKam then some wrappedPayloadLen else none

instance (frame : SealedDmFrame) (shape : FrameShape) : Decidable (frame.HasShape shape) :=
  decidable_of_iff
    (frame.epoch = shape.epoch ∧ frame.index = shape.index ∧
      frame.nonce.length = frameNonceLen ∧ frame.body.length = shape.bodyLen ∧
      frame.kam.map List.length = if shape.hasKam then some wrappedPayloadLen else none)
    ⟨fun ⟨epoch, index, nonce, body, kam⟩ => ⟨epoch, index, nonce, body, kam⟩,
      fun h => ⟨h.epoch, h.index, h.nonce, h.body, h.kam⟩⟩

section Errors

variable (P : Primitives)

/-- The KAM of the frame unwraps under the private key. -/
def Unwraps (frame : SealedDmFrame) (myHybridPriv : Bytes) : Prop :=
  ∃ kam secret, frame.kam = some kam ∧ unwrapDmEpochSecret P kam myHybridPriv = .ok secret

/-- The frame is refused with this error. -/
def Refused (s : DmSession φ) (frame : SealedDmFrame) (myHybridPriv : Bytes)
    (e : DmSessionError) : Prop :=
  ((DmSession.open P frame myHybridPriv).run s).1 = .err e

/-- Any two frames of the shape, under any two private keys, are refused with
the same error. -/
def NoOracle (s : DmSession φ) (shape : FrameShape) : Prop :=
  ∀ f f' k k' e e', f.HasShape shape → f'.HasShape shape →
    k.length = privateKeyLen → k'.length = privateKeyLen →
      Refused P s f k e → Refused P s f' k' e' → e = e'

end Errors

/-! ## The error of a failed open -/

section Open

variable {P : Primitives} {s : DmSession φ} {frame : SealedDmFrame} {myHybridPriv : Bytes}
  {e : DmSessionError}

/-- The three errors, each where it is returned. -/
theorem open_error (total : P.MlkemTotal) {shape : FrameShape} (hshape : frame.HasShape shape)
    (hpriv : myHybridPriv.length = privateKeyLen) (h : Refused P s frame myHybridPriv e) :
    (e = .openFailed ∧ ((s.epochSecrets[shape.epoch]?).isSome ∨
        shape.hasKam ∧ Unwraps P frame myHybridPriv)) ∨
    (e = .missingEpochSecret shape.epoch ∧ s.epochSecrets[shape.epoch]? = none ∧
        shape.hasKam = false) ∨
    (e = .ratchet .unwrapFailed ∧ s.epochSecrets[shape.epoch]? = none ∧
        shape.hasKam ∧ ¬ Unwraps P frame myHybridPriv) := by
  have hpresent : frame.kam.isSome = shape.hasKam := by
    have hlen := congrArg Option.isSome hshape.kam
    rw [Option.isSome_map] at hlen
    rw [hlen]
    cases shape.hasKam <;> rfl
  have hstep := open_step P s frame myHybridPriv
  unfold Refused at h
  generalize (DmSession.open P frame myHybridPriv).run s = res at hstep h
  rw [← hshape.epoch, ← hpresent]
  cases hstep with
  | known hstored =>
      have herror := ((openBody_eq_err_iff P).mp h).1
      exact Or.inl ⟨herror, Or.inl (by rw [hstored]; rfl)⟩
  | @learned kam secret hvacant hkam hunwrap =>
      have herror := ((openBody_eq_err_iff P).mp h).1
      exact Or.inl ⟨herror, Or.inr ⟨by rw [hkam]; rfl, kam, secret, hkam, hunwrap⟩⟩
  | @refused kam e' hvacant hkam hunwrap =>
      have hlen : kam.length = wrappedPayloadLen := by
        have hmap := hshape.kam
        rw [← hpresent, hkam] at hmap
        exact Option.some.inj hmap
      have herror := unwrapDmEpochSecret_failsOnly total hlen hpriv e' hunwrap
      have hnot : ¬ Unwraps P frame myHybridPriv := by
        rintro ⟨kam', secret, hkam', hsecret⟩
        rw [hkam] at hkam'
        cases hkam'
        rw [hunwrap] at hsecret
        cases hsecret
      refine Or.inr (Or.inr ⟨?_, hvacant, by rw [hkam]; rfl, hnot⟩)
      rw [← herror]
      exact (Outcome.err.inj h).symm
  | missing hvacant hkam =>
      exact Or.inr (Or.inl ⟨(Outcome.err.inj h).symm, hvacant, by rw [hkam]; rfl⟩)

/-- Two failures for frames of one shape look alike unless the secret has to come
from a KAM, and one of the two KAMs unwraps. -/
theorem errors_eq_iff (total : P.MlkemTotal) {shape : FrameShape} {f f' : SealedDmFrame}
    {k k' : Bytes} {e e' : DmSessionError} (hf : f.HasShape shape) (hf' : f'.HasShape shape)
    (hk : k.length = privateKeyLen) (hk' : k'.length = privateKeyLen)
    (h : Refused P s f k e) (h' : Refused P s f' k' e') :
    e = e' ↔ (s.epochSecrets[shape.epoch]?).isSome ∨ shape.hasKam = false ∨
      (Unwraps P f k ↔ Unwraps P f' k') := by
  have herror := open_error total hf hk h
  have herror' := open_error total hf' hk' h'
  cases hstored : s.epochSecrets[shape.epoch]? with
  | some secret =>
      simp only [hstored] at herror herror'
      simp_all
  | none =>
      simp only [hstored] at herror herror'
      cases hkam : shape.hasKam with
      | false => simp_all
      | true =>
          by_cases hu : Unwraps P f k <;> by_cases hu' : Unwraps P f' k' <;> simp_all

end Open

/-! ## Bodies that do not open -/

section Bodies

variable {P : Primitives}

/-- An exact AEAD refuses some body of every length: the bodies it opens are as
many as the shorter messages. -/
theorem exists_undecryptable (deterministic : P.AeadExact) (key : ByteBlock 32)
    (nonce : ByteBlock 12) (aad : Bytes) (n : Nat) :
    ∃ body : Bytes, body.length = n ∧ P.aesGcmDecrypt key nonce aad body = none := by
  by_contra hall
  have hopens : ∀ body : ByteBlock n, ∃ msg,
      P.aesGcmDecrypt key nonce aad body.toList = some msg := by
    intro body
    apply Option.ne_none_iff_exists'.mp
    intro hnone
    exact hall ⟨body.toList, body.toList_length, hnone⟩
  choose msg hmsg using hopens
  have hlen : ∀ body : ByteBlock n, (msg body).length + 16 = n := by
    intro body
    rw [← deterministic.length_decrypt _ _ _ _ _ (hmsg body), List.Vector.toList_length]
  have hlong := hlen (List.Vector.replicate n 0)
  let shorten (body : ByteBlock n) : ByteBlock (n - 16) :=
    ⟨msg body, Nat.eq_sub_of_add_eq (hlen body)⟩
  have hinj : Function.Injective shorten := by
    intro a b hab
    have hsame : msg a = msg b := congrArg Subtype.val hab
    have hopens := hmsg b
    rw [← hsame] at hopens
    exact List.Vector.toList_injective
      (deterministic.decrypt_injective _ _ _ _ _ _ hopens (hmsg a))
  have : Finite UInt8 := Finite.of_injective UInt8.toFin fun a b h => UInt8.toFin_inj.mp h
  have := Fintype.ofFinite UInt8
  have hbytes : 1 < Fintype.card UInt8 := Fintype.one_lt_card_iff.mpr ⟨0, 1, by decide⟩
  have hcard := Fintype.card_le_of_injective shorten hinj
  rw [card_vector, card_vector] at hcard
  have hlt := Nat.pow_lt_pow_right hbytes (by omega : n - 16 < n)
  exact absurd hcard (Nat.not_le.mpr hlt)

/-- For some private key, one payload of the right length unwraps and another one
does not. -/
theorem exists_payloads (kem : P.KemLaws) (total : P.MlkemTotal) (aead : P.AeadLaws)
    (deterministic : P.AeadExact) :
    ∃ (priv good bad : Bytes) (secret : ByteBlock epochSecretLen),
      priv.length = privateKeyLen ∧
      good.length = wrappedPayloadLen ∧ unwrapDmEpochSecret P good priv = .ok secret ∧
      bad.length = wrappedPayloadLen ∧ unwrapDmEpochSecret P bad priv = .err .unwrapFailed := by
  have keys : KeypairDraws := ⟨List.Vector.replicate 32 0, List.Vector.replicate 64 0⟩
  have encap : EncapDraws := ⟨List.Vector.replicate 32 0, List.Vector.replicate 32 0⟩
  have nonce : ByteBlock wrapNonceLen := List.Vector.replicate wrapNonceLen 0
  have secret : ByteBlock epochSecretLen := List.Vector.replicate epochSecretLen 0
  rcases exists_hybridEncap_eq_ok total keys encap with ⟨ciphertext, shared, hencap⟩
  have hct := length_of_hybridEncap P hencap
  have hpayload : ∀ wrapped : Bytes, wrapped.length = wrappedSecretLen →
      (ciphertext ++ nonce.toList ++ wrapped).length = wrappedPayloadLen := by
    intro wrapped hlen
    rw [List.length_append, List.length_append, hct, hlen, List.Vector.toList_length]
  have hpriv : (hybridKeypair P keys).privateKey.length = privateKeyLen := by
    simp [hybridKeypair]
  -- The good payload is a wrap of the secret.
  have hsecret : secret.toList.length ≤ aesGcmMax := by
    rw [secret.toList_length]
    decide
  have hsome := aead.encrypt_isSome (wrapKey P shared) nonce [] secret.toList (Nat.zero_le _)
    hsecret
  rcases Option.isSome_iff_exists.mp hsome with ⟨wrapped, hwrapped⟩
  have hlen : wrapped.length = wrappedSecretLen := by
    rw [aead.length_encrypt _ _ _ _ _ hwrapped, secret.toList_length]
  have hwrap : wrapDmEpochSecret P secret.toList (hybridKeypair P keys).publicKey ⟨encap, nonce⟩ =
      .ok (ciphertext ++ nonce.toList ++ wrapped) :=
    wrapDmEpochSecret_eq_ok_iff.mpr ⟨ciphertext, shared, wrapped, hencap, hwrapped, rfl⟩
  -- The bad one holds a sealed part that the wrap key refuses.
  rcases exists_undecryptable deterministic (wrapKey P shared) nonce [] wrappedSecretLen with
    ⟨junk, hjunk, hnone⟩
  have hrefused : unwrapDmEpochSecret P (ciphertext ++ nonce.toList ++ junk)
      (hybridKeypair P keys).privateKey = .err .unwrapFailed := by
    rw [unwrapDmEpochSecret_append P nonce _ hct hjunk, hybridDecap_hybridEncap kem hencap,
      Outcome.mapErr_ok, Outcome.ok_bind, hnone]
    rfl
  exact ⟨_, _, _, secret, hpriv, hpayload wrapped hlen, unwrapDmEpochSecret_wrap kem aead hwrap,
    hpayload junk hjunk, hrefused⟩

/-- The frame of a shape with this body and this KAM. -/
def FrameShape.frame (shape : FrameShape) (body kam : Bytes) : SealedDmFrame where
  epoch := shape.epoch
  index := shape.index
  nonce := (List.Vector.replicate frameNonceLen 0).toList
  body := body
  kam := some kam

theorem FrameShape.frame_hasShape {shape : FrameShape} {body kam : Bytes}
    (hbody : body.length = shape.bodyLen) (hkam : shape.hasKam = true)
    (hlen : kam.length = wrappedPayloadLen) : (shape.frame body kam).HasShape shape := by
  refine ⟨rfl, rfl, List.Vector.toList_length _, hbody, ?_⟩
  simp [FrameShape.frame, hlen, hkam]

/-- Without the secret of the epoch, a frame whose KAM unwraps and a frame whose
KAM does not are refused with two errors. -/
theorem not_noOracle (kem : P.KemLaws) (total : P.MlkemTotal) (aead : P.AeadLaws)
    (deterministic : P.AeadExact) {s : DmSession φ} {shape : FrameShape}
    (hvacant : s.epochSecrets[shape.epoch]? = none) (hkam : shape.hasKam = true) :
    ¬ NoOracle P s shape := by
  rcases exists_payloads kem total aead deterministic with
    ⟨priv, good, bad, secret, hpriv, hgood, hunwrap, hbad, hrefused⟩
  rcases exists_undecryptable deterministic (messageKey P secret shape.epoch shape.index)
    (List.Vector.replicate frameNonceLen 0) (frameAad shape.epoch shape.index) shape.bodyLen with
    ⟨body, hbody, hnone⟩
  have hbodyRefused : Refused P s (shape.frame body good) priv .openFailed := by
    unfold Refused
    rw [open_of_unwrap P hvacant rfl hunwrap]
    refine (openBody_eq_err_iff P).mpr ⟨rfl, ?_⟩
    exact (P.aes256GcmDecrypt_toList _ _ _ _).trans (congrArg Outcome.ok hnone)
  have hkamRefused : Refused P s (shape.frame body bad) priv (.ratchet .unwrapFailed) := by
    unfold Refused
    rw [open_of_unwrap_err P hvacant rfl hrefused]
  intro hsilent
  have hsame := hsilent _ _ _ _ _ _ (FrameShape.frame_hasShape hbody hkam hgood)
    (FrameShape.frame_hasShape hbody hkam hbad) hpriv hpriv hbodyRefused hkamRefused
  cases hsame

/-- All failures for frames of a shape look alike exactly in the states that
store the secret of the epoch, and for frames without a KAM.  In any other state
two failures look alike exactly if both KAMs unwrap or neither does. -/
theorem noOracle_iff (kem : P.KemLaws) (total : P.MlkemTotal) (aead : P.AeadLaws)
    (deterministic : P.AeadExact) (s : DmSession φ) (shape : FrameShape) :
    (NoOracle P s shape ↔
      (s.epochSecrets[shape.epoch]?).isSome ∨ shape.hasKam = false) ∧
    ∀ f f' k k' e e', f.HasShape shape → f'.HasShape shape →
      k.length = privateKeyLen → k'.length = privateKeyLen →
      Refused P s f k e → Refused P s f' k' e' →
        (e = e' ↔ (s.epochSecrets[shape.epoch]?).isSome ∨ shape.hasKam = false ∨
          (Unwraps P f k ↔ Unwraps P f' k')) := by
  refine ⟨?_, fun f f' k k' e e' hf hf' hk hk' h h' =>
    errors_eq_iff total hf hf' hk hk' h h'⟩
  constructor
  · intro hsilent
    by_contra hopen
    rcases not_or.mp hopen with ⟨hstored, hkam⟩
    exact not_noOracle kem total aead deterministic (Option.not_isSome_iff_eq_none.mp hstored)
      (Bool.eq_true_of_not_eq_false hkam) hsilent
  · intro hsafe f f' k k' e e' hf hf' hk hk' h h'
    refine (errors_eq_iff total hf hf' hk hk' h h').mpr ?_
    rcases hsafe with hstored | hkam
    · exact Or.inl hstored
    · exact Or.inr (Or.inl hkam)

end Bodies

/-! ## Samples -/

namespace Sample

/-- The first frame to the keys of byte 2. -/
def genuine : SealedDmFrame := frame (DmSession.new "bob") [104, 105] 2 7

def tamperedBody : SealedDmFrame := { genuine with body := genuine.body.dropLast ++ [0] }

def tamperedKam : SealedDmFrame :=
  { genuine with kam := genuine.kam.map fun kam => kam.dropLast ++ [0] }

def genuineShape : FrameShape := ⟨0, 0, 18, true⟩

end Sample

/-- A fresh session has no secret for a first frame, and its errors differ. -/
theorem noOracle_iff_fresh :
    ¬ NoOracle (Primitives.tabled [] []) (DmSession.new "alice" : DmSession Int)
      Sample.genuineShape := by
  have kem : (Primitives.tabled [] []).KemLaws := Primitives.tabled_kemLaws
  have hiff := (noOracle_iff kem Primitives.tabled_mlkemTotal Primitives.tabled_aeadLaws
    Primitives.tabled_aeadExact (DmSession.new "alice" : DmSession Int) Sample.genuineShape).1
  intro hsilent
  rcases hiff.mp hsilent with hstored | hkam
  · cases hstored
  · cases hkam

/-- The error tells a wrong private key and a tampered KAM from a tampered body. -/
theorem error_tells_wrong_key :
    let alice : DmSession Int := DmSession.new "alice"
    let right := (Sample.keys 2).privateKey
    let wrong := (Sample.keys 3).privateKey
    (Primitives.transparent.KemLaws ∧ Primitives.transparent.AeadLaws) ∧
    Sample.genuine.HasShape Sample.genuineShape ∧
    Sample.tamperedBody.HasShape Sample.genuineShape ∧
    Sample.tamperedKam.HasShape Sample.genuineShape ∧
    right.length = privateKeyLen ∧ wrong.length = privateKeyLen ∧
    Refused Primitives.transparent alice Sample.tamperedBody right .openFailed ∧
    Refused Primitives.transparent alice Sample.genuine wrong (.ratchet .unwrapFailed) ∧
    Refused Primitives.transparent alice Sample.tamperedKam right (.ratchet .unwrapFailed) ∧
    ¬ NoOracle Primitives.transparent alice Sample.genuineShape := by
  intro alice right wrong
  have hshapes : Sample.genuine.HasShape Sample.genuineShape ∧
      Sample.tamperedBody.HasShape Sample.genuineShape ∧
      Sample.tamperedKam.HasShape Sample.genuineShape := by
    decide +kernel
  have hkeys : right.length = privateKeyLen ∧ wrong.length = privateKeyLen := by decide +kernel
  have hrefused : Refused Primitives.transparent alice Sample.tamperedBody right .openFailed ∧
      Refused Primitives.transparent alice Sample.genuine wrong (.ratchet .unwrapFailed) ∧
      Refused Primitives.transparent alice Sample.tamperedKam right (.ratchet .unwrapFailed) := by
    unfold Refused
    decide +kernel
  rcases hshapes with ⟨hshape, hbodyShape, hkamShape⟩
  rcases hkeys with ⟨hright, hwrong⟩
  rcases hrefused with ⟨hbody, hkey, hkam⟩
  refine ⟨⟨Primitives.tagged_kemLaws _, Primitives.tagged_aeadLaws _⟩, hshape, hbodyShape,
    hkamShape, hright, hwrong, hbody, hkey, hkam, ?_⟩
  intro hsilent
  have hsame := hsilent _ _ _ _ _ _ hbodyShape hshape hright hwrong hbody hkey
  cases hsame

end DmSession
end SkPqc
