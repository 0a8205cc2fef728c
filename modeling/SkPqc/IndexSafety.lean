import SkPqc.DmSession.CursorSafety
import SkPqc.Pqroute.Envelope

/-!
# Index arithmetic of the decoders

Three decoders add 32-bit length fields of their input to an index: the token
decoder, the split of a routing envelope, and the split of its decrypted inner.
Only the second one checks the addition.

Main results:

- Theorem `tracedSplitOuter_inBounds`: the checked addition is always in bounds.
- Theorem `tracedSplitInner_inBounds_iff`: the unchecked one is where the length
  field leaves room for its own four bytes.
- Theorem `index_arithmetic_safe_iff`: exactly when the decoders stay in bounds,
  on machines with 32-bit and with 64-bit `usize`.
-/

namespace SkPqc
namespace Pqroute

open Rust Json Kem Traced

/-! ## The traced envelope functions -/

/-- `split_outer`, traced; its addition is checked. -/
def tracedSplitOuter (w : Nat) (blob : Bytes) : Traced PqRouteError (Bytes × Bytes) :=
  if blob.length < lenPrefix then
    lift (.err (.format "blob too short for a route-header length prefix"))
  else do
    let hdrLen ← lift (leadingU32 blob)
    let stop ← lift (Outcome.okOr (.format "route header length overflow")
      (checkedAdd w lenPrefix hdrLen))
    if stop > blob.length then
      lift (.err (.format "route header length exceeds blob size"))
    else do
      let routeBytes ← Traced.slice blob lenPrefix stop
      let sealedPart ← Traced.slice blob stop blob.length
      pure (routeBytes, sealedPart)

/-- The parsing of a decrypted inner, traced. -/
def tracedSplitInner (w : Nat) (inner : Bytes) : Traced PqRouteError (Bytes × Bytes) :=
  if inner.length < lenPrefix then
    lift (.err (.open "decrypted inner is truncated"))
  else do
    let metaLen ← lift (leadingU32 inner)
    let stop ← addIndex w lenPrefix metaLen
    if stop > inner.length then
      lift (.err (.open "decrypted inner metadata length is out of range"))
    else do
      let metaBytes ← Traced.slice inner lenPrefix stop
      let content ← Traced.slice inner stop inner.length
      pure (metaBytes, content)

section Functions

variable {φ : Type} (P : Primitives) (J : Parser φ)

/-- `open_routed` up to the decrypted inner, traced. -/
def tracedDecryptInner (w : Nat) (blob destHybridPriv : Bytes) :
    Traced PqRouteError (Value φ × Bytes) := do
  let (routeBytes, sealedPart) ← tracedSplitOuter w blob
  if sealedPart.length < sealedMinLen then
    lift (.err (.format s!"sealed inner must be >= {sealedMinLen} bytes, got {sealedPart.length}"))
  else do
    let routeHdr ← lift (parseRoute J routeBytes)
    let ciphertext ← Traced.slice sealedPart 0 ciphertextLen
    let nonce ← Traced.slice sealedPart ciphertextLen (ciphertextLen + wrapNonceLen)
    let body ← Traced.slice sealedPart (ciphertextLen + wrapNonceLen) sealedPart.length
    let aad := buildAad routeBytes
    let shared ← lift ((hybridDecap P ciphertext destHybridPriv).mapErr
      fun e => .open s!"hybrid decapsulation failed: {e.display}")
    let wrapKey ← lift (deriveWrapKey P shared.toList aad)
    let inner ← lift (P.aes256GcmDecrypt wrapKey.toList nonce aad body)
    let inner ← lift (Outcome.okOr (.open openFailedText) inner)
    pure (routeHdr, inner)

/-- What `open_routed` does with a decrypted inner, traced. -/
def tracedOpenInner (w : Nat) (routeHdr : Value φ) (inner : Bytes) :
    Traced PqRouteError (Value φ × Value φ × Bytes) := do
  let (metaBytes, content) ← tracedSplitInner w inner
  let innerMetadata ← lift ((Outcome.ofExcept (J.fromSlice metaBytes)).mapErr
    fun e => .open s!"inner metadata not valid JSON: {e}")
  pure (routeHdr, innerMetadata, content)

/-- `open_routed`, traced. -/
def tracedOpenRouted (w : Nat) (blob destHybridPriv : Bytes) :
    Traced PqRouteError (Value φ × Value φ × Bytes) := do
  let (routeHdr, inner) ← tracedDecryptInner P J w blob destHybridPriv
  tracedOpenInner J w routeHdr inner

end Functions

/-! ## Erasing -/

@[simp] theorem outcome_tracedSplitOuter (w : Nat) (blob : Bytes) :
    (tracedSplitOuter w blob).outcome = splitOuter w blob := by
  simp only [tracedSplitOuter, splitOuter, outcome_ite, outcome_lift, outcome_bind, outcome_slice,
    outcome_pure]
  rfl

@[simp] theorem outcome_tracedSplitInner (w : Nat) (inner : Bytes) :
    (tracedSplitInner w inner).outcome = splitInner w inner := by
  simp only [tracedSplitInner, splitInner, outcome_ite, outcome_lift, outcome_bind, outcome_slice,
    outcome_pure, outcome_addIndex, Outcome.ok_bind]
  rfl

theorem outcome_tracedOpenRouted {φ : Type} (P : Primitives) (J : Parser φ) (w : Nat)
    (blob destHybridPriv : Bytes) :
    (tracedOpenRouted P J w blob destHybridPriv).outcome =
      openRouted P J w blob destHybridPriv := by
  simp only [tracedOpenRouted, tracedDecryptInner, tracedOpenInner, openRouted, openInner,
    outcome_bind, outcome_tracedSplitOuter, outcome_tracedSplitInner, outcome_lift, outcome_slice,
    outcome_pure, outcome_ite, LawfulMonad.bind_assoc]
  congr 1
  funext parts
  split
  · rfl
  · simp only [LawfulMonad.bind_assoc, Outcome.pure_eq, Outcome.ok_bind]

/-! ## In bounds -/

section InBounds

variable {w : Nat}

/-- The leading length field of bytes that are long enough. -/
theorem leadingU32_eq {ε : Type} {xs : Bytes} (h : lenPrefix ≤ xs.length) :
    ∃ n, (leadingU32 xs : Outcome ε Nat) = .ok n ∧ lengthAt xs 0 = some n := by
  have hfour : (xs.take 4).length = 4 := by
    rw [List.length_take]
    exact Nat.min_eq_left h
  obtain ⟨⟨bytes, hbytes⟩, hfield⟩ := exists_block hfour
  obtain ⟨b0, b1, b2, b3, rfl⟩ := List.length_eq_four.mp hbytes
  have hxs : xs = [b0, b1, b2, b3] ++ xs.drop 4 := by
    rw [← List.take_append_drop 4 xs, hfield]
    simp
  refine ⟨ofBigEndian [b0, b1, b2, b3], ?_, ?_⟩
  · rw [hxs]
    rfl
  · rw [lengthAt, if_pos h, List.drop_zero, hfield]
    rfl

/-- The checked addition is always in bounds. -/
theorem tracedSplitOuter_inBounds (blob : Bytes) : (tracedSplitOuter w blob).InBounds w := by
  unfold tracedSplitOuter
  rw [inBounds_guard]
  intro hlong
  obtain ⟨hdrLen, hread, -⟩ := leadingU32_eq (ε := PqRouteError) (Nat.not_lt.mp hlong)
  rw [hread, inBounds_lift_ok_bind, inBounds_bind_iff, inBounds_lift_iff]
  refine ⟨Outcome.okOr_ne_panic _ _, ?_⟩
  intro stop hstop
  have hsum : lenPrefix ≤ stop := by
    rw [outcome_lift, Outcome.okOr_eq_ok_iff] at hstop
    unfold checkedAdd at hstop
    split at hstop
    · cases hstop
      exact Nat.le_add_right _ _
    · cases hstop
  rw [inBounds_guard]
  intro hroom
  apply inBounds_slice_bind hsum (Nat.not_lt.mp hroom)
  intro routeBytes _
  apply inBounds_slice_bind (Nat.not_lt.mp hroom) (Nat.le_refl _)
  intro sealedPart _
  exact inBounds_pure _

/-- The length field of a decrypted inner leaves room for its own four bytes. -/
def InnerFits (w : Nat) (inner : Bytes) : Prop :=
  ∀ n, lengthAt inner 0 = some n → lenPrefix + n < 2 ^ w

/-- The unchecked addition is in bounds exactly when the length field fits. -/
theorem tracedSplitInner_inBounds_iff {inner : Bytes} :
    (tracedSplitInner w inner).InBounds w ↔ InnerFits w inner := by
  unfold tracedSplitInner InnerFits
  by_cases hshort : inner.length < lenPrefix
  · rw [if_pos hshort]
    apply iff_of_true
    · exact inBounds_lift_err _
    · intro n hn
      have hroom := (DmSession.room_of_lengthAt hn).1
      exact absurd hshort (Nat.not_lt.mpr (by simpa using hroom))
  · obtain ⟨metaLen, hread, hfield⟩ := leadingU32_eq (ε := PqRouteError) (Nat.not_lt.mp hshort)
    rw [if_neg hshort, hread, inBounds_lift_ok_bind, inBounds_bind_iff, inBounds_addIndex_iff,
      hfield]
    simp only [Option.some.injEq, forall_eq']
    apply and_iff_left_of_imp
    intro hfits stop hstop
    rw [outcome_addIndex, Outcome.ok.injEq, Nat.mod_eq_of_lt hfits] at hstop
    rw [inBounds_guard]
    intro hroom
    apply inBounds_slice_bind (by omega) (Nat.not_lt.mp hroom)
    intro metaBytes _
    apply inBounds_slice_bind (Nat.not_lt.mp hroom) (Nat.le_refl _)
    intro content _
    exact inBounds_pure _

section Functions

variable {φ : Type} {P : Primitives} {J : Parser φ}

theorem parseRoute_ne_panic (routeBytes : Bytes) : parseRoute J routeBytes ≠ .panic := by
  unfold parseRoute
  cases J.fromSlice routeBytes with
  | ok v => simp
  | error e => simp [Outcome.ofExcept]

/-- A nonce that a slice of twelve bytes holds has twelve bytes. -/
theorem aes256GcmDecrypt_ne_panic {ε : Type} {nonce : Bytes} (hnonce : nonce.length = wrapNonceLen)
    (key : ByteBlock 32) (aad body : Bytes) :
    (P.aes256GcmDecrypt key.toList nonce aad body : Outcome ε _) ≠ .panic := by
  rcases P.aes256GcmDecrypt_cases (ε := ε) key nonce aad body with ⟨-, opened, hopened⟩ | ⟨hne, -⟩
  · rw [hopened]
    simp
  · exact absurd hnonce hne

/-- Up to the decrypted inner, all offsets are constants. -/
theorem tracedDecryptInner_inBounds (blob destHybridPriv : Bytes) :
    (tracedDecryptInner P J w blob destHybridPriv).InBounds w := by
  unfold tracedDecryptInner
  rw [inBounds_bind_iff]
  refine ⟨tracedSplitOuter_inBounds blob, ?_⟩
  rintro ⟨routeBytes, sealedPart⟩ -
  dsimp only
  rw [inBounds_guard]
  intro hlong
  have hroom : ciphertextLen + wrapNonceLen ≤ sealedPart.length :=
    le_trans (Nat.le_add_right _ _) (Nat.not_lt.mp hlong)
  have hciphertext : ciphertextLen ≤ sealedPart.length := le_trans (Nat.le_add_right _ _) hroom
  rw [inBounds_bind_iff, inBounds_lift_iff]
  refine ⟨parseRoute_ne_panic routeBytes, ?_⟩
  intro routeHdr _
  apply inBounds_slice_bind (Nat.zero_le _) hciphertext
  intro ciphertext _
  apply inBounds_slice_bind (Nat.le_add_right _ _) hroom
  intro nonce hnonce
  rw [Nat.add_sub_cancel_left] at hnonce
  apply inBounds_slice_bind hroom (Nat.le_refl _)
  intro body _
  rw [inBounds_bind_iff, inBounds_lift_iff, ne_eq, Outcome.mapErr_eq_panic_iff]
  refine ⟨hybridDecap_ne_panic P _ _, ?_⟩
  intro shared _
  rw [deriveWrapKey_eq, inBounds_lift_ok_bind, inBounds_bind_iff, inBounds_lift_iff]
  refine ⟨aes256GcmDecrypt_ne_panic hnonce _ _ _, ?_⟩
  intro inner _
  rw [inBounds_bind_iff, inBounds_lift_iff]
  exact ⟨Outcome.okOr_ne_panic _ _, fun _ _ => inBounds_pure _⟩

/-- Whatever was decrypted, opening stays in bounds exactly when it fits. -/
theorem tracedOpenInner_inBounds_iff {routeHdr : Value φ} {inner : Bytes} :
    (tracedOpenInner J w routeHdr inner).InBounds w ↔ InnerFits w inner := by
  unfold tracedOpenInner
  rw [inBounds_bind_iff, tracedSplitInner_inBounds_iff]
  apply and_iff_left_of_imp
  rintro - ⟨metaBytes, content⟩ -
  dsimp only
  rw [inBounds_bind_iff, inBounds_lift_iff]
  refine ⟨?_, fun _ _ => inBounds_pure _⟩
  cases J.fromSlice metaBytes with
  | ok v => simp
  | error e => simp [Outcome.ofExcept]

/-- What the envelope decrypts to fits, if it decrypts. -/
def EnvelopeFits (P : Primitives) (J : Parser φ) (w : Nat) (blob destHybridPriv : Bytes) : Prop :=
  ∀ routeHdr inner, (tracedDecryptInner P J w blob destHybridPriv).outcome = .ok (routeHdr, inner) →
    InnerFits w inner

theorem tracedOpenRouted_inBounds_iff {blob destHybridPriv : Bytes} :
    (tracedOpenRouted P J w blob destHybridPriv).InBounds w ↔
      EnvelopeFits P J w blob destHybridPriv := by
  unfold tracedOpenRouted EnvelopeFits
  rw [inBounds_bind_iff, and_iff_right (tracedDecryptInner_inBounds blob destHybridPriv)]
  simp only [Prod.forall, tracedOpenInner_inBounds_iff]

end Functions

/-- On a 64-bit machine the length field always leaves room. -/
theorem innerFits_64 (inner : Bytes) : InnerFits 64 inner := by
  intro n hn
  have hlt := (DmSession.room_of_lengthAt hn).2
  have hlen : lenPrefix = 4 := rfl
  omega

end InBounds

/-! ## The decoders together -/

/-- On machines with 32-bit and with 64-bit `usize`: the split of an envelope is
always in bounds, the token decoder exactly when the length fields of the token
fit, and the opening of an envelope exactly when the length field that it
decrypts does. -/
theorem index_arithmetic_safe_iff {φ : Type} {B : Base64.Engine} (laws : B.Laws)
    (P : Primitives) (J : Parser φ) {w : Nat} (hw : w = 32 ∨ w = 64) :
    (∀ token, (utf8 token).length < 2 ^ (w - 1) →
      (DmSession.tracedFromToken B w token).outcome = DmSession.fromToken B w token ∧
      ((DmSession.tracedFromToken B w token).InBounds w ↔ DmSession.TokenFits B w token)) ∧
    (∀ blob, (tracedSplitOuter w blob).outcome = splitOuter w blob ∧
      (tracedSplitOuter w blob).InBounds w) ∧
    (∀ inner, (tracedSplitInner w inner).outcome = splitInner w inner ∧
      ((tracedSplitInner w inner).InBounds w ↔ InnerFits w inner)) ∧
    (∀ blob destHybridPriv,
      (tracedOpenRouted P J w blob destHybridPriv).outcome = openRouted P J w blob destHybridPriv ∧
      ((tracedOpenRouted P J w blob destHybridPriv).InBounds w ↔
        EnvelopeFits P J w blob destHybridPriv)) ∧
    (w = 64 → (∀ token, (utf8 token).length < 2 ^ (w - 1) → DmSession.TokenFits B w token) ∧
      ∀ inner, InnerFits w inner) := by
  have hwide : 32 ≤ w := by omega
  refine ⟨?_, ?_, ?_, ?_, ?_⟩
  · intro token hlen
    exact ⟨DmSession.outcome_tracedFromToken w B token,
      DmSession.tracedFromToken_inBounds_iff laws hwide hlen⟩
  · intro blob
    exact ⟨outcome_tracedSplitOuter w blob, tracedSplitOuter_inBounds blob⟩
  · intro inner
    exact ⟨outcome_tracedSplitInner w inner, tracedSplitInner_inBounds_iff⟩
  · intro blob destHybridPriv
    exact ⟨outcome_tracedOpenRouted P J w blob destHybridPriv, tracedOpenRouted_inBounds_iff⟩
  · rintro rfl
    exact ⟨fun token hlen => DmSession.tokenFits_64 laws hlen, innerFits_64⟩

namespace Sample

/-- Sixteen zero bytes and the length field `FF FF FF FF`. -/
def wrappingToken : String := "pqdr1:AAAAAAAAAAAAAAAAAAAAAP////8="

/-- An inner that is one length field. -/
def wrappingInner : Bytes := [255, 255, 255, 252]

/-- An envelope to the sample key around any inner. -/
def envelopeAround (inner : Bytes) : Bytes :=
  let routeBytes := canonical (nested 1)
  let aad := buildAad routeBytes
  match hybridEncap primitives (hybridKeypair primitives keys).publicKey draws.encap with
  | .ok (ciphertext, shared) =>
      match primitives.aesGcmEncrypt (derivedKey primitives shared.toList aad) draws.nonce aad
        inner with
      | some body =>
          u32LenBe routeBytes.length ++ routeBytes ++ (ciphertext ++ draws.nonce.toList ++ body)
      | none => []
  | _ => []

end Sample

theorem index_arithmetic_safe_iff_sample :
    ((DmSession.tracedFromToken Base64.standard 32 DmSession.Sample.emptyToken).InBounds 32 ↔
      DmSession.TokenFits Base64.standard 32 DmSession.Sample.emptyToken) ∧
    ((tracedSplitInner 32 [0, 0, 0, 0, 7]).InBounds 32 ↔ InnerFits 32 [0, 0, 0, 0, 7]) := by
  have h := index_arithmetic_safe_iff Base64.standard_laws Sample.primitives Sample.parser
    (w := 32) (.inl rfl)
  exact ⟨(h.1 DmSession.Sample.emptyToken (by decide +kernel)).2, (h.2.2.1 [0, 0, 0, 0, 7]).2⟩

/-- With 32-bit `usize`, a short token and a short authenticated inner make the
decoders panic. -/
theorem wrapped_index_panics :
    ((utf8 Sample.wrappingToken).length < 2 ^ 31 ∧
      ¬ (DmSession.tracedFromToken Base64.standard 32 Sample.wrappingToken).InBounds 32 ∧
      DmSession.fromToken Base64.standard 32 Sample.wrappingToken = .panic) ∧
    (¬ (tracedOpenRouted Sample.primitives Sample.parser 32
        (Sample.envelopeAround Sample.wrappingInner)
        (hybridKeypair Sample.primitives Sample.keys).privateKey).InBounds 32 ∧
      openRouted Sample.primitives Sample.parser 32 (Sample.envelopeAround Sample.wrappingInner)
        (hybridKeypair Sample.primitives Sample.keys).privateKey = .panic) := by
  have htoken : DmSession.fromToken Base64.standard 32 Sample.wrappingToken = .panic := by
    decide +kernel
  have hopen : openRouted Sample.primitives Sample.parser 32
      (Sample.envelopeAround Sample.wrappingInner)
      (hybridKeypair Sample.primitives Sample.keys).privateKey = .panic := by
    decide +kernel
  refine ⟨⟨by decide +kernel, ?_, htoken⟩, ?_, hopen⟩
  · intro hin
    exact hin.2 ((DmSession.outcome_tracedFromToken 32 Base64.standard _).trans htoken)
  · intro hin
    exact hin.2 ((outcome_tracedOpenRouted _ _ 32 _ _).trans hopen)

end Pqroute
end SkPqc
