import SkPqc.Pqroute.Envelope

/-!
# Rewriting the header

A relay may replace the plaintext header of an envelope; the sealed part stays.
The header is bound into the AAD of the seal, so the destination opens the
result only under the header that the sender chose.

Main results:

- Theorem `replaceRouteHeader_withHeader`: replacing a header keeps exactly the
  sealed part.
- Theorem `openRouted_withHeader_of_ne`: any other header is refused.
- Theorem `rewritten_header_is_rejected`: a rewrite succeeds, is read back, can
  be undone, and opens exactly when it changes nothing.
-/

namespace SkPqc
namespace Pqroute

open Rust Json Kem

section HeaderRewrite

variable {φ : Type} [F64 φ] {P : Primitives} {J : Parser φ}

/-- An envelope with a given header and sealed part. -/
def withHeader (routeHdr : Value φ) (sealedPart : Bytes) : Bytes :=
  u32LenBe (canonical routeHdr).length ++ canonical routeHdr ++ sealedPart

/-- Replacing a header keeps exactly the sealed part. -/
theorem replaceRouteHeader_withHeader {routeHdr : Value φ}
    (hlen : (canonical routeHdr).length < 2 ^ 32) (sealedPart : Bytes) (newRouteHdr : Value φ) :
    replaceRouteHeader 64 (withHeader routeHdr sealedPart) newRouteHdr =
      .ok (withHeader newRouteHdr sealedPart) := by
  rw [replaceRouteHeader, withHeader, splitOuter_append hlen, Outcome.ok_bind]
  rfl

/-- A header that nests below the limit is read back. -/
theorem parseRoute_canonical (json : J.Laws) {routeHdr : Value φ}
    (hroute : routeHdr.Formed Number.IsInteger) (hdepth : routeHdr.depth < 128) :
    parseRoute J (canonical routeHdr) = .ok routeHdr := by
  rw [parseRoute, (fromSlice_canonical json hroute).1 hdepth, Outcome.ofExcept_ok,
    Outcome.mapErr_ok]

/-- The AAD determines the header. -/
theorem eq_of_buildAad_canonical {u v : Value φ} (hu : u.Formed Number.IsInteger)
    (hv : v.Formed Number.IsInteger)
    (h : buildAad (canonical u) = buildAad (canonical v)) : u = v := by
  have htexts : canonical u = canonical v := List.append_cancel_left h
  exact canonical_injective hu hv htexts

/-- A body that was sealed under one header is refused under any other. -/
theorem openRouted_withHeader_of_ne (kem : P.KemLaws) (json : J.Laws) {keys : KeypairDraws}
    {draws : EncapDraws} {nonce : ByteBlock wrapNonceLen} {routeHdr routeHdr' : Value φ}
    {ciphertext body : Bytes} {shared : ByteBlock sharedSecretLen}
    (hroute : routeHdr.Formed Number.IsInteger) (hroute' : routeHdr'.Formed Number.IsInteger)
    (hlen' : (canonical routeHdr').length < 2 ^ 32) (hdepth' : routeHdr'.depth < 128)
    (hencap : hybridEncap P (hybridKeypair P keys).publicKey draws = .ok (ciphertext, shared))
    (htag : aesgcmTagLen ≤ body.length)
    (honly : P.OpensOnlyUnder (derivedKey P shared.toList (buildAad (canonical routeHdr))) nonce
      (buildAad (canonical routeHdr)) body)
    (hne : routeHdr' ≠ routeHdr) :
    openRouted P J 64 (withHeader routeHdr' (ciphertext ++ nonce.toList ++ body))
        (hybridKeypair P keys).privateKey = .err (.open openFailedText) := by
  rw [withHeader, openRouted_append hlen' (length_of_hybridEncap P hencap) htag,
    parseRoute_canonical json hroute' hdepth', hybridDecap_hybridEncap kem hencap,
    Outcome.mapErr_ok, Outcome.ok_bind, Outcome.ok_bind]
  cases hplain : P.aesGcmDecrypt (derivedKey P shared.toList (buildAad (canonical routeHdr')))
      nonce (buildAad (canonical routeHdr')) body with
  | none => rfl
  | some inner =>
      have haad := (honly _ _ _ _ hplain).2.2
      exact absurd (eq_of_buildAad_canonical hroute' hroute haad) hne

/-- Where the body of an envelope with this header begins. -/
def bodyOffset (routeHdr : Value φ) : Nat :=
  lenPrefix + (canonical routeHdr).length + (ciphertextLen + wrapNonceLen)

theorem drop_bodyOffset {routeHdr : Value φ} {ciphertext body : Bytes}
    (hciphertext : ciphertext.length = ciphertextLen) (nonce : ByteBlock wrapNonceLen) :
    (withHeader routeHdr (ciphertext ++ nonce.toList ++ body)).drop (bodyOffset routeHdr) =
      body := by
  have hfront : (u32LenBe (canonical routeHdr).length ++ canonical routeHdr ++
      (ciphertext ++ nonce.toList)).length = bodyOffset routeHdr := by
    simp only [List.length_append, length_u32LenBe, hciphertext, List.Vector.toList_length,
      bodyOffset, lenPrefix]
  rw [withHeader, ← List.append_assoc]
  exact List.drop_left' hfront

/-- A rewritten header is accepted by `replace_route_header`, is read back, can
be replaced by the old one again, and opens exactly when it is the old one. -/
theorem rewritten_header_is_rejected (kem : P.KemLaws) (aead : P.AeadLaws) (json : J.Laws)
    {keys : KeypairDraws} {draws : SealDraws} {innerMetadata routeHdr routeHdr' : Value φ}
    {content blob : Bytes}
    (hroute : routeHdr.Formed Number.IsInteger) (hrouteDepth : routeHdr.depth < 128)
    (hrouteLen : (canonical routeHdr).length < 2 ^ 32)
    (hroute' : routeHdr'.Formed Number.IsInteger) (hrouteDepth' : routeHdr'.depth < 128)
    (hrouteLen' : (canonical routeHdr').length < 2 ^ 32)
    (hmeta : innerMetadata.Formed Number.IsInteger) (hmetaDepth : innerMetadata.depth < 128)
    (hmetaLen : (canonical innerMetadata).length < 2 ^ 32)
    (hseal : sealRouted P innerMetadata content (hybridKeypair P keys).publicKey routeHdr draws =
      .ok blob)
    (hideal : P.IdealBody (innerBytes innerMetadata content) (blob.drop (bodyOffset routeHdr))) :
    replaceRouteHeader 64 blob routeHdr = .ok blob ∧
      ∃ blob', replaceRouteHeader 64 blob routeHdr' = .ok blob' ∧
        readRouteHeader J 64 blob' = .ok routeHdr' ∧
        replaceRouteHeader 64 blob' routeHdr = .ok blob ∧
        (routeHdr' = routeHdr →
          openRouted P J 64 blob' (hybridKeypair P keys).privateKey =
            .ok (routeHdr, innerMetadata, content)) ∧
        (routeHdr' ≠ routeHdr →
          ∃ msg, openRouted P J 64 blob' (hybridKeypair P keys).privateKey =
            .err (.open msg)) := by
  have hopens := ((seal_open_round_trip_iff kem aead json hroute hmeta hrouteLen hmetaLen
    hseal).mpr ⟨hrouteDepth, hmetaDepth⟩).2
  rcases exists_of_sealRouted_eq_ok hseal with ⟨ciphertext, shared, body, hencap, hbody, hblob⟩
  have hciphertext := length_of_hybridEncap P hencap
  have htag : aesgcmTagLen ≤ body.length := by
    rw [aead.length_encrypt _ _ _ _ _ hbody]
    exact Nat.le_add_left _ _
  have hsealed : blob = withHeader routeHdr (ciphertext ++ draws.nonce.toList ++ body) := hblob
  have honly : P.OpensOnlyUnder (derivedKey P shared.toList (buildAad (canonical routeHdr)))
      draws.nonce (buildAad (canonical routeHdr)) body := by
    rw [hsealed, drop_bodyOffset hciphertext] at hideal
    exact hideal _ _ _ hbody
  refine ⟨?_, withHeader routeHdr' (ciphertext ++ draws.nonce.toList ++ body), ?_, ?_, ?_, ?_, ?_⟩
  · rw [hsealed]
    exact replaceRouteHeader_withHeader hrouteLen _ _
  · rw [hsealed]
    exact replaceRouteHeader_withHeader hrouteLen _ _
  · rw [withHeader, readRouteHeader_append hrouteLen']
    exact parseRoute_canonical json hroute' hrouteDepth'
  · rw [hsealed]
    exact replaceRouteHeader_withHeader hrouteLen' _ _
  · intro hsame
    rw [hsame, ← hsealed]
    exact hopens
  · intro hother
    exact ⟨openFailedText, openRouted_withHeader_of_ne kem json hroute hroute' hrouteLen'
      hrouteDepth' hencap htag honly hother⟩

end HeaderRewrite

/-! ## A sample rewrite -/

namespace Sample

/-- The AEAD seals once, under the header `[null]`. -/
def boundPrimitives : Primitives :=
  Primitives.tagged (Primitives.onlyTag (List.Vector.replicate 32 14)
    (List.Vector.replicate 12 7) (buildAad (canonical (nested 1))))

def boundBlob : Bytes :=
  match sealRouted boundPrimitives (nested 0) [104, 105]
    (hybridKeypair boundPrimitives keys).publicKey (nested 1) draws with
  | .ok blob => blob
  | _ => []

/-- What opening gives after the header is replaced. -/
def reopened (newRouteHdr : Value Int) : Outcome PqRouteError (Value Int × Value Int × Bytes) := do
  let blob ← replaceRouteHeader 64 boundBlob newRouteHdr
  openRouted boundPrimitives parser 64 blob (hybridKeypair boundPrimitives keys).privateKey

end Sample

/-- The header `[null]` opens, `[[null]]` in its place does not. -/
theorem rewritten_header_is_rejected_sample :
    Sample.reopened (Sample.nested 1) = .ok (Sample.nested 1, Sample.nested 0, [104, 105]) ∧
      ∃ msg, Sample.reopened (Sample.nested 2) = .err (.open msg) := by
  have kem : Sample.boundPrimitives.KemLaws := Primitives.tagged_kemLaws _
  have aead : Sample.boundPrimitives.AeadLaws := Primitives.tagged_aeadLaws _
  have json : Sample.parser.Laws := Parser.documented_laws _
  have hseal : sealRouted Sample.boundPrimitives (Sample.nested 0) [104, 105]
      (hybridKeypair Sample.boundPrimitives Sample.keys).publicKey (Sample.nested 1) Sample.draws =
      .ok Sample.boundBlob := by
    decide +kernel
  have hbody : List.replicate 16 1 <:+ Sample.boundBlob.drop (bodyOffset (Sample.nested 1)) := by
    decide +kernel
  have hideal : Sample.boundPrimitives.IdealBody (innerBytes (Sample.nested 0) [104, 105])
      (Sample.boundBlob.drop (bodyOffset (Sample.nested 1))) :=
    Primitives.onlyTag_idealBody _ hbody
  have hlens : (canonical (Sample.nested 0)).length < 2 ^ 32 ∧
      (canonical (Sample.nested 1)).length < 2 ^ 32 ∧
      (canonical (Sample.nested 2)).length < 2 ^ 32 := by
    decide +kernel
  have hsame := rewritten_header_is_rejected kem aead json (Sample.nested_formed 1) (by decide)
    hlens.2.1 (Sample.nested_formed 1) (by decide) hlens.2.1 (Sample.nested_formed 0) (by decide)
    hlens.1 hseal hideal
  have hother := rewritten_header_is_rejected kem aead json (Sample.nested_formed 1) (by decide)
    hlens.2.1 (Sample.nested_formed 2) (by decide) hlens.2.2 (Sample.nested_formed 0) (by decide)
    hlens.1 hseal hideal
  constructor
  · obtain ⟨-, blob', hreplace, -, -, hopen, -⟩ := hsame
    rw [Sample.reopened, hreplace, Outcome.ok_bind]
    exact hopen rfl
  · obtain ⟨-, blob', hreplace, -, -, -, hrefuse⟩ := hother
    rw [Sample.reopened, hreplace, Outcome.ok_bind]
    apply hrefuse
    intro heq
    have hdepth := congrArg Value.depth heq
    rw [Sample.depth_nested, Sample.depth_nested] at hdepth
    exact absurd hdepth (by decide)

end Pqroute
end SkPqc
