import SkPqc.Kem
import SkPqc.Pqroute.Canonical

/-!
# The routing envelope

This module embeds the sealing side and the opening side of `pqroute.rs`.  The
outer header is plaintext JSON behind a length prefix and is bound into the AAD;
the inner metadata and the content are sealed.  Indices are `usize` values of
`w` bits, whose unchecked additions wrap.

Main results:

- Theorem `openRouted_append`: what `open_routed` makes of a header, a
  ciphertext, a nonce and a body.
- Theorem `seal_open_round_trip_iff`: an envelope gives back what was sealed
  exactly when header and metadata nest below the limit of the JSON parser.
- Theorem `seal_open_round_trip_deep`: a header that nests deeper is sealed, and
  nobody can read it.
-/

namespace SkPqc
namespace Pqroute

open Rust Json Kem

/-! ## Interop constants -/

/-- The routing-envelope suite id. -/
def routeSuite : String := "pqroute1"

/-- HKDF label of the wrap key. -/
def infoWrap : Bytes := byteLit "skcomms/pqroute/wrap/v1"

abbrev lenPrefix : Nat := 4
abbrev wrapNonceLen : Nat := 12
abbrev aesgcmTagLen : Nat := 16
abbrev wrapKeyLen : Nat := 32

/-- `ct ‖ nonce ‖ tag`. -/
abbrev sealedMinLen : Nat := ciphertextLen + wrapNonceLen + aesgcmTagLen

/-- Errors of the routing envelope. -/
inductive PqRouteError where
  /-- A malformed envelope or a wrong-length key. -/
  | format (msg : String)
  /-- Opening failed. -/
  | «open» (msg : String)
  | kem (error : KemError)
deriving DecidableEq, Repr

/-- What one seal draws from `OsRng`. -/
structure SealDraws where
  encap : EncapDraws
  nonce : ByteBlock wrapNonceLen

/-! ## The envelope functions -/

/-- `pqroute1|` and the canonical header. -/
def buildAad (routeCanonical : Bytes) : Bytes := utf8 routeSuite ++ byteLit "|" ++ routeCanonical

/-- `usize::checked_add`. -/
def checkedAdd (w a b : Nat) : Option Nat := if a + b < 2 ^ w then some (a + b) else none

/-- `u32::from_be_bytes([xs[0], xs[1], xs[2], xs[3]]) as usize`. -/
def leadingU32 {ε : Type} (xs : Bytes) : Outcome ε Nat := do
  let b0 ← index xs 0
  let b1 ← index xs 1
  let b2 ← index xs 2
  let b3 ← index xs 3
  pure (u32OfBe ⟨[b0, b1, b2, b3], rfl⟩)

/-- Split an envelope into the header bytes and the sealed part. -/
def splitOuter (w : Nat) (blob : Bytes) : Outcome PqRouteError (Bytes × Bytes) :=
  if blob.length < lenPrefix then
    .err (.format "blob too short for a route-header length prefix")
  else do
    let hdrLen ← leadingU32 blob
    let stop ← Outcome.okOr (.format "route header length overflow")
      (checkedAdd w lenPrefix hdrLen)
    if stop > blob.length then
      .err (.format "route header length exceeds blob size")
    else do
      let routeBytes ← slice blob lenPrefix stop
      let sealedPart ← slice blob stop blob.length
      pure (routeBytes, sealedPart)

/-- Split a decrypted inner into the metadata bytes and the content. -/
def splitInner (w : Nat) (inner : Bytes) : Outcome PqRouteError (Bytes × Bytes) :=
  if inner.length < lenPrefix then
    .err (.open "decrypted inner is truncated")
  else do
    let metaLen ← leadingU32 inner
    let stop := (lenPrefix + metaLen) % 2 ^ w
    if stop > inner.length then
      .err (.open "decrypted inner metadata length is out of range")
    else do
      let metaBytes ← slice inner lenPrefix stop
      let content ← slice inner stop inner.length
      pure (metaBytes, content)

section Functions

variable {φ : Type} [F64 φ] (P : Primitives) (J : Parser φ)

/-- The wrap key of a shared secret and an AAD. -/
def deriveWrapKey {ε : Type} (shared aad : Bytes) : Outcome ε (ByteBlock wrapKeyLen) :=
  P.hkdfExpand [] shared (infoWrap ++ byteLit "|" ++ aad) wrapKeyLen

/-- The plaintext of the sealed part. -/
def innerBytes (innerMetadata : Value φ) (content : Bytes) : Bytes :=
  u32LenBe (canonical innerMetadata).length ++ canonical innerMetadata ++ content

/-- Build an envelope: a plaintext header and a sealed inner. -/
def sealRouted (innerMetadata : Value φ) (content destHybridPub : Bytes) (routeHdr : Value φ)
    (draws : SealDraws) : Outcome PqRouteError Bytes :=
  if destHybridPub.length ≠ publicKeyLen then
    .err (.format s!"dest_hybrid_pub must be {publicKeyLen} bytes, got {destHybridPub.length}")
  else do
    let routeBytes := canonical routeHdr
    let inner := innerBytes innerMetadata content
    let aad := buildAad routeBytes
    let (ciphertext, shared) ← (hybridEncap P destHybridPub draws.encap).mapErr .kem
    let wrapKey ← deriveWrapKey P shared.toList aad
    let sealedInner ← P.aes256GcmEncrypt wrapKey.toList draws.nonce.toList aad inner
    let sealedInner ← Outcome.okOr (.format "AES-256-GCM seal failed") sealedInner
    pure (u32LenBe routeBytes.length ++ routeBytes ++
      (ciphertext ++ draws.nonce.toList ++ sealedInner))

omit [F64 φ] in
/-- The header of an envelope, parsed. -/
def parseRoute (routeBytes : Bytes) : Outcome PqRouteError (Value φ) :=
  (Outcome.ofExcept (J.fromSlice routeBytes)).mapErr
    fun e => .format s!"route header not valid JSON: {e}"

/-- Read the outer header, without decryption. -/
def readRouteHeader (w : Nat) (blob : Bytes) : Outcome PqRouteError (Value φ) := do
  let (routeBytes, _) ← splitOuter w blob
  parseRoute J routeBytes

/-- Replace the outer header; the sealed part stays. -/
def replaceRouteHeader (w : Nat) (blob : Bytes) (newRouteHdr : Value φ) :
    Outcome PqRouteError Bytes := do
  let (_, sealedPart) ← splitOuter w blob
  let routeBytes := canonical newRouteHdr
  pure (u32LenBe routeBytes.length ++ routeBytes ++ sealedPart)

/-- The text of a failed AEAD open. -/
def openFailedText : String :=
  "pqroute1 open failed — wrong key, tampered inner, or a rewritten route " ++
    "header (the header is AEAD-bound)"

/-- What `open_routed` does with a decrypted inner. -/
def openInner (w : Nat) (routeHdr : Value φ) (inner : Bytes) :
    Outcome PqRouteError (Value φ × Value φ × Bytes) := do
  let (metaBytes, content) ← splitInner w inner
  let innerMetadata ← (Outcome.ofExcept (J.fromSlice metaBytes)).mapErr
    fun e => .open s!"inner metadata not valid JSON: {e}"
  pure (routeHdr, innerMetadata, content)

/-- Open an envelope with the destination's private key. -/
def openRouted (w : Nat) (blob destHybridPriv : Bytes) :
    Outcome PqRouteError (Value φ × Value φ × Bytes) := do
  let (routeBytes, sealedPart) ← splitOuter w blob
  if sealedPart.length < sealedMinLen then
    .err (.format s!"sealed inner must be >= {sealedMinLen} bytes, got {sealedPart.length}")
  else do
    let routeHdr ← parseRoute J routeBytes
    let ciphertext ← slice sealedPart 0 ciphertextLen
    let nonce ← slice sealedPart ciphertextLen (ciphertextLen + wrapNonceLen)
    let body ← slice sealedPart (ciphertextLen + wrapNonceLen) sealedPart.length
    let aad := buildAad routeBytes
    let shared ← (hybridDecap P ciphertext destHybridPriv).mapErr
      fun e => .open s!"hybrid decapsulation failed: {e.display}"
    let wrapKey ← deriveWrapKey P shared.toList aad
    let inner ← P.aes256GcmDecrypt wrapKey.toList nonce aad body
    let inner ← Outcome.okOr (.open openFailedText) inner
    openInner J w routeHdr inner

end Functions

/-! ## Length prefixes -/

theorem leadingU32_append {ε : Type} {len : Nat} (hlen : len < 2 ^ 32) (rest : Bytes) :
    (leadingU32 (u32LenBe len ++ rest) : Outcome ε Nat) = .ok len := by
  rcases exists_block (length_u32LenBe len) with ⟨⟨bytes, hbytes⟩, hfield⟩
  rcases List.length_eq_four.mp hbytes with ⟨b0, b1, b2, b3, rfl⟩
  have hread := u32OfBe_of_toList_eq hlen hfield.symm
  rw [hfield, ← hread]
  rfl

/-- A length-prefixed field at the head of a blob. -/
theorem slice_prefixed {ε : Type} (field rest : Bytes) :
    (slice (u32LenBe field.length ++ field ++ rest) lenPrefix (lenPrefix + field.length) :
        Outcome ε Bytes) = .ok field ∧
      (slice (u32LenBe field.length ++ field ++ rest) (lenPrefix + field.length)
        (u32LenBe field.length ++ field ++ rest).length : Outcome ε Bytes) = .ok rest := by
  constructor
  · exact slice_append_middle (length_u32LenBe _) rfl
  · refine slice_append_right ?_ ?_
    · rw [List.length_append, length_u32LenBe]
    · rw [List.length_append, List.length_append, length_u32LenBe]

theorem splitOuter_append {routeBytes : Bytes} (hlen : routeBytes.length < 2 ^ 32)
    (sealedPart : Bytes) :
    splitOuter 64 (u32LenBe routeBytes.length ++ routeBytes ++ sealedPart) =
      .ok (routeBytes, sealedPart) := by
  have hblob : (u32LenBe routeBytes.length ++ routeBytes ++ sealedPart).length =
      lenPrefix + routeBytes.length + sealedPart.length := by
    rw [List.length_append, List.length_append, length_u32LenBe]
  have hstop : checkedAdd 64 lenPrefix routeBytes.length = some (lenPrefix + routeBytes.length) :=
    if_pos (by simp only [lenPrefix]; omega)
  have hprefix : (leadingU32 (u32LenBe routeBytes.length ++ routeBytes ++ sealedPart) :
      Outcome PqRouteError Nat) = .ok routeBytes.length := by
    rw [List.append_assoc]
    exact leadingU32_append hlen _
  have hslices := slice_prefixed (ε := PqRouteError) routeBytes sealedPart
  unfold splitOuter
  rw [if_neg (by omega), hprefix, Outcome.ok_bind, hstop, Outcome.okOr_some, Outcome.ok_bind,
    if_neg (by omega), hslices.1, Outcome.ok_bind, hslices.2]
  rfl

theorem splitInner_append {metaBytes : Bytes} (hlen : metaBytes.length < 2 ^ 32)
    (content : Bytes) :
    splitInner 64 (u32LenBe metaBytes.length ++ metaBytes ++ content) =
      .ok (metaBytes, content) := by
  have hinner : (u32LenBe metaBytes.length ++ metaBytes ++ content).length =
      lenPrefix + metaBytes.length + content.length := by
    rw [List.length_append, List.length_append, length_u32LenBe]
  have hstop : (lenPrefix + metaBytes.length) % 2 ^ 64 = lenPrefix + metaBytes.length :=
    Nat.mod_eq_of_lt (by simp only [lenPrefix]; omega)
  have hprefix : (leadingU32 (u32LenBe metaBytes.length ++ metaBytes ++ content) :
      Outcome PqRouteError Nat) = .ok metaBytes.length := by
    rw [List.append_assoc]
    exact leadingU32_append hlen _
  have hslices := slice_prefixed (ε := PqRouteError) metaBytes content
  unfold splitInner
  rw [if_neg (by omega), hprefix, Outcome.ok_bind]
  simp only [hstop]
  rw [if_neg (by omega), hslices.1, Outcome.ok_bind, hslices.2]
  rfl

section RoundTrip

variable {φ : Type} [F64 φ] {P : Primitives} {J : Parser φ}

/-! ## What the functions return -/

/-- The wrap key of a shared secret and an AAD. -/
def derivedKey (P : Primitives) (shared aad : Bytes) : ByteBlock wrapKeyLen :=
  P.hkdfSha256 [] shared (infoWrap ++ byteLit "|" ++ aad) wrapKeyLen

theorem deriveWrapKey_eq {ε : Type} (shared aad : Bytes) :
    (deriveWrapKey P shared aad : Outcome ε _) = .ok (derivedKey P shared aad) :=
  P.hkdfExpand_32 _ _ _

/-- What a seal that returned has put into the envelope. -/
theorem exists_of_sealRouted_eq_ok {innerMetadata routeHdr : Value φ}
    {content destHybridPub blob : Bytes} {draws : SealDraws}
    (h : sealRouted P innerMetadata content destHybridPub routeHdr draws = .ok blob) :
    ∃ ciphertext shared body,
      hybridEncap P destHybridPub draws.encap = .ok (ciphertext, shared) ∧
      P.aesGcmEncrypt (derivedKey P shared.toList (buildAad (canonical routeHdr))) draws.nonce
        (buildAad (canonical routeHdr)) (innerBytes innerMetadata content) = some body ∧
      blob = u32LenBe (canonical routeHdr).length ++ canonical routeHdr ++
        (ciphertext ++ draws.nonce.toList ++ body) := by
  unfold sealRouted at h
  rw [Outcome.guard_eq_ok_iff, Outcome.bind_eq_ok_iff] at h
  rcases h with ⟨-, ⟨ciphertext, shared⟩, hencap, h⟩
  simp only [deriveWrapKey_eq, Outcome.ok_bind, Primitives.aes256GcmEncrypt_toList] at h
  rw [Outcome.bind_eq_ok_iff] at h
  rcases h with ⟨body, hbody, h⟩
  cases h
  exact ⟨ciphertext, shared, body, Outcome.mapErr_eq_ok_iff.mp hencap,
    Outcome.okOr_eq_ok_iff.mp hbody, rfl⟩

omit [F64 φ] in
/-- Reading the header of an envelope parses the bytes behind its prefix. -/
theorem readRouteHeader_append {routeBytes : Bytes} (hlen : routeBytes.length < 2 ^ 32)
    (sealedPart : Bytes) :
    readRouteHeader J 64 (u32LenBe routeBytes.length ++ routeBytes ++ sealedPart) =
      parseRoute J routeBytes := by
  rw [readRouteHeader, splitOuter_append hlen, Outcome.ok_bind]

omit [F64 φ] in
/-- Opening an envelope given by its header, ciphertext, nonce and body. -/
theorem openRouted_append {routeBytes ciphertext body : Bytes}
    (hlen : routeBytes.length < 2 ^ 32) (hciphertext : ciphertext.length = ciphertextLen)
    (hbody : aesgcmTagLen ≤ body.length) (nonce : ByteBlock wrapNonceLen)
    (destHybridPriv : Bytes) :
    openRouted P J 64 (u32LenBe routeBytes.length ++ routeBytes ++
        (ciphertext ++ nonce.toList ++ body)) destHybridPriv =
      (parseRoute J routeBytes >>= fun routeHdr =>
        (hybridDecap P ciphertext destHybridPriv).mapErr
            (fun e => .open s!"hybrid decapsulation failed: {e.display}") >>= fun shared =>
          Outcome.okOr (.open openFailedText)
              (P.aesGcmDecrypt (derivedKey P shared.toList (buildAad routeBytes)) nonce
                (buildAad routeBytes) body) >>= fun inner =>
            openInner J 64 routeHdr inner) := by
  have hsealed : (ciphertext ++ nonce.toList ++ body).length =
      ciphertextLen + wrapNonceLen + body.length := by
    rw [List.length_append, List.length_append, hciphertext, List.Vector.toList_length]
  have hmin : ¬ (ciphertext ++ nonce.toList ++ body).length < sealedMinLen := by
    rw [hsealed]
    exact Nat.not_lt.mpr (Nat.add_le_add_left hbody _)
  unfold openRouted
  rw [splitOuter_append hlen, Outcome.ok_bind]
  dsimp only
  rw [if_neg hmin, List.append_assoc ciphertext, slice_append_left hciphertext,
    ← List.append_assoc, slice_append_middle hciphertext (by simp),
    slice_append_right (by simp [hciphertext]) (by rw [hsealed])]
  simp only [Outcome.ok_bind, deriveWrapKey_eq, Primitives.aes256GcmDecrypt_toList]

/-! ## The round trip -/

/-- The parser returns a value from its canonical text exactly when the value
nests below the limit. -/
theorem fromSlice_canonical (json : J.Laws) {v : Value φ} (hv : v.Formed Number.IsInteger) :
    (v.depth < 128 → J.fromSlice (canonical v) = .ok v) ∧
      (¬ v.depth < 128 → ∃ e, J.fromSlice (canonical v) = .error e) := by
  rw [canonical_eq_render hv]
  exact json.fromSlice_render encodeStringAscii_readBack hv

/-- Opening a sealed envelope with the matching key parses the two texts. -/
theorem openRouted_sealRouted (kem : P.KemLaws) (aead : P.AeadLaws) {keys : KeypairDraws}
    {draws : SealDraws} {innerMetadata routeHdr : Value φ} {content blob : Bytes}
    (hroute : (canonical routeHdr).length < 2 ^ 32)
    (hmeta : (canonical innerMetadata).length < 2 ^ 32)
    (hseal : sealRouted P innerMetadata content (hybridKeypair P keys).publicKey routeHdr draws =
      .ok blob) :
    readRouteHeader J 64 blob = parseRoute J (canonical routeHdr) ∧
      openRouted P J 64 blob (hybridKeypair P keys).privateKey =
        (parseRoute J (canonical routeHdr) >>= fun routeHdr' =>
          (Outcome.ofExcept (J.fromSlice (canonical innerMetadata))).mapErr
              (fun e => .open s!"inner metadata not valid JSON: {e}") >>= fun innerMetadata' =>
            .ok (routeHdr', innerMetadata', content)) := by
  rcases exists_of_sealRouted_eq_ok hseal with ⟨ciphertext, shared, body, hencap, hbody, rfl⟩
  have htag : aesgcmTagLen ≤ body.length := by
    rw [aead.length_encrypt _ _ _ _ _ hbody]
    exact Nat.le_add_left _ _
  refine ⟨readRouteHeader_append hroute _, ?_⟩
  rw [openRouted_append hroute (length_of_hybridEncap P hencap) htag,
    hybridDecap_hybridEncap kem hencap, Outcome.mapErr_ok]
  simp only [Outcome.ok_bind, aead.decrypt_encrypt _ _ _ _ _ hbody, Outcome.okOr_some, openInner,
    innerBytes, splitInner_append hmeta, Outcome.pure_eq]

/-- A sealed envelope gives back the header, the metadata and the content
exactly when header and metadata nest less than 128 levels deep. -/
theorem seal_open_round_trip_iff (kem : P.KemLaws) (aead : P.AeadLaws) (json : J.Laws)
    {keys : KeypairDraws} {draws : SealDraws} {innerMetadata routeHdr : Value φ}
    {content blob : Bytes} (hroute : routeHdr.Formed Number.IsInteger)
    (hmeta : innerMetadata.Formed Number.IsInteger)
    (hrouteLen : (canonical routeHdr).length < 2 ^ 32)
    (hmetaLen : (canonical innerMetadata).length < 2 ^ 32)
    (hseal : sealRouted P innerMetadata content (hybridKeypair P keys).publicKey routeHdr draws =
      .ok blob) :
    (readRouteHeader J 64 blob = .ok routeHdr ∧
        openRouted P J 64 blob (hybridKeypair P keys).privateKey =
          .ok (routeHdr, innerMetadata, content)) ↔
      routeHdr.depth < 128 ∧ innerMetadata.depth < 128 := by
  have hboth := openRouted_sealRouted (J := J) kem aead hrouteLen hmetaLen hseal
  have hread := fromSlice_canonical json hroute
  have hinner := fromSlice_canonical json hmeta
  rw [hboth.1, hboth.2]
  constructor
  · rintro ⟨hheader, hopen⟩
    have hdepth : routeHdr.depth < 128 := by
      by_contra hdeep
      rcases hread.2 hdeep with ⟨e, he⟩
      rw [parseRoute, he] at hheader
      cases hheader
    refine ⟨hdepth, ?_⟩
    by_contra hdeep
    rcases hinner.2 hdeep with ⟨e, he⟩
    rw [hheader, Outcome.ok_bind, he] at hopen
    cases hopen
  · rintro ⟨hdepth, hdepth'⟩
    have hheader : parseRoute J (canonical routeHdr) = .ok routeHdr := by
      rw [parseRoute, hread.1 hdepth, Outcome.ofExcept_ok, Outcome.mapErr_ok]
    refine ⟨hheader, ?_⟩
    rw [hheader, Outcome.ok_bind, hinner.1 hdepth', Outcome.ofExcept_ok, Outcome.mapErr_ok,
      Outcome.ok_bind]

end RoundTrip

/-! ## Sample envelopes -/

namespace Sample

def keys : KeypairDraws := ⟨List.Vector.replicate 32 7, List.Vector.replicate 64 7⟩

def draws : SealDraws where
  encap := ⟨List.Vector.replicate 32 7, List.Vector.replicate 32 7⟩
  nonce := List.Vector.replicate 12 7

def primitives : Primitives := Primitives.transparent

def parser : Parser Int := Parser.documented fun _ => none

/-- `depth` arrays around nothing. -/
def nested : Nat → Value Int
  | 0 => .null
  | depth + 1 => .array [nested depth]

def sealedAs (routeHdr : Value Int) : Outcome PqRouteError Bytes :=
  sealRouted primitives (nested 0) [104, 105] (hybridKeypair primitives keys).publicKey routeHdr
    draws

def blobOf (routeHdr : Value Int) : Bytes :=
  match sealedAs routeHdr with
  | .ok blob => blob
  | _ => []

theorem nested_formed (depth : Nat) : (nested depth).Formed Number.IsInteger := by
  induction depth with
  | zero => exact .null
  | succ depth ih =>
      refine .array fun v hv => ?_
      rw [List.mem_singleton.mp hv]
      exact ih

theorem depth_nested (depth : Nat) : (nested depth).depth = depth := by
  induction depth with
  | zero => rfl
  | succ depth ih => simp [nested, Value.depth, depthItems, ih]

end Sample

/-- A flat header comes back. -/
theorem seal_open_round_trip_iff_sample :
    readRouteHeader Sample.parser 64 (Sample.blobOf (Sample.nested 1)) = .ok (Sample.nested 1) ∧
      openRouted Sample.primitives Sample.parser 64 (Sample.blobOf (Sample.nested 1))
          (hybridKeypair Sample.primitives Sample.keys).privateKey =
        .ok (Sample.nested 1, Sample.nested 0, [104, 105]) := by
  have hseal : Sample.sealedAs (Sample.nested 1) = .ok (Sample.blobOf (Sample.nested 1)) := by
    decide +kernel
  exact (seal_open_round_trip_iff (Primitives.tagged_kemLaws _) (Primitives.tagged_aeadLaws _)
    (Parser.documented_laws _) (Sample.nested_formed 1) (Sample.nested_formed 0)
    (by decide +kernel) (by decide +kernel) hseal).mpr (by decide)

/-- A header of 128 nested arrays is sealed, and cannot be read again. -/
theorem seal_open_round_trip_deep :
    (Sample.primitives.KemLaws ∧ Sample.primitives.AeadLaws ∧ Sample.parser.Laws) ∧
      (Sample.nested 128).Formed Number.IsInteger ∧
      (canonical (Sample.nested 128)).length < 2 ^ 32 ∧
      Sample.sealedAs (Sample.nested 128) = .ok (Sample.blobOf (Sample.nested 128)) ∧
      ∃ e, readRouteHeader Sample.parser 64 (Sample.blobOf (Sample.nested 128)) = .err e := by
  have hlen : (canonical (Sample.nested 128)).length < 2 ^ 32 := by decide +kernel
  have hseal : Sample.sealedAs (Sample.nested 128) = .ok (Sample.blobOf (Sample.nested 128)) := by
    decide +kernel
  have json : Sample.parser.Laws := Parser.documented_laws _
  refine ⟨⟨Primitives.tagged_kemLaws _, Primitives.tagged_aeadLaws _, json⟩,
    Sample.nested_formed 128, hlen, hseal, ?_⟩
  rcases exists_of_sealRouted_eq_ok hseal with ⟨ciphertext, shared, body, -, -, hblob⟩
  have hdeep : ¬ (Sample.nested 128).depth < 128 := by
    rw [Sample.depth_nested]
    exact Nat.lt_irrefl 128
  rcases (fromSlice_canonical json (Sample.nested_formed 128)).2 hdeep with ⟨e, he⟩
  rw [hblob, readRouteHeader_append hlen, parseRoute, he]
  exact ⟨_, rfl⟩

end Pqroute
end SkPqc
