import SkPqc.IndexSafety
import SkPqc.Malleability
import SkPqc.Pqroute.HeaderRewrite

/-!
# Modified envelopes

The destination computes the AAD from the header bytes of the envelope it is
handed, without parsing them first, so another spelling of the same JSON header
is another header.  The sealed part is laid out as a sealed blob is, and what
is said there of the X25519 value holds here too.

Main results:

- Theorem `splitOuter_eq_ok_iff`: the envelopes that have a header and a sealed
  part.
- Theorem `openRouted_of_leadsTo`: an envelope that leads to a sealing opens to the
  content of that sealing.
- Theorem `modified_envelope_refused`: with ideal primitives, an envelope is
  refused, unless it is that of another sealing, or differs from the sealed one
  in the X25519 value only and leads to the same X25519 secret.
- Theorem `relay_chain`: whatever a chain of relays writes into the header, the
  destination opens the envelope exactly when the last of them has put the
  header of the sender back.
-/

namespace SkPqc
namespace Pqroute

open Rust Json Kem Primitives

/-! ## The parts of an envelope -/

/-- An envelope is the length of its header, the header and the sealed part. -/
theorem splitOuter_eq_ok_iff {blob routeBytes sealedPart : Bytes} :
    splitOuter 64 blob = .ok (routeBytes, sealedPart) ↔
      routeBytes.length < 2 ^ 32 ∧
        blob = u32LenBe routeBytes.length ++ routeBytes ++ sealedPart := by
  constructor
  · intro hsplit
    have h := hsplit
    unfold splitOuter at h
    rw [Outcome.guard_eq_ok_iff] at h
    rcases h with ⟨hlong, h⟩
    rcases leadingU32_eq (ε := PqRouteError) (Nat.not_lt.mp hlong) with ⟨hdrLen, hread, hfield⟩
    rcases lengthAt_eq_some_iff.mp hfield with ⟨hlt, rest, hblob⟩
    rw [List.drop_zero] at hblob
    have hstop : checkedAdd 64 lenPrefix hdrLen = some (lenPrefix + hdrLen) :=
      if_pos (by simp only [lenPrefix]; omega)
    simp only [hread, hstop, Outcome.okOr_some, Outcome.ok_bind] at h
    rw [Outcome.guard_eq_ok_iff] at h
    rcases h with ⟨hroom, -⟩
    have hrest : rest = rest.take hdrLen ++ rest.drop hdrLen := (List.take_append_drop _ _).symm
    have hlen : (rest.take hdrLen).length = hdrLen := by
      rw [hblob, List.length_append, length_u32LenBe] at hroom
      rw [List.length_take]
      simp only [lenPrefix] at hroom
      omega
    have hparts : blob = u32LenBe (rest.take hdrLen).length ++ rest.take hdrLen ++
        rest.drop hdrLen := by
      rw [hlen, List.append_assoc, ← hrest, hblob]
    rw [hparts, splitOuter_append (hlen.symm ▸ hlt), Outcome.ok.injEq, Prod.mk.injEq] at hsplit
    rcases hsplit with ⟨rfl, rfl⟩
    exact ⟨hlen.symm ▸ hlt, hparts⟩
  · rintro ⟨hlen, rfl⟩
    exact splitOuter_append hlen sealedPart

/-- No envelope and no private key make opening panic. -/
theorem openRouted_ne_panic {φ : Type} (P : Primitives) (J : Parser φ)
    (blob destHybridPriv : Bytes) : openRouted P J 64 blob destHybridPriv ≠ .panic := by
  have hbounds : (tracedOpenRouted P J 64 blob destHybridPriv).InBounds 64 :=
    tracedOpenRouted_inBounds_iff.mpr fun _ inner _ => innerFits_64 inner
  rw [← outcome_tracedOpenRouted]
  exact hbounds.2

/-! ## What a seal has computed -/

/-- The secrets of a seal, its ML-KEM ciphertext and its body. -/
structure EnvelopeParts (P : Primitives) (keys : KeypairDraws) (draws : SealDraws)
    (routeBytes inner sealedPart : Bytes) (xSs mlkemSs : ByteBlock 32) (ct : ByteBlock 1088)
    (body : Bytes) : Prop where
  exchanged : P.diffieHellman draws.encap.xEph (P.x25519Public keys.xSeed) = xSs
  encapsulated : P.mlkemEncapsulate (P.mlkemGenerate keys.mlkemSeed).2 draws.encap.coins =
    some (ct, mlkemSs)
  sealed : P.aesGcmEncrypt (derivedKey P (sharedSecret P xSs mlkemSs).toList (buildAad routeBytes))
    draws.nonce (buildAad routeBytes) inner = some body
  layout : sealedPart = (P.x25519Public draws.encap.xEph).toList ++ ct.toList ++
    draws.nonce.toList ++ body

/-- The AEAD's record of a seal. -/
def sealRecord (P : Primitives) (draws : SealDraws) (routeBytes : Bytes)
    (xSs mlkemSs : ByteBlock 32) (body : Bytes) : SealRecord :=
  ⟨⟨derivedKey P (sharedSecret P xSs mlkemSs).toList (buildAad routeBytes), draws.nonce,
    buildAad routeBytes⟩, body⟩

/-- The primitives are ideal towards the parts of a seal; the AEAD, which has also
made the sealings of `others`, is handed `body'`. -/
structure IdealEnvelope (P : Primitives) (keys : KeypairDraws) (draws : SealDraws)
    (routeBytes : Bytes) (xSs mlkemSs : ByteBlock 32) (ct : ByteBlock 1088) (body : Bytes)
    (others : List SealRecord) (body' : Bytes) : Prop where
  mlkem : P.EncapsulationUnique (P.mlkemGenerate keys.mlkemSeed).1 ct
  combiner : P.KdfUnique [] (xSs.toList ++ mlkemSs.toList) hkdfInfo
  wrap : P.KdfUnique [] (sharedSecret P xSs mlkemSs).toList
    (infoWrap ++ byteLit "|" ++ buildAad routeBytes)
  aead : P.OpensOnlyLogged (sealRecord P draws routeBytes xSs mlkemSs body :: others) body'

/-- A sealed part that leads to the record, behind the header bytes. -/
def PartLeadsTo (P : Primitives) (keys : KeypairDraws) (routeBytes part : Bytes)
    (e : SealRecord) : Prop :=
  Pqdm.LeadsTo P keys (fun shared => derivedKey P shared.toList (buildAad routeBytes))
    (buildAad routeBytes) part e

/-- The envelopes have one header, byte for byte, and their sealed parts differ
at most in the X25519 values, from which the private key computes one secret. -/
def SameEnvelope (P : Primitives) (xSeed : ByteBlock 32) (blob blob' : Bytes) : Prop :=
  ∃ routeBytes part part', splitOuter 64 blob = .ok (routeBytes, part) ∧
    splitOuter 64 blob' = .ok (routeBytes, part') ∧ Pqdm.SameExchange P xSeed part part'

section Modified

variable {φ : Type} [F64 φ] {P : Primitives} {J : Parser φ}
  {keys : KeypairDraws} {draws : SealDraws} {innerMetadata routeHdr : Value φ}
  {content blob : Bytes}

/-- A seal that returned has all its parts. -/
theorem exists_envelopeParts
    (hseal : sealRouted P innerMetadata content (hybridKeypair P keys).publicKey routeHdr draws =
      .ok blob) :
    ∃ sealedPart xSs mlkemSs ct body,
      blob = withHeader routeHdr sealedPart ∧
      EnvelopeParts P keys draws (canonical routeHdr) (innerBytes innerMetadata content)
        sealedPart xSs mlkemSs ct body := by
  rcases exists_of_sealRouted_eq_ok hseal with ⟨ciphertext, shared, body, hencap, hbody, hblob⟩
  rcases exists_parts_of_hybridEncap hencap with ⟨ct, mlkemSs, hct, rfl, rfl⟩
  exact ⟨_, _, mlkemSs, ct, body, hblob, rfl, hct, hbody, rfl⟩

variable {routeBytes inner sealedPart : Bytes} {xSs mlkemSs : ByteBlock 32}
  {ct : ByteBlock 1088} {body : Bytes}

/-- The body of a seal carries a tag. -/
theorem EnvelopeParts.tagLen_le (aead : P.AeadLaws)
    (h : EnvelopeParts P keys draws routeBytes inner sealedPart xSs mlkemSs ct body) :
    aesgcmTagLen ≤ body.length := by
  rw [aead.length_encrypt _ _ _ _ _ h.sealed]
  exact Nat.le_add_left _ _

/-- Both ends of the exchange have the secret of the seal. -/
theorem EnvelopeParts.diffieHellman_eq (kem : P.KemLaws)
    (h : EnvelopeParts P keys draws routeBytes inner sealedPart xSs mlkemSs ct body) :
    P.diffieHellman keys.xSeed (P.x25519Public draws.encap.xEph) = xSs := by
  rw [kem.dh_comm, h.exchanged]

/-- A sealed part of the least length is its blocks. -/
theorem exists_sealedBlocks {part : Bytes} (h : sealedMinLen ≤ part.length) :
    ∃ (u : ByteBlock 32) (ct : ByteBlock 1088) (nonce : ByteBlock wrapNonceLen) (body : Bytes),
      aesgcmTagLen ≤ body.length ∧
        part = u.toList ++ ct.toList ++ nonce.toList ++ body := by
  rcases Pqdm.exists_fields h with ⟨ciphertext, nonce, body, hciphertext, htag, rfl⟩
  rcases exists_blocks hciphertext with ⟨u, ct, rfl⟩
  exact ⟨u, ct, nonce, body, htag, rfl⟩

omit [F64 φ] in
/-- Opening depends on the X25519 value through its secret only. -/
theorem openRouted_sameExchange {routeBytes part part' : Bytes}
    (hlen : routeBytes.length < 2 ^ 32) (hlong : sealedMinLen ≤ part.length)
    (hsame : Pqdm.SameExchange P keys.xSeed part part') :
    openRouted P J 64 (u32LenBe routeBytes.length ++ routeBytes ++ part')
        (hybridKeypair P keys).privateKey =
      openRouted P J 64 (u32LenBe routeBytes.length ++ routeBytes ++ part)
        (hybridKeypair P keys).privateKey := by
  rcases hsame with ⟨u, u', rest, rfl, rfl, hdh⟩
  rcases exists_sealedBlocks hlong with ⟨v, ct, nonce, body, htag, hblocks⟩
  rw [List.append_assoc, List.append_assoc] at hblocks
  rcases List.append_inj hblocks (by simp) with ⟨hu, rfl⟩
  cases List.Vector.toList_injective hu
  have hassoc : ∀ v : ByteBlock 32, v.toList ++ (ct.toList ++ (nonce.toList ++ body)) =
      v.toList ++ ct.toList ++ nonce.toList ++ body := by
    intro v
    rw [List.append_assoc, List.append_assoc]
  have hct : ∀ v : ByteBlock 32, (v.toList ++ ct.toList).length = ciphertextLen := by
    intro v
    exact length_append_blocks v ct
  have hdecap : hybridDecap P (u'.toList ++ ct.toList) (hybridKeypair P keys).privateKey =
      hybridDecap P (u.toList ++ ct.toList) (hybridKeypair P keys).privateKey := by
    simp only [hybridKeypair]
    rw [hybridDecap_append, hybridDecap_append, hdh]
  rw [hassoc, hassoc, openRouted_append hlen (hct u') htag, openRouted_append hlen (hct u) htag,
    hdecap]

omit [F64 φ] in
/-- An envelope that leads to a record opens to the content that was sealed
there, if its header is JSON. -/
theorem openRouted_of_leadsTo (aead : P.AeadLaws) {routeBytes' part' : Bytes}
    (hlen' : routeBytes'.length < 2 ^ 32) {e : SealRecord}
    (hleads : PartLeadsTo P keys routeBytes' part' e) {inner : Bytes} (he : e.Of P inner) :
    openRouted P J 64 (u32LenBe routeBytes'.length ++ routeBytes' ++ part')
        (hybridKeypair P keys).privateKey =
      (parseRoute J routeBytes' >>= fun routeHdr => openInner J 64 routeHdr inner) := by
  rcases hleads with ⟨ciphertext, shared, hciphertext, hdecap, rfl, hkey, haad⟩
  have hopened : P.aesGcmDecrypt (derivedKey P shared.toList (buildAad routeBytes')) e.nonce
      (buildAad routeBytes') e.body = some inner := by
    rw [← haad, ← aead.decrypt_encrypt _ _ _ _ _ he, hkey, haad]
  rw [openRouted_append hlen' hciphertext (Pqdm.tagLen_le_of_record aead he), hdecap]
  simp only [Outcome.mapErr_ok, Outcome.ok_bind, hopened, Outcome.okOr_some]

omit [F64 φ] in
/-- An envelope that opens has the header, the nonce and the body of the seal and
leads to its secrets, or leads to another record. -/
theorem EnvelopeParts.sameExchange_of_open (kem : P.KemLaws)
    (h : EnvelopeParts P keys draws routeBytes inner sealedPart xSs mlkemSs ct body)
    {routeBytes' part' : Bytes} (hlen' : routeBytes'.length < 2 ^ 32) {others : List SealRecord}
    (hideal : IdealEnvelope P keys draws routeBytes xSs mlkemSs ct body others
      (part'.drop (ciphertextLen + wrapNonceLen)))
    {opened : Value φ × Value φ × Bytes}
    (hopen : openRouted P J 64 (u32LenBe routeBytes'.length ++ routeBytes' ++ part')
      (hybridKeypair P keys).privateKey = .ok opened) :
    (routeBytes' = routeBytes ∧ Pqdm.SameExchange P keys.xSeed sealedPart part') ∨
      ∃ e ∈ others, PartLeadsTo P keys routeBytes' part' e := by
  have hmin : sealedMinLen ≤ part'.length := by
    by_contra hshort
    rw [openRouted, splitOuter_append hlen', Outcome.ok_bind] at hopen
    dsimp only at hopen
    rw [if_pos (Nat.lt_of_not_le hshort)] at hopen
    cases hopen
  rcases exists_sealedBlocks hmin with ⟨u', ct', nonce, body', htag, rfl⟩
  have hdrop : (u'.toList ++ ct'.toList ++ nonce.toList ++ body').drop
      (ciphertextLen + wrapNonceLen) = body' :=
    List.drop_left' (by simp only [List.length_append, List.Vector.toList_length])
  rw [hdrop] at hideal
  rw [openRouted_append hlen' (length_append_blocks u' ct') htag, Outcome.bind_eq_ok_iff] at hopen
  rcases hopen with ⟨routeHdr', -, hopen⟩
  have hdecap := hybridDecap_append P u' ct' keys.xSeed (P.mlkemGenerate keys.mlkemSeed).1
  simp only [hybridKeypair] at hopen
  rw [hdecap] at hopen
  cases hss : P.mlkemDecapsulate (P.mlkemGenerate keys.mlkemSeed).1 ct' with
  | none => simp [hss] at hopen
  | some mlkemSs' =>
      simp only [hss, Outcome.mapErr_ok, Outcome.ok_bind] at hopen
      rcases Outcome.bind_eq_ok_iff.mp hopen with ⟨inner', hinner, -⟩
      rw [Outcome.okOr_eq_ok_iff] at hinner
      rw [hss] at hdecap
      rcases List.mem_cons.mp (hideal.aead _ _ _ _ hinner) with hown | hother
      · left
        simp only [sealRecord, SealRecord.mk.injEq, Sealing.mk.injEq] at hown
        rcases hown with ⟨⟨hkey, hnonce, haad⟩, hbody⟩
        -- From the body inwards: the AEAD key, the shared secret, the two secrets.
        rcases hideal.wrap _ _ _ hkey with ⟨-, hshared, -⟩
        rcases hideal.combiner _ _ _ (List.Vector.toList_injective hshared) with ⟨-, hikm, -⟩
        rcases List.append_inj hikm (by simp) with ⟨hx, hmlkem⟩
        have hct : ct' = ct := by
          apply hideal.mlkem
          rw [hss, List.Vector.toList_injective hmlkem,
            kem.decapsulate_encapsulate _ _ _ _ h.encapsulated]
        refine ⟨List.append_cancel_left haad, P.x25519Public draws.encap.xEph, u',
          ct.toList ++ (draws.nonce.toList ++ body), ?_, ?_, ?_⟩
        · rw [h.layout, List.append_assoc, List.append_assoc]
        · rw [hct, hnonce, hbody, List.append_assoc, List.append_assoc]
        · rw [h.diffieHellman_eq kem, List.Vector.toList_injective hx]
      · right
        exact ⟨_, hother, _, _, length_append_blocks u' ct', hdecap, rfl, rfl, rfl⟩

theorem EnvelopeParts.sealedMinLen_le (aead : P.AeadLaws)
    (h : EnvelopeParts P keys draws routeBytes inner sealedPart xSs mlkemSs ct body) :
    sealedMinLen ≤ sealedPart.length := by
  have htag := h.tagLen_le aead
  rw [h.layout]
  simp only [List.length_append, List.Vector.toList_length]
  exact Nat.add_le_add_left htag _

/-- Every byte string that is handed in place of a sealed envelope is opened as
that envelope is, where it differs at most in an X25519 value of the same secret;
it is opened to the content of another sealing, where it leads to that one; and it
is refused otherwise. -/
theorem modified_envelope_refused (kem : P.KemLaws) (aead : P.AeadLaws)
    (hlen : (canonical routeHdr).length < 2 ^ 32)
    (hseal : sealRouted P innerMetadata content (hybridKeypair P keys).publicKey routeHdr draws =
      .ok blob)
    {others : List SealRecord} {blob' : Bytes}
    (hideal : ∀ sealedPart xSs mlkemSs ct body routeBytes' part',
      EnvelopeParts P keys draws (canonical routeHdr) (innerBytes innerMetadata content)
        sealedPart xSs mlkemSs ct body →
      splitOuter 64 blob' = .ok (routeBytes', part') →
        IdealEnvelope P keys draws (canonical routeHdr) xSs mlkemSs ct body others
          (part'.drop (ciphertextLen + wrapNonceLen))) :
    (SameEnvelope P keys.xSeed blob blob' →
      openRouted P J 64 blob' (hybridKeypair P keys).privateKey =
        openRouted P J 64 blob (hybridKeypair P keys).privateKey) ∧
    (∀ e inner routeBytes' part', e.Of P inner →
      splitOuter 64 blob' = .ok (routeBytes', part') → PartLeadsTo P keys routeBytes' part' e →
        openRouted P J 64 blob' (hybridKeypair P keys).privateKey =
          (parseRoute J routeBytes' >>= fun routeHdr' => openInner J 64 routeHdr' inner)) ∧
    (¬ SameEnvelope P keys.xSeed blob blob' →
      (∀ e ∈ others, ∀ routeBytes' part', splitOuter 64 blob' = .ok (routeBytes', part') →
        ¬ PartLeadsTo P keys routeBytes' part' e) →
      ∃ e, openRouted P J 64 blob' (hybridKeypair P keys).privateKey = .err e) := by
  rcases exists_envelopeParts hseal with ⟨sealedPart, xSs, mlkemSs, ct, body, hblob, hparts⟩
  have hsplit : splitOuter 64 blob = .ok (canonical routeHdr, sealedPart) :=
    splitOuter_eq_ok_iff.mpr ⟨hlen, hblob⟩
  refine ⟨?_, ?_, ?_⟩
  · rintro ⟨routeBytes, part, part', hsplit₁, hsplit', hsame⟩
    rw [hsplit, Outcome.ok.injEq, Prod.mk.injEq] at hsplit₁
    rcases hsplit₁ with ⟨rfl, rfl⟩
    rcases splitOuter_eq_ok_iff.mp hsplit' with ⟨-, rfl⟩
    rw [hblob]
    exact openRouted_sameExchange hlen (hparts.sealedMinLen_le aead) hsame
  · intro e inner routeBytes' part' he hsplit' hleads
    rcases splitOuter_eq_ok_iff.mp hsplit' with ⟨hlen', rfl⟩
    exact openRouted_of_leadsTo aead hlen' hleads he
  · intro hother hunlogged
    cases hopen : openRouted P J 64 blob' (hybridKeypair P keys).privateKey with
    | err e => exact ⟨e, rfl⟩
    | panic => exact absurd hopen (openRouted_ne_panic P J _ _)
    | ok opened =>
        rcases Outcome.bind_eq_ok_iff.mp hopen with ⟨⟨routeBytes', part'⟩, hsplit', -⟩
        have hideal' := hideal _ _ _ _ _ _ _ hparts hsplit'
        rcases splitOuter_eq_ok_iff.mp hsplit' with ⟨hlen', hblob'⟩
        rw [hblob'] at hopen
        rcases hparts.sameExchange_of_open kem hlen' hideal' hopen with
          ⟨hroute, hsame⟩ | ⟨e, he, hleads⟩
        · rw [hroute] at hsplit'
          exact absurd ⟨_, _, _, hsplit, hsplit', hsame⟩ hother
        · exact absurd hleads (hunlogged e he _ _ hsplit')

/-! ## Relays -/

/-- What a chain of relays makes of an envelope, each of them replacing the
header. -/
def relayed (w : Nat) (blob : Bytes) : List (Value φ) → Outcome PqRouteError Bytes
  | [] => .ok blob
  | routeHdr :: rest => do
      let blob ← replaceRouteHeader w blob routeHdr
      relayed w blob rest

/-- The header that is on the envelope in the end. -/
def lastHeader (routeHdr : Value φ) (routeHdrs : List (Value φ)) : Value φ :=
  (routeHdr :: routeHdrs).getLast (List.cons_ne_nil _ _)

/-- Only the last header counts. -/
theorem relayed_withHeader {sealedPart : Bytes} {routeHdrs : List (Value φ)}
    (hlens : ∀ h ∈ routeHdrs, (canonical h).length < 2 ^ 32) {routeHdr : Value φ}
    (hlen : (canonical routeHdr).length < 2 ^ 32) :
    relayed 64 (withHeader routeHdr sealedPart) routeHdrs =
      .ok (withHeader (lastHeader routeHdr routeHdrs) sealedPart) := by
  induction routeHdrs generalizing routeHdr with
  | nil => rfl
  | cons routeHdr' rest ih =>
      rw [relayed, replaceRouteHeader_withHeader hlen, Outcome.ok_bind]
      apply ih
      · intro h hh
        exact hlens h (List.mem_cons_of_mem _ hh)
      · exact hlens routeHdr' List.mem_cons_self

theorem lastHeader_length {routeHdr : Value φ} {routeHdrs : List (Value φ)}
    (hlens : ∀ h ∈ routeHdrs, (canonical h).length < 2 ^ 32)
    (hlen : (canonical routeHdr).length < 2 ^ 32) :
    (canonical (lastHeader routeHdr routeHdrs)).length < 2 ^ 32 := by
  have hmem : lastHeader routeHdr routeHdrs ∈ routeHdr :: routeHdrs := List.getLast_mem _
  rcases List.mem_cons.mp hmem with heq | hrest
  · rw [heq]
    exact hlen
  · exact hlens _ hrest

/-- Relays may write any headers, also ones that no parser reads.  The envelope
that arrives has the last of them and the sealed part of the sender; it is the
sender's envelope if the texts of the two headers agree, and is refused
otherwise. -/
theorem relay_chain (kem : P.KemLaws) (aead : P.AeadLaws)
    (hlen : (canonical routeHdr).length < 2 ^ 32)
    (hseal : sealRouted P innerMetadata content (hybridKeypair P keys).publicKey routeHdr draws =
      .ok blob)
    (hideal : P.IdealBody (innerBytes innerMetadata content) (blob.drop (bodyOffset routeHdr)))
    {routeHdrs : List (Value φ)} (hlens : ∀ h ∈ routeHdrs, (canonical h).length < 2 ^ 32) :
    ∃ blob', relayed 64 blob routeHdrs = .ok blob' ∧
      readRouteHeader J 64 blob' =
        parseRoute J (canonical (lastHeader routeHdr routeHdrs)) ∧
      replaceRouteHeader 64 blob' routeHdr = .ok blob ∧
      (canonical (lastHeader routeHdr routeHdrs) = canonical routeHdr → blob' = blob) ∧
      (canonical (lastHeader routeHdr routeHdrs) ≠ canonical routeHdr →
        ∃ e, openRouted P J 64 blob' (hybridKeypair P keys).privateKey = .err e) := by
  have hlast := lastHeader_length hlens hlen
  rcases exists_of_sealRouted_eq_ok hseal with ⟨ciphertext, shared, body, hencap, hbody, hblob⟩
  have hciphertext := length_of_hybridEncap P hencap
  have hsealed : blob = withHeader routeHdr (ciphertext ++ draws.nonce.toList ++ body) := hblob
  have htag : aesgcmTagLen ≤ body.length := by
    rw [aead.length_encrypt _ _ _ _ _ hbody]
    exact Nat.le_add_left _ _
  refine ⟨_, hsealed ▸ relayed_withHeader hlens hlen, ?_, ?_, ?_, ?_⟩
  · exact readRouteHeader_append hlast _
  · rw [hsealed]
    exact replaceRouteHeader_withHeader hlast _ _
  · intro hsame
    rw [hsealed, withHeader, withHeader, hsame]
  · intro hother
    cases hopen : openRouted P J 64 (withHeader (lastHeader routeHdr routeHdrs)
        (ciphertext ++ draws.nonce.toList ++ body)) (hybridKeypair P keys).privateKey with
    | err e => exact ⟨e, rfl⟩
    | panic => exact absurd hopen (openRouted_ne_panic P J _ _)
    | ok opened =>
        rw [withHeader, openRouted_append hlast hciphertext htag,
          hybridDecap_hybridEncap kem hencap, Outcome.mapErr_ok] at hopen
        simp only [Outcome.bind_eq_ok_iff, Outcome.ok.injEq, exists_eq_left',
          Outcome.okOr_eq_ok_iff] at hopen
        rcases hopen with ⟨_, -, inner, hinner, -⟩
        rw [hsealed, drop_bodyOffset hciphertext] at hideal
        have haad := (hideal _ _ _ hbody _ _ _ _ hinner).2.2
        exact absurd (List.append_cancel_left haad) hother

end Modified

/-! ## Sample envelopes -/

namespace Sample

/-- The header `[null]`. -/
def headerBytes : Bytes := canonical (nested 1)

/-- The inputs of the combiner and of the wrap key. -/
def kdfInputs : List KdfInput :=
  [⟨List.replicate 64 0, List.replicate 32 14 ++ List.replicate 32 7, hkdfInfo⟩,
    ⟨List.replicate 64 0, List.replicate 32 0, infoWrap ++ byteLit "|" ++ buildAad headerBytes⟩]

/-- The two sealings that the AEAD has made, both with the metadata `null`: of
"hi" and of "o". -/
def first : SealRecord :=
  ⟨⟨List.Vector.replicate 32 1, List.Vector.replicate 12 7, buildAad headerBytes⟩,
    innerBytes (nested 0) [104, 105] ++ List.replicate 16 0⟩

def second : SealRecord :=
  ⟨⟨List.Vector.replicate 32 2, List.Vector.replicate 12 9, buildAad headerBytes⟩,
    innerBytes (nested 0) [111] ++ List.replicate 16 1⟩

def ideal : Primitives := tabled kdfInputs [first.toSealing, second.toSealing]

/-- An envelope with the sealed part of the first seal. -/
def envelopeUnder (routeBytes : Bytes) : Bytes :=
  u32LenBe routeBytes.length ++ routeBytes ++
    (List.replicate 32 7 ++ ((resize 1088 (List.replicate 32 7)).toList ++
      (List.replicate 12 7 ++ first.body)))

/-- The sealed part of the second seal, with other draws. -/
def secondPart : Bytes :=
  List.replicate 32 9 ++ (resize 1088 (List.replicate 32 9)).toList ++ second.nonce.toList ++
    second.body

def secondEnvelope : Bytes := u32LenBe headerBytes.length ++ headerBytes ++ secondPart

theorem sealRouted_eq_ok :
    sealRouted ideal (nested 0) [104, 105] (hybridKeypair ideal keys).publicKey (nested 1) draws =
      .ok (envelopeUnder headerBytes) := by
  decide +kernel

/-- The draws of the second seal. -/
def secondDraws : SealDraws :=
  ⟨⟨List.Vector.replicate 32 9, List.Vector.replicate 32 9⟩, List.Vector.replicate 12 9⟩

theorem second_sealRouted_eq_ok :
    sealRouted ideal (nested 0) [111] (hybridKeypair ideal keys).publicKey (nested 1)
      secondDraws = .ok secondEnvelope := by
  decide +kernel

theorem second_of : second.Of ideal (innerBytes (nested 0) [111]) := by
  unfold SealRecord.Of
  decide +kernel

theorem secondPart_leadsTo : PartLeadsTo ideal keys headerBytes secondPart second := by
  refine ⟨List.replicate 32 9 ++ (resize 1088 (List.replicate 32 9)).toList,
    List.Vector.replicate 32 2, by decide +kernel, by decide +kernel, rfl, by decide +kernel, rfl⟩

/-- The sample primitives are ideal towards the first seal. -/
theorem idealEnvelope {sealedPart : Bytes} {xSs mlkemSs : ByteBlock 32} {ct : ByteBlock 1088}
    {body body' : Bytes} {others : List SealRecord}
    (hbody' : ideal.OpensOnlyLogged (first :: others) body')
    (hparts : EnvelopeParts ideal keys draws headerBytes (innerBytes (nested 0) [104, 105])
      sealedPart xSs mlkemSs ct body) :
    IdealEnvelope ideal keys draws headerBytes xSs mlkemSs ct body others body' := by
  rcases hparts with ⟨hx, hct, hbody, -⟩
  have hx' : xSs = List.Vector.replicate 32 14 := by
    rw [← hx]
    decide +kernel
  obtain ⟨rfl, rfl⟩ : resize 1088 (List.replicate 32 7) = ct ∧
      List.Vector.replicate 32 7 = mlkemSs := by
    simpa [ideal, tabled, tagged, draws] using hct
  subst hx'
  have hshared : sharedSecret ideal (List.Vector.replicate 32 14) (List.Vector.replicate 32 7) =
      List.Vector.replicate 32 0 := by
    decide +kernel
  have hkey : derivedKey ideal (List.replicate 32 0) (buildAad headerBytes) =
      List.Vector.replicate 32 1 := by
    decide +kernel
  have hzero : (List.Vector.replicate 32 0 : ByteBlock 32).toList = List.replicate 32 0 := rfl
  have hsealed : ideal.aesGcmEncrypt (List.Vector.replicate 32 1) draws.nonce
      (buildAad headerBytes) (innerBytes (nested 0) [104, 105]) = some first.body := by
    decide +kernel
  rw [hshared, hzero, hkey, hsealed, Option.some.injEq] at hbody
  subst hbody
  have hcoins : List.Vector.replicate 32 7 ≠ (List.Vector.replicate 32 0 : ByteBlock 32) := by
    decide +kernel
  have hseven : (List.Vector.replicate 32 7 : ByteBlock 32).toList = List.replicate 32 7 := rfl
  constructor
  · rw [← hseven]
    exact tabled_encapsulationUnique _ hcoins
  · exact tabled_kdfUnique (by decide) (by decide +kernel)
  · rw [hshared]
    exact tabled_kdfUnique (by decide) (by decide +kernel)
  · rw [sealRecord, hshared, hzero, hkey]
    exact hbody'

/-- The body of either sealing is opened where the log has it. -/
theorem opensOnlyLogged {e : SealRecord} (he : e ∈ [first, second]) :
    ideal.OpensOnlyLogged [first, second] e.body := by
  rcases List.mem_pair.mp he with rfl | rfl
  · exact tabled_opensOnlyLogged (by decide) (by simp) (by simp) (by decide +kernel)
  · exact tabled_opensOnlyLogged (by decide) (by simp) (by simp) (by decide +kernel)

/-- So they are towards any envelope with the body of one of the two. -/
theorem idealEnvelope_of_splitOuter {blob' routeBytes part : Bytes}
    (hsplit : splitOuter 64 blob' = .ok (routeBytes, part)) {e : SealRecord}
    (he : e ∈ [first, second]) (hbody : part.drop (ciphertextLen + wrapNonceLen) = e.body) :
    ∀ sealedPart xSs mlkemSs ct body routeBytes' part',
      EnvelopeParts ideal keys draws headerBytes (innerBytes (nested 0) [104, 105]) sealedPart xSs
        mlkemSs ct body →
      splitOuter 64 blob' = .ok (routeBytes', part') →
        IdealEnvelope ideal keys draws headerBytes xSs mlkemSs ct body [second]
          (part'.drop (ciphertextLen + wrapNonceLen)) := by
  intro sealedPart xSs mlkemSs ct body routeBytes' part' hparts hsplit'
  rw [hsplit, Outcome.ok.injEq, Prod.mk.injEq] at hsplit'
  rw [← hsplit'.2, hbody]
  exact idealEnvelope (opensOnlyLogged he) hparts

theorem ideal_laws : ideal.KemLaws ∧ ideal.AeadLaws := ⟨tabled_kemLaws, tabled_aeadLaws⟩

/-- The same header with a blank in it. -/
def respelled : Bytes := byteLit "[null ]"

theorem splitOuter_envelopeUnder {routeBytes : Bytes} (hlen : routeBytes.length < 2 ^ 32) :
    splitOuter 64 (envelopeUnder routeBytes) = .ok (routeBytes,
      List.replicate 32 7 ++ ((resize 1088 (List.replicate 32 7)).toList ++
        (List.replicate 12 7 ++ first.body))) :=
  splitOuter_append hlen _

end Sample

/-- A blank in the header does not change what the header says, and the envelope is
refused.  The second envelope in place of the first one opens to its own content. -/
theorem modified_envelope_refused_respelled :
    (parseRoute Sample.parser Sample.respelled = .ok (Sample.nested 1) ∧
      ∃ e, openRouted Sample.ideal Sample.parser 64 (Sample.envelopeUnder Sample.respelled)
        (hybridKeypair Sample.ideal Sample.keys).privateKey = .err e) ∧
    sealRouted Sample.ideal (Sample.nested 0) [111]
      (hybridKeypair Sample.ideal Sample.keys).publicKey (Sample.nested 1) Sample.secondDraws =
        .ok Sample.secondEnvelope ∧
    openRouted Sample.ideal Sample.parser 64 Sample.secondEnvelope
      (hybridKeypair Sample.ideal Sample.keys).privateKey =
        .ok (Sample.nested 1, Sample.nested 0, [111]) := by
  have hlen : Sample.headerBytes.length < 2 ^ 32 := by decide +kernel
  have hlen' : Sample.respelled.length < 2 ^ 32 := by decide +kernel
  have hne : Sample.respelled ≠ Sample.headerBytes := by decide +kernel
  rcases Sample.ideal_laws with ⟨kem, aead⟩
  refine ⟨?_, Sample.second_sealRouted_eq_ok, ?_⟩
  · have hsplit := Sample.splitOuter_envelopeUnder hlen'
    have hideal := Sample.idealEnvelope_of_splitOuter hsplit List.mem_cons_self
      (by decide +kernel)
    refine ⟨rfl, (modified_envelope_refused kem aead hlen Sample.sealRouted_eq_ok hideal).2.2 ?_ ?_⟩
    · rintro ⟨routeBytes, part, part', hsplit₁, hsplit', -⟩
      rw [Sample.splitOuter_envelopeUnder hlen, Outcome.ok.injEq, Prod.mk.injEq] at hsplit₁
      rw [hsplit, Outcome.ok.injEq, Prod.mk.injEq] at hsplit'
      exact hne (hsplit'.1.trans hsplit₁.1.symm)
    · intro e he routeBytes' part' hsplit'
      rw [List.mem_singleton.mp he]
      rintro ⟨ciphertext, shared, -, -, -, -, haad⟩
      rw [hsplit, Outcome.ok.injEq, Prod.mk.injEq] at hsplit'
      rw [← hsplit'.1] at haad
      exact hne (List.append_cancel_left haad).symm
  · have hsplit : splitOuter 64 Sample.secondEnvelope =
        .ok (Sample.headerBytes, Sample.secondPart) := splitOuter_append hlen _
    have hmem : Sample.second ∈ [Sample.first, Sample.second] := by simp
    have hideal := Sample.idealEnvelope_of_splitOuter hsplit hmem (by decide +kernel)
    have hopens := (modified_envelope_refused (J := Sample.parser) kem aead hlen
      Sample.sealRouted_eq_ok hideal).2.1 _ _ _ _ Sample.second_of hsplit Sample.secondPart_leadsTo
    have hparse : parseRoute Sample.parser Sample.headerBytes = .ok (Sample.nested 1) := rfl
    have hmeta : (canonical (Sample.nested 0)).length < 2 ^ 32 := by decide +kernel
    rw [hopens, hparse, Outcome.ok_bind, openInner, innerBytes, splitInner_append hmeta]
    rfl

/-- Two relays write `[[null]]` and then `[null]` again. -/
theorem relay_chain_restored :
    relayed 64 Sample.boundBlob [Sample.nested 2, Sample.nested 1] = .ok Sample.boundBlob := by
  have kem : Sample.boundPrimitives.KemLaws := Primitives.tagged_kemLaws _
  have aead : Sample.boundPrimitives.AeadLaws := Primitives.tagged_aeadLaws _
  have hseal : sealRouted Sample.boundPrimitives (Sample.nested 0) [104, 105]
      (hybridKeypair Sample.boundPrimitives Sample.keys).publicKey (Sample.nested 1) Sample.draws =
      .ok Sample.boundBlob := by
    decide +kernel
  have hbody : List.replicate 16 1 <:+ Sample.boundBlob.drop (bodyOffset (Sample.nested 1)) := by
    decide +kernel
  have hlens : (canonical (Sample.nested 1)).length < 2 ^ 32 ∧
      (canonical (Sample.nested 2)).length < 2 ^ 32 := by
    decide +kernel
  have hrelays : ∀ h ∈ [Sample.nested 2, Sample.nested 1], (canonical h).length < 2 ^ 32 := by
    intro h hh
    rcases List.mem_pair.mp hh with rfl | rfl
    · exact hlens.2
    · exact hlens.1
  rcases relay_chain (J := Sample.parser) kem aead hlens.1 hseal
    (Primitives.onlyTag_idealBody _ hbody) hrelays with ⟨blob', hblob', -, -, hsame, -⟩
  rw [hblob', hsame rfl]

end Pqroute
end SkPqc
