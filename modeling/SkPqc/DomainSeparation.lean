import SkPqc.IdealPrimitives
import SkPqc.Ratchet
import SkPqc.GroupRatchet
import SkPqc.Pqdm
import SkPqc.Pqroute.Envelope

/-!
# Separation of the HKDF call sites

Five modules of the crate derive keys with HKDF, at seven call sites, with
labels of their own and with suffixes that may come from outside.  Here a use of
HKDF is a call site with its parameters, and what it hands to HKDF is read off
the function of the code.

Main results:

- Theorem `HandsOver.unique`: a function hands over one input at most.
- Theorem `Calls.passes`: the salt and the info of every call site.
- Theorem `label_isPrefixCode`: no label starts another one.
- Theorem `hkdf_uses_separate`: equal salts and equal infos come from the same
  call site with the same parameters.
-/

namespace SkPqc
namespace DomainSeparation

open Rust Json PrefixCode Primitives

variable {φ : Type}

/-! ## Uses of HKDF -/

/-- A call site with the parameters that its key stands for. -/
inductive HkdfUse (φ : Type) where
  | combiner
  | dmMessage (epoch index : UInt64)
  | dmWrap
  | groupMessage (epoch index : UInt64)
  | groupWrap
  | pqdmWrap (t : Pqdm.Transcript)
  | routeWrap (routeHdr : Value φ)

/-- The headers of the routes hold no floats. -/
def HkdfUse.FloatFree : HkdfUse φ → Prop
  | .routeWrap routeHdr => routeHdr.Formed Number.IsInteger
  | _ => True

/-- A key derivation under primitives of any kind. -/
abbrev Derivation := Primitives → Outcome Unit (ByteBlock 32)

/-- The derivation hands this input to HKDF and returns the output. -/
def HandsOver (derive : Derivation) (input : KdfInput) : Prop :=
  ∀ P : Primitives, derive P = .ok (P.hkdfSha256 input.salt input.ikm input.info 32)

section Code

variable [F64 φ] (S : Serde φ) (J : Parser φ)

/-- The functions of the code, at each use. -/
inductive Calls : HkdfUse φ → Derivation → Prop where
  | combiner (x25519Ss mlkemSs : Bytes) :
      Calls .combiner fun P => Kem.combine P x25519Ss mlkemSs
  | dmMessage (epochSecret : Bytes) (epoch index : UInt64) :
      Calls (.dmMessage epoch index) fun P =>
        (Ratchet.deriveDmMessageKey P epochSecret epoch index).mapErr fun _ => ()
  | dmWrap (shared : Bytes) :
      Calls .dmWrap fun P => Ratchet.dmWrapKey P shared
  | groupMessage (epochSecret : Bytes) (epoch index : UInt64) :
      Calls (.groupMessage epoch index) fun P =>
        (GroupRatchet.deriveMessageKey P epochSecret epoch index).mapErr fun _ => ()
  | groupWrap (shared : Bytes) :
      Calls .groupWrap fun P => GroupRatchet.deriveWrapKey P shared
  | pqdmWrap (shared : Bytes) (t : Pqdm.Transcript) :
      Calls (.pqdmWrap t) fun P => do
        let aad ← Pqdm.downgradeLockAad S t.negotiatedSuite t.sender t.recipient none
        Pqdm.wrapKey P shared aad
  /-- The sender's side: the AAD holds the canonical header. -/
  | routeSeal (shared : Bytes) (routeHdr : Value φ) :
      Calls (.routeWrap routeHdr) fun P =>
        Pqroute.deriveWrapKey P shared (Pqroute.buildAad (Pqroute.canonical routeHdr))
  /-- The receiver's side: the AAD holds the header as it arrived. -/
  | routeOpen (shared routeBytes : Bytes) {routeHdr : Value φ}
      (hparse : Pqroute.parseRoute J routeBytes = .ok routeHdr) :
      Calls (.routeWrap routeHdr) fun P =>
        Pqroute.deriveWrapKey P shared (Pqroute.buildAad routeBytes)

end Code

/-! ## What a derivation hands over -/

/-- Primitives whose KDF singles out one input. -/
def singling (input : KdfInput) : Primitives :=
  { transparent with
    hkdfSha256 := fun salt ikm info len =>
      if KdfInput.mk salt ikm info = input then List.Vector.replicate len 1
      else List.Vector.replicate len 0 }

/-- A derivation hands over one input at most. -/
theorem HandsOver.unique {derive : Derivation} {input input' : KdfInput}
    (h : HandsOver derive input) (h' : HandsOver derive input') : input' = input := by
  have hkeys := Outcome.ok.inj ((h (singling input)).symm.trans (h' (singling input)))
  by_contra hother
  have hleft : (singling input).hkdfSha256 input.salt input.ikm input.info 32 =
      List.Vector.replicate 32 1 := if_pos rfl
  have hright : (singling input).hkdfSha256 input'.salt input'.ikm input'.info 32 =
      List.Vector.replicate 32 0 := if_neg hother
  rw [hleft, hright] at hkeys
  have hhead := congrArg (fun key : ByteBlock 32 => key.get 0) hkeys
  simp at hhead

/-- The input of a derivation that is one HKDF call. -/
theorem HandsOver.eq_of_expand {derive : Derivation} {input : KdfInput}
    (h : HandsOver derive input) {salt ikm info : Bytes}
    (hderive : ∀ P : Primitives, derive P = P.hkdfExpand salt ikm info 32) :
    input = ⟨salt, ikm, info⟩ := by
  refine HandsOver.unique (fun P => ?_) h
  rw [hderive, P.hkdfExpand_32]

/-- A derivation that fails hands nothing over. -/
theorem HandsOver.ne_err {derive : Derivation} {input : KdfInput} (h : HandsOver derive input)
    (P : Primitives) (e : Unit) : derive P ≠ .err e := by
  rw [h P]
  simp

/-! ## Labels -/

/-- The seven call sites. -/
inductive Site where
  | combiner | dmMessage | dmWrap | groupMessage | groupWrap | pqdmWrap | routeWrap
deriving DecidableEq

/-- The constant part of the info. -/
def Site.label : Site → Bytes
  | .combiner => Kem.hkdfInfo
  | .dmMessage => Ratchet.msgInfoPrefix
  | .dmWrap => Ratchet.infoDmWrap
  | .groupMessage => GroupRatchet.msgInfoPrefix
  | .groupWrap => GroupRatchet.epochWrapInfo
  | .pqdmWrap => Pqdm.infoWrap ++ byteLit "|"
  | .routeWrap => Pqroute.infoWrap ++ byteLit "|" ++ Pqroute.buildAad []

/-- No label starts another one. -/
theorem label_isPrefixCode : IsPrefixCode Site.label := by
  intro a b h
  cases a <;> cases b <;> first | rfl | exact absurd h (by decide)

section Separation

variable [F64 φ] {S : Serde φ} {J : Parser φ}

/-- What the header of a route becomes in the info. -/
inductive RouteText (J : Parser φ) : Value φ → Bytes → Prop where
  | sealed (routeHdr : Value φ) : RouteText J routeHdr (Pqroute.canonical routeHdr)
  | opened {routeBytes : Bytes} {routeHdr : Value φ}
      (hparse : Pqroute.parseRoute J routeBytes = .ok routeHdr) : RouteText J routeHdr routeBytes

/-- The salt of a use, and the info behind the label of its site. -/
inductive Passes (J : Parser φ) : HkdfUse φ → Site → Bytes → Bytes → Prop where
  | combiner : Passes J .combiner .combiner [] []
  | dmMessage (epoch index : UInt64) :
      Passes J (.dmMessage epoch index) .dmMessage (Ratchet.epochSaltPrefix ++ u64Be epoch)
        (u64Be index)
  | dmWrap : Passes J .dmWrap .dmWrap [] []
  | groupMessage (epoch index : UInt64) :
      Passes J (.groupMessage epoch index) .groupMessage
        (GroupRatchet.msgSaltPrefix ++ u64Be epoch) (u64Be index)
  | groupWrap : Passes J .groupWrap .groupWrap [] []
  | pqdmWrap (t : Pqdm.Transcript) : Passes J (.pqdmWrap t) .pqdmWrap [] t.head
  | routeWrap {routeHdr : Value φ} {text : Bytes} (htext : RouteText J routeHdr text) :
      Passes J (.routeWrap routeHdr) .routeWrap [] text

omit [F64 φ] in
/-- The input of a DM message key. -/
theorem HandsOver.dmMessage {epochSecret : Bytes} {epoch index : UInt64} {input : KdfInput}
    (h : HandsOver (fun P =>
      (Ratchet.deriveDmMessageKey P epochSecret epoch index).mapErr fun _ => ()) input) :
    input = ⟨Ratchet.epochSaltPrefix ++ u64Be epoch, epochSecret,
      Ratchet.msgInfoPrefix ++ u64Be index⟩ := by
  by_cases hlen : epochSecret.length = Ratchet.epochSecretLen
  · rcases exists_block hlen with ⟨secret, rfl⟩
    apply h.eq_of_expand
    intro P
    rw [Ratchet.deriveDmMessageKey_toList, Outcome.mapErr_ok, P.hkdfExpand_32]
    rfl
  · refine absurd ?_ (h.ne_err transparent ())
    simp [Ratchet.deriveDmMessageKey, hlen]

omit [F64 φ] in
/-- The input of a group message key. -/
theorem HandsOver.groupMessage {epochSecret : Bytes} {epoch index : UInt64} {input : KdfInput}
    (h : HandsOver (fun P =>
      (GroupRatchet.deriveMessageKey P epochSecret epoch index).mapErr fun _ => ()) input) :
    input = ⟨GroupRatchet.msgSaltPrefix ++ u64Be epoch, epochSecret,
      GroupRatchet.msgInfoPrefix ++ u64Be index⟩ := by
  by_cases hlen : epochSecret.length = GroupRatchet.epochSecretLen
  · rcases exists_block hlen with ⟨secret, rfl⟩
    apply h.eq_of_expand
    intro P
    simp [GroupRatchet.deriveMessageKey, GroupRatchet.deriveMessageKeyArr]
  · refine absurd ?_ (h.ne_err transparent ())
    simp [GroupRatchet.deriveMessageKey, tryFromSlice, hlen]

/-- The salt and the info of every call site. -/
theorem Calls.passes (serde : S.Laws) {u : HkdfUse φ} {derive : Derivation} {input : KdfInput}
    (h : Calls S J u derive) (hinput : HandsOver derive input) :
    ∃ site suffix, Passes J u site input.salt suffix ∧ input.info = site.label ++ suffix := by
  cases h with
  | combiner x25519Ss mlkemSs =>
      have hsame := hinput.eq_of_expand fun P => rfl
      subst hsame
      exact ⟨_, _, .combiner, (List.append_nil _).symm⟩
  | dmMessage epochSecret epoch index =>
      have hsame := hinput.dmMessage
      subst hsame
      exact ⟨_, _, .dmMessage epoch index, rfl⟩
  | dmWrap shared =>
      have hsame := hinput.eq_of_expand fun P => rfl
      subst hsame
      exact ⟨_, _, .dmWrap, (List.append_nil _).symm⟩
  | groupMessage epochSecret epoch index =>
      have hsame := hinput.groupMessage
      subst hsame
      exact ⟨_, _, .groupMessage epoch index, rfl⟩
  | groupWrap shared =>
      have hsame := hinput.eq_of_expand fun P => rfl
      subst hsame
      exact ⟨_, _, .groupWrap, (List.append_nil _).symm⟩
  | pqdmWrap shared t =>
      have hsame := hinput.eq_of_expand fun P => by
        rw [Pqdm.downgradeLockAad_none serde, Outcome.ok_bind]
        rfl
      subst hsame
      exact ⟨_, _, .pqdmWrap t, rfl⟩
  | routeSeal shared routeHdr =>
      have hsame := hinput.eq_of_expand fun P => rfl
      subst hsame
      exact ⟨_, _, .routeWrap (.sealed routeHdr), rfl⟩
  | routeOpen shared routeBytes hparse =>
      have hsame := hinput.eq_of_expand fun P => rfl
      subst hsame
      exact ⟨_, _, .routeWrap (.opened hparse), rfl⟩

/-! ## The parameters are read back -/

/-- Salts of one length are told apart after the padding. -/
theorem eq_of_hmacPad_eq {salt salt' : Bytes} (hlen : salt.length = salt'.length)
    (h : hmacPad salt = hmacPad salt') : salt = salt' := by
  unfold hmacPad at h
  exact (List.append_inj h hlen).1

/-- An epoch behind a fixed prefix is told apart after the padding. -/
theorem epoch_eq_of_hmacPad_eq {saltPrefix : Bytes} {epoch epoch' : UInt64}
    (h : hmacPad (saltPrefix ++ u64Be epoch) = hmacPad (saltPrefix ++ u64Be epoch')) :
    epoch = epoch' := by
  have hlen : (saltPrefix ++ u64Be epoch).length = (saltPrefix ++ u64Be epoch').length := by
    simp [length_u64Be]
  exact u64Be_injective (List.append_cancel_left (eq_of_hmacPad_eq hlen h))

/-- A receiver that parses a canonical header gets that header. -/
theorem eq_of_parseRoute_canonical (json : J.Laws) {h h' : Value φ}
    (hf : h.Formed Number.IsInteger)
    (hparse : Pqroute.parseRoute J (Pqroute.canonical h) = .ok h') : h = h' := by
  have hread := Pqroute.fromSlice_canonical json hf
  by_cases hdepth : h.depth < 128
  · rw [Pqroute.parseRoute, hread.1 hdepth] at hparse
    exact Outcome.ok.inj hparse
  · rcases hread.2 hdepth with ⟨e, he⟩
    rw [Pqroute.parseRoute, he] at hparse
    cases hparse

/-- The text of a header without floats determines the header, on both sides of
the route. -/
theorem RouteText.unique (json : J.Laws) {h h' : Value φ} {text : Bytes}
    (ht : RouteText J h text) (ht' : RouteText J h' text)
    (hf : h.Formed Number.IsInteger) (hf' : h'.Formed Number.IsInteger) : h = h' := by
  cases ht with
  | sealed _ =>
      generalize htext : Pqroute.canonical h = text at ht'
      cases ht' with
      | sealed _ => exact Pqroute.canonical_injective hf hf' htext
      | opened hparse =>
          subst htext
          exact eq_of_parseRoute_canonical json hf hparse
  | opened hparse =>
      cases ht' with
      | sealed _ => exact (eq_of_parseRoute_canonical json hf' hparse).symm
      | opened hparse' => exact Outcome.ok.inj (hparse.symm.trans hparse')

/-- Two uses at one site whose salts and suffixes agree have the same
parameters. -/
theorem Passes.unique (json : J.Laws) {u v : HkdfUse φ} {site : Site}
    {salt salt' suffix suffix' : Bytes} (hu : Passes J u site salt suffix)
    (hv : Passes J v site salt' suffix') (hfu : u.FloatFree) (hfv : v.FloatFree)
    (hsalt : hmacPad salt = hmacPad salt') (hsuffix : suffix = suffix') : u = v := by
  cases hu with
  | combiner =>
      cases hv
      rfl
  | dmMessage epoch index =>
      cases hv with
      | dmMessage epoch' index' =>
          rw [epoch_eq_of_hmacPad_eq hsalt, u64Be_injective hsuffix]
  | dmWrap =>
      cases hv
      rfl
  | groupMessage epoch index =>
      cases hv with
      | groupMessage epoch' index' =>
          rw [epoch_eq_of_hmacPad_eq hsalt, u64Be_injective hsuffix]
  | groupWrap =>
      cases hv
      rfl
  | pqdmWrap t =>
      cases hv with
      | pqdmWrap t' => rw [Pqdm.head_isPrefixCode.injective hsuffix]
  | routeWrap htext =>
      cases hv with
      | routeWrap htext' =>
          rw [← hsuffix] at htext'
          rw [htext.unique json htext' hfu hfv]

/-- Equal salts and equal infos come from the same call site with the same
parameters. -/
theorem hkdf_uses_separate (serde : S.Laws) (json : J.Laws) {u v : HkdfUse φ}
    {derive derive' : Derivation} {input input' : KdfInput}
    (hu : Calls S J u derive) (hv : Calls S J v derive')
    (hfu : u.FloatFree) (hfv : v.FloatFree)
    (hinput : HandsOver derive input) (hinput' : HandsOver derive' input')
    (hsalt : hmacPad input.salt = hmacPad input'.salt) (hinfo : input.info = input'.info) :
    u = v := by
  rcases hu.passes serde hinput with ⟨site, suffix, hpass, heq⟩
  rcases hv.passes serde hinput' with ⟨site', suffix', hpass', heq'⟩
  rw [heq, heq'] at hinfo
  rcases label_isPrefixCode.split hinfo with ⟨rfl, hsuffix⟩
  exact hpass.unique json hpass' hfu hfv hsalt hsuffix

end Separation

/-- A sealed header and the same header as it arrived. -/
theorem hkdf_uses_separate_route :
    let text := Pqroute.canonical (Pqroute.Sample.nested 1)
    Pqroute.parseRoute Pqroute.Sample.parser text = .ok (.array [.null]) ∧
      (HkdfUse.routeWrap (Pqroute.Sample.nested 1) : HkdfUse Int) =
        .routeWrap (.array [.null]) := by
  intro text
  have hparse : Pqroute.parseRoute Pqroute.Sample.parser text = .ok (.array [.null]) := by
    have hread := Pqroute.fromSlice_canonical (J := Pqroute.Sample.parser)
      (Parser.documented_laws _) (Pqroute.Sample.nested_formed 1)
    rw [Pqroute.parseRoute, hread.1 (by decide)]
    rfl
  have hinput : ∀ shared, HandsOver
      (fun P => Pqroute.deriveWrapKey P shared (Pqroute.buildAad text))
      ⟨[], shared, Pqroute.infoWrap ++ byteLit "|" ++ Pqroute.buildAad text⟩ :=
    fun shared P => P.hkdfExpand_32 _ _ _
  refine ⟨hparse, ?_⟩
  exact hkdf_uses_separate (Serde.documented_laws Int) (Parser.documented_laws fun _ => none)
    (.routeSeal [1] (Pqroute.Sample.nested 1)) (.routeOpen [2] text hparse)
    (Pqroute.Sample.nested_formed 1) (Pqroute.Sample.nested_formed 1)
    (hinput [1]) (hinput [2]) rfl rfl

end DomainSeparation
end SkPqc
