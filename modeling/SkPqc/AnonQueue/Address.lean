import SkPqc.Foundations.Base64Url

/-!
# Queue addresses

This module embeds the `aqid:` codec of `anon_queue.rs`.  An address names a
relay and the sender id of a queue; the relay holds no slash, so the first slash
of an address ends it.

Main results:

- Theorem `encodeAqid_eq_ok_iff` and `decodeAqid_eq_ok_iff`: what the two
  functions accept.
- Theorem `address_codec_exact`: an address decodes to what encodes to it, and
  to nothing else.
-/

namespace SkPqc
namespace AnonQueue

open Rust

/-- Length of a queue id. -/
abbrev queueIdLen : Nat := 16

/-- Scheme prefix of an address. -/
def aqidScheme : String := "aqid:"

/-- Malformed id, address or argument. -/
inductive AnonQueueError where
  | badRelay (msg : String)
  | badIdLen (what : String) (got : Nat)
  | badAddress (msg : String)
  | badBase64
deriving DecidableEq, Repr

variable (B : Base64.Engine)

/-- Encode a publishable queue address. -/
def encodeAqid (relay : String) (senderId : Bytes) : Outcome AnonQueueError String :=
  if relay = "" then .err (.badRelay "must be a non-empty string")
  else if '/' ∈ relay.toList then .err (.badRelay "must not contain '/'")
  else if senderId.length ≠ queueIdLen then .err (.badIdLen "sender_id" senderId.length)
  else
    let b64 := B.encode senderId
    .ok (aqidScheme ++ relay ++ "/" ++ b64)

/-- Decode an address back to the relay and the sender id. -/
def decodeAqid (s : String) : Outcome AnonQueueError (String × ByteBlock queueIdLen) := do
  let body ← Outcome.okOr (.badAddress "must start with 'aqid:'") (stripPrefix aqidScheme s)
  let (relay, b64) ← Outcome.okOr (.badAddress "must be 'aqid:<relay>/<id>'") (splitOnce '/' body)
  if relay = "" then .err (.badAddress "relay must be non-empty")
  else if b64 = "" then .err (.badAddress "id must be non-empty")
  else do
    let raw ← (Outcome.ofExcept (B.decode (utf8 b64))).mapErr fun _ => .badBase64
    if raw.length ≠ queueIdLen then .err (.badIdLen "decoded id" raw.length)
    else do
      let senderId ← fromSlice queueIdLen raw
      pure (relay, senderId)

/-! ## What is accepted -/

variable {B}

/-- A relay that an address can name. -/
def Relay (relay : String) : Prop := relay ≠ "" ∧ '/' ∉ relay.toList

theorem encodeAqid_eq_ok_iff {relay s : String} {senderId : Bytes} :
    encodeAqid B relay senderId = .ok s ↔
      Relay relay ∧ senderId.length = queueIdLen ∧
        s = aqidScheme ++ relay ++ "/" ++ B.encode senderId := by
  unfold encodeAqid Relay
  simp only [Outcome.guard_eq_ok_iff, ne_eq, not_not, Outcome.ok.injEq, and_assoc]
  rw [eq_comm (a := s)]

/-- The body of an address is split where its relay ends. -/
theorem splitOnce_body {relay : String} (hrelay : Relay relay) (b64 : String) :
    splitOnce '/' (relay ++ "/" ++ b64) = some (relay, b64) := by
  apply splitOnce_eq_some_iff.mpr
  refine ⟨hrelay.2, ?_⟩
  simp

/-- Sixteen bytes encode to some text. -/
theorem encode_ne_empty (exact : B.Exact) (hnil : B.encode [] = "")
    (senderId : ByteBlock queueIdLen) : B.encode senderId.toList ≠ "" := by
  intro hempty
  have hsame : B.decode (utf8 (B.encode senderId.toList)) = .ok [] := by
    apply (exact.decode_eq_ok_iff _ _).mpr
    rw [hempty, hnil]
  rw [(exact.decode_eq_ok_iff _ _).mpr rfl, Except.ok.injEq] at hsame
  have hlen := congrArg List.length hsame
  simp at hlen

/-- An address in its written form decodes. -/
theorem decodeAqid_append (exact : B.Exact) (hnil : B.encode [] = "") {relay : String}
    (hrelay : Relay relay) (senderId : ByteBlock queueIdLen) :
    decodeAqid B (aqidScheme ++ (relay ++ "/" ++ B.encode senderId.toList)) =
      .ok (relay, senderId) := by
  have hstrip : stripPrefix aqidScheme
      (aqidScheme ++ (relay ++ "/" ++ B.encode senderId.toList)) =
      some (relay ++ "/" ++ B.encode senderId.toList) :=
    stripPrefix_eq_some_iff.mpr rfl
  have hdecode : B.decode (utf8 (B.encode senderId.toList)) = .ok senderId.toList :=
    (exact.decode_eq_ok_iff _ _).mpr rfl
  unfold decodeAqid
  rw [hstrip, Outcome.okOr_some, Outcome.ok_bind, splitOnce_body hrelay, Outcome.okOr_some,
    Outcome.ok_bind]
  dsimp only
  rw [if_neg hrelay.1, if_neg (encode_ne_empty exact hnil senderId), hdecode,
    Outcome.ofExcept_ok, Outcome.mapErr_ok, Outcome.ok_bind,
    if_neg (not_not_intro senderId.toList_length), fromSlice_toList, Outcome.ok_bind,
    Outcome.pure_eq]

/-- An address that decodes is in the written form of what it decodes to. -/
theorem written_of_decodeAqid (exact : B.Exact) {s relay : String}
    {senderId : ByteBlock queueIdLen} (h : decodeAqid B s = .ok (relay, senderId)) :
    Relay relay ∧ s = aqidScheme ++ (relay ++ "/" ++ B.encode senderId.toList) := by
  simp only [decodeAqid, Outcome.bind_eq_ok_iff, Outcome.guard_eq_ok_iff, Outcome.okOr_eq_ok_iff,
    Outcome.mapErr_eq_ok_iff, Outcome.ofExcept_eq_ok_iff, fromSlice_eq_ok_iff, Outcome.pure_eq,
    Outcome.ok.injEq, Prod.exists, Prod.mk.injEq] at h
  obtain ⟨body, hbody, relay', b64, hsplit, hrelay, -, raw, hraw, -, id, rfl, rfl, rfl⟩ := h
  have hs := stripPrefix_eq_some_iff.mp hbody
  have hparts := splitOnce_eq_some_iff.mp hsplit
  have htext : utf8 b64 = utf8 (B.encode id.toList) := (exact.decode_eq_ok_iff _ _).mp hraw
  refine ⟨⟨hrelay, hparts.1⟩, ?_⟩
  rw [hs, ← utf8_injective htext]
  congr 1
  apply String.toList_inj.mp
  rw [hparts.2]
  simp

theorem decodeAqid_eq_ok_iff (exact : B.Exact) (hnil : B.encode [] = "") {s relay : String}
    {senderId : ByteBlock queueIdLen} :
    decodeAqid B s = .ok (relay, senderId) ↔
      Relay relay ∧ s = aqidScheme ++ (relay ++ "/" ++ B.encode senderId.toList) := by
  constructor
  · exact written_of_decodeAqid exact
  · rintro ⟨hrelay, rfl⟩
    exact decodeAqid_append exact hnil hrelay senderId

/-! ## The codec -/

/-- An address decodes to a relay and an id exactly when these encode to it; so
every relay without a slash comes back, and no address has a second spelling. -/
theorem address_codec_exact (exact : B.Exact) (hnil : B.encode [] = "") :
    (∀ s relay (senderId : ByteBlock queueIdLen),
      decodeAqid B s = .ok (relay, senderId) ↔ encodeAqid B relay senderId.toList = .ok s) ∧
    (∀ relay (senderId : ByteBlock queueIdLen), Relay relay →
      ∃ s, encodeAqid B relay senderId.toList = .ok s ∧
        decodeAqid B s = .ok (relay, senderId)) ∧
    ∀ s s' relay (senderId : ByteBlock queueIdLen), decodeAqid B s = .ok (relay, senderId) →
      decodeAqid B s' = .ok (relay, senderId) → s = s' := by
  have hiff : ∀ s relay (senderId : ByteBlock queueIdLen),
      decodeAqid B s = .ok (relay, senderId) ↔ encodeAqid B relay senderId.toList = .ok s := by
    intro s relay senderId
    rw [decodeAqid_eq_ok_iff exact hnil, encodeAqid_eq_ok_iff,
      and_iff_right senderId.toList_length]
    simp only [String.append_assoc]
  refine ⟨hiff, ?_, ?_⟩
  · intro relay senderId hrelay
    have hencode : encodeAqid B relay senderId.toList =
        .ok (aqidScheme ++ relay ++ "/" ++ B.encode senderId.toList) :=
      encodeAqid_eq_ok_iff.mpr ⟨hrelay, senderId.toList_length, rfl⟩
    exact ⟨_, hencode, (hiff _ _ _).mpr hencode⟩
  · intro s s' relay senderId h h'
    have hs := (hiff _ _ _).mp h
    have hs' := (hiff _ _ _).mp h'
    rw [hs, Outcome.ok.injEq] at hs'
    exact hs'

/-- An address whose relay is a colon. -/
theorem address_codec_exact_colon :
    encodeAqid Base64.urlSafeNoPad ":" (List.replicate 16 255) =
        .ok "aqid::/_____________________w" ∧
      decodeAqid Base64.urlSafeNoPad "aqid::/_____________________w" =
        .ok (":", List.Vector.replicate 16 255) := by
  have hencode : encodeAqid Base64.urlSafeNoPad ":" (List.replicate 16 255) =
      .ok "aqid::/_____________________w" := by
    decide
  have hexact := address_codec_exact Base64.urlSafeNoPad_exact rfl
  exact ⟨hencode, (hexact.1 _ ":" (List.Vector.replicate 16 255)).mpr hencode⟩

end AnonQueue
end SkPqc
