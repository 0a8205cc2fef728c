import SkPqc.DmSession.Codec
import SkPqc.DmSession.Delivery

/-!
# Two sessions that exchange tokens

On the wire a frame is a `pqdr1:` token.  A party seals and serializes, and what
it is handed is a text, which it parses before it opens.  A network of texts has
the power of a network of frames whose fields fit their length prefixes, no more
and no less: a text that parses is the token of one such frame, and each such
frame has a token that parses to it.

Main results:

- Theorem `wire_matches_link`: the token exchange and the frame exchange reach
  the same sessions, over a network that delivers anything and over one that
  delivers what was sent.
- Theorem `tokens_deliver`: over faithful deliveries of tokens, a covered token of
  an epoch that the receiver has not begun opens to its plaintext.
-/

namespace SkPqc
namespace DmSession

open Rust Kem Ratchet StateMachine

/-! ## The machine -/

/-- A token as its sender logs it, with the plaintext. -/
structure Token where
  text : String
  plaintext : Bytes

/-- Two sessions, the tokens each has sent and the texts each was handed. -/
structure Wire (φ : Type) where
  session : Party → DmSession φ
  sent : Party → List Token
  received : Party → List String

inductive WireEvent (φ : Type) where
  | seal (p : Party) (plaintext : Bytes) (draws : SealDraws φ)
  | deliver (p : Party) (text : String)

section Machine

variable {φ : Type} [F64 φ] (P : Primitives) (B : Base64.Engine) (keys : Party → KeypairDraws)

/-- The frame of a text that parses, on a 64-bit machine. -/
def parsed (text : String) : Option SealedDmFrame :=
  match fromToken B 64 text with
  | .ok frame => some frame
  | _ => none

/-- What a seal adds to the log. -/
def sentToken (s : DmSession φ) (plaintext peerHybridPub : Bytes) (draws : SealDraws φ) :
    List Token :=
  match ((DmSession.seal P plaintext peerHybridPub draws).run s).1 with
  | .ok frame => [⟨frame.toToken B, plaintext⟩]
  | _ => []

/-- The session after it was handed a text. -/
def handedText (s : DmSession φ) (myHybridPriv : Bytes) (text : String) : DmSession φ :=
  match parsed B text with
  | some frame => ((DmSession.open P frame myHybridPriv).run s).2
  | none => s

def Wire.next (W : Wire φ) : WireEvent φ → Wire φ
  | .seal p plaintext draws =>
      let pub := publicKey P keys p.peer
      { W with
        session := Function.update W.session p
          ((DmSession.seal P plaintext pub draws).run (W.session p)).2
        sent := Function.update W.sent p
          (sentToken P B (W.session p) plaintext pub draws ++ W.sent p) }
  | .deliver p text =>
      { W with
        session := Function.update W.session p
          (handedText P B (W.session p) (privateKey P keys p) text)
        received := Function.update W.received p (text :: W.received p) }

/-- Two fresh sessions with any bounds. -/
def Wire.Fresh (W : Wire φ) : Prop :=
  (∀ p, ∃ peer bound age, W.session p = withBounds peer bound age) ∧
    (∀ p, W.sent p = []) ∧ ∀ p, W.received p = []

/-- The exchange over a network that may deliver any text. -/
def wire (φ : Type) [F64 φ] : StateMachine (Wire φ) (WireEvent φ) where
  init := Wire.Fresh
  accepts _ _ := True
  next := Wire.next P B keys

/-- Deliveries of tokens that the peer has sent, possibly lost, reordered or
repeated; bodies within the 32-bit length field, rekeys with a next epoch. -/
def FaithfulWire (W : Wire φ) : WireEvent φ → Prop
  | .seal p plaintext draws => plaintext.length + 16 < 2 ^ 32 ∧ EpochFits (W.session p) draws
  | .deliver p text => ∃ m ∈ W.sent p.peer, m.text = text

/-- Texts that a 64-bit machine can hold. -/
def TextFits (_ : Wire φ) : WireEvent φ → Prop
  | .seal _ _ _ => True
  | .deliver _ text => (utf8 text).length < 2 ^ 63

/-- Frames whose fields fit their length prefixes. -/
def FrameFits (_ : Link φ) : Event φ → Prop
  | .seal _ _ _ => True
  | .deliver _ frame => frame.FieldsFit

/-- Faithful deliveries of frames with bodies within the 32-bit length field. -/
def FaithfulShort (L : Link φ) : Event φ → Prop
  | .seal p plaintext draws => plaintext.length + 16 < 2 ^ 32 ∧ EpochFits (L.session p) draws
  | .deliver p frame => ∃ m ∈ L.sealed p.peer, m.frame = frame

/-- The link shows what the exchange shows, token for frame: the texts that parsed
are the tokens of the frames that were delivered. -/
structure Carries (W : Wire φ) (L : Link φ) : Prop where
  session : W.session = L.session
  sent : ∀ p, W.sent p = (L.sealed p).map fun m => ⟨m.frame.toToken B, m.plaintext⟩
  received : ∀ p, L.delivered p = (W.received p).filterMap (parsed B)
  tokens : ∀ p, (L.delivered p).map (SealedDmFrame.toToken B) =
    (W.received p).filter fun text => (parsed B text).isSome

end Machine

/-! ## Texts that parse -/

section Parsed

variable {B : Base64.Engine} {text : String} {frame : SealedDmFrame}

theorem parsed_eq_some_iff : parsed B text = some frame ↔ fromToken B 64 text = .ok frame := by
  unfold parsed
  split <;> simp_all

theorem parsed_toToken (exact : B.Exact) (hfields : frame.FieldsFit) :
    parsed B (frame.toToken B) = some frame :=
  parsed_eq_some_iff.mpr (fromToken_toToken exact hfields)

end Parsed

/-! ## The simulation -/

section Simulation

variable {φ : Type} [F64 φ] {P : Primitives} {B : Base64.Engine} {keys : Party → KeypairDraws}

theorem sentToken_eq (s : DmSession φ) (plaintext peerHybridPub : Bytes) (draws : SealDraws φ) :
    sentToken P B s plaintext peerHybridPub draws =
      (logged P s plaintext peerHybridPub draws).map fun m =>
        ⟨m.frame.toToken B, m.plaintext⟩ := by
  unfold sentToken logged
  cases ((DmSession.seal P plaintext peerHybridPub draws).run s).1 with
  | ok frame => rfl
  | err e => rfl
  | panic => rfl

omit [F64 φ] in
/-- Two fresh exchanges with the same sessions. -/
theorem Carries.of_fresh {W : Wire φ} {L : Link φ} (hW : W.Fresh) (hL : L.Fresh)
    (hsession : W.session = L.session) : Carries B W L where
  session := hsession
  sent p := by
    rw [hW.2.1, hL.2.1]
    rfl
  received p := by
    rw [hW.2.2, hL.2.2]
    rfl
  tokens p := by
    rw [hW.2.2, hL.2.2]
    rfl

omit [F64 φ] in
/-- Fresh exchanges carry fresh links. -/
theorem Wire.Fresh.exists_link {W : Wire φ} (hW : W.Fresh) :
    ∃ L : Link φ, L.Fresh ∧ Carries B W L := by
  have hL : Link.Fresh (⟨W.session, fun _ => [], fun _ => []⟩ : Link φ) :=
    ⟨hW.1, fun _ => rfl, fun _ => rfl⟩
  exact ⟨_, hL, .of_fresh hW hL rfl⟩

omit [F64 φ] in
/-- Fresh links are carried by fresh exchanges. -/
theorem Link.Fresh.exists_wire {L : Link φ} (hL : L.Fresh) :
    ∃ W : Wire φ, W.Fresh ∧ Carries B W L := by
  have hW : Wire.Fresh (⟨L.session, fun _ => [], fun _ => []⟩ : Wire φ) :=
    ⟨hL.1, fun _ => rfl, fun _ => rfl⟩
  exact ⟨_, hW, .of_fresh hW hL rfl⟩

/-- A sealed token carries the sealed frame. -/
theorem Carries.seal {W : Wire φ} {L : Link φ} (h : Carries B W L) (p : Party)
    (plaintext : Bytes) (draws : SealDraws φ) :
    Carries B (W.next P B keys (.seal p plaintext draws))
      (L.next P keys (.seal p plaintext draws)) where
  session := by simp only [Wire.next, Link.next, h.session]
  sent q := by
    rcases p.eq_or_eq_peer q with rfl | rfl
    · simp only [Wire.next, Link.next, Function.update_self, List.map_append, h.session, h.sent,
        sentToken_eq]
    · simp only [Wire.next, Link.next, Function.update_of_ne p.peer_ne, h.sent]
  received := h.received
  tokens := h.tokens

/-- A token that parses to its frame delivers that frame. -/
theorem Carries.deliver {W : Wire φ} {L : Link φ} (h : Carries B W L) (p : Party)
    {frame : SealedDmFrame} (hparsed : parsed B (frame.toToken B) = some frame) :
    Carries B (W.next P B keys (.deliver p (frame.toToken B)))
      (L.next P keys (.deliver p frame)) where
  session := by simp only [Wire.next, Link.next, handedText, hparsed, h.session]
  sent := h.sent
  received q := by
    rcases p.eq_or_eq_peer q with rfl | rfl
    · simp only [Wire.next, Link.next, Function.update_self, h.received,
        List.filterMap_cons_some hparsed]
    · simp only [Wire.next, Link.next, Function.update_of_ne p.peer_ne, h.received]
  tokens q := by
    rcases p.eq_or_eq_peer q with rfl | rfl
    · simp only [Wire.next, Link.next, Function.update_self, List.map_cons, h.tokens,
        List.filter_cons, hparsed, Option.isSome_some, if_true]
    · simp only [Wire.next, Link.next, Function.update_of_ne p.peer_ne, h.tokens]

/-- A text that does not parse delivers nothing. -/
theorem Carries.skip {W : Wire φ} {L : Link φ} (h : Carries B W L) (p : Party)
    {text : String} (hparsed : parsed B text = none) :
    Carries B (W.next P B keys (.deliver p text)) L where
  session := by
    simp only [Wire.next, handedText, hparsed, Function.update_eq_self, h.session]
  sent := h.sent
  received q := by
    rcases p.eq_or_eq_peer q with rfl | rfl
    · simp only [Wire.next, Function.update_self, h.received, List.filterMap_cons_none hparsed]
    · simp only [Wire.next, Function.update_of_ne p.peer_ne, h.received]
  tokens q := by
    rcases p.eq_or_eq_peer q with rfl | rfl
    · simp only [Wire.next, Function.update_self, h.tokens, List.filter_cons, hparsed,
        Option.isSome_none, Bool.false_eq_true, if_false]
    · simp only [Wire.next, Function.update_of_ne p.peer_ne, h.tokens]

/-! ## A network that delivers anything -/

/-- A text that parses is the token of a frame whose fields fit. -/
theorem texts_simulate_frames (laws : B.Laws) (exact : B.Exact) :
    Simulation ((wire P B keys φ).restrict TextFits) ((link P keys φ).restrict FrameFits)
      (Carries B) where
  init _ hfresh := hfresh.exists_link
  step := by
    rintro W L (⟨p, plaintext, draws⟩ | ⟨p, text⟩) _ _ hcarries ⟨_, hfits⟩
    · exact .inr ⟨.seal p plaintext draws, ⟨trivial, trivial⟩, hcarries.seal p plaintext draws⟩
    · cases hparsed : parsed B text with
      | none => exact .inl (hcarries.skip p hparsed)
      | some frame =>
          rcases toToken_of_fromToken laws exact hfits (parsed_eq_some_iff.mp hparsed)
            with ⟨rfl, hfields⟩
          exact .inr ⟨.deliver p frame, ⟨trivial, hfields⟩, hcarries.deliver p hparsed⟩

/-- A frame whose fields fit has a token that parses to it. -/
theorem frames_simulate_texts (exact : B.Exact) (padded : B.Padded) :
    Simulation ((link P keys φ).restrict FrameFits) ((wire P B keys φ).restrict TextFits)
      fun L W => Carries B W L where
  init _ hfresh := hfresh.exists_wire
  step := by
    rintro L W (⟨p, plaintext, draws⟩ | ⟨p, frame⟩) _ _ hcarries ⟨_, hfits⟩
    · exact .inr ⟨.seal p plaintext draws, ⟨trivial, trivial⟩, hcarries.seal p plaintext draws⟩
    · exact .inr ⟨.deliver p (frame.toToken B), ⟨trivial, hfits.length_toToken_lt padded⟩,
        hcarries.deliver p (parsed_toToken exact hfits)⟩

/-! ## Faithful deliveries -/

theorem plaintext_of_logged {s : DmSession φ} {plaintext peerHybridPub : Bytes}
    {draws : SealDraws φ} {m : Sealed} (hm : m ∈ logged P s plaintext peerHybridPub draws) :
    m.plaintext = plaintext := by
  unfold logged at hm
  cases hsealed : ((DmSession.seal P plaintext peerHybridPub draws).run s).1 with
  | ok frame =>
      simp only [hsealed, List.mem_singleton] at hm
      rw [hm]
  | err e => simp [hsealed] at hm
  | panic => simp [hsealed] at hm

/-- A KAM that unwraps has the length of a wrapped payload. -/
theorem length_of_unwrapDmEpochSecret {payload priv : Bytes} {secret : ByteBlock epochSecretLen}
    (h : unwrapDmEpochSecret P payload priv = .ok secret) :
    payload.length = wrappedPayloadLen := by
  by_contra hlen
  simp [unwrapDmEpochSecret, hlen] at h

/-- The fields of a sealed frame fit, unless its plaintext is too long. -/
theorem fieldsFit_of_under (aead : P.AeadLaws) {receiverPriv : Bytes} {m : Sealed}
    {secret : ByteBlock epochSecretLen} (h : m.Under P receiverPriv secret)
    (hlen : m.plaintext.length + 16 < 2 ^ 32) : m.frame.FieldsFit := by
  rcases h.body with ⟨nonce, hnonce, hbody⟩
  refine ⟨?_, ?_, ?_⟩
  · rw [hnonce, List.Vector.toList_length]
    decide
  · rw [aead.length_encrypt _ _ _ _ _ hbody]
    exact hlen
  · intro kam hkam
    rw [length_of_unwrapDmEpochSecret (h.kam kam hkam)]
    decide

/-- No plaintext was too long. -/
theorem short_of_faithfulShort {L : Link φ}
    (hL : ((link P keys φ).restrict FaithfulShort).Reachable L) (p : Party) :
    ∀ m ∈ L.sealed p, m.plaintext.length + 16 < 2 ^ 32 := by
  revert p
  refine hL.invariant (fun L => ∀ p, ∀ m ∈ L.sealed p, m.plaintext.length + 16 < 2 ^ 32) ?_ ?_
  · intro L hfresh p m hm
    rw [hfresh.2.1 p] at hm
    cases hm
  · rintro L (⟨p, plaintext, draws⟩ | ⟨p, frame⟩) _ hinv ⟨_, hacc⟩ q m hm
    · have hlog : ((link P keys φ).restrict FaithfulShort).next L (.seal p plaintext draws) =
          L.next P keys (.seal p plaintext draws) := rfl
      rw [hlog] at hm
      rcases p.eq_or_eq_peer q with rfl | rfl
      · simp only [Link.next, Function.update_self] at hm
        rcases List.mem_append.mp hm with hnew | hold
        · rw [plaintext_of_logged hnew]
          exact hacc.1
        · exact hinv q m hold
      · simp only [Link.next, Function.update_of_ne p.peer_ne] at hm
        exact hinv p.peer m hm
    · exact hinv q m hm

theorem faithful_of_faithfulShort {L : Link φ}
    (hL : ((link P keys φ).restrict FaithfulShort).Reachable L) :
    ((link P keys φ).restrict Faithful).Reachable L := by
  apply hL.restrict_mono
  rintro L (⟨p, plaintext, draws⟩ | ⟨p, frame⟩) hacc
  · exact hacc.2
  · exact hacc

/-- What was sealed over faithful deliveries parses back. -/
theorem parsed_of_sealed (kem : P.KemLaws) (aead : P.AeadLaws) (exact : B.Exact) {L : Link φ}
    (hL : ((link P keys φ).restrict FaithfulShort).Reachable L) {p : Party} {m : Sealed}
    (hm : m ∈ L.sealed p) : parsed B (m.frame.toToken B) = some m.frame := by
  rcases Link.inv kem aead (faithful_of_faithfulShort hL) with ⟨book, hside, _⟩
  rcases (hside p).sent m hm with ⟨_, secret, _, hunder⟩
  exact parsed_toToken exact (fieldsFit_of_under aead hunder (short_of_faithfulShort hL p m hm))

/-- Tokens that were sent parse to the frames that were sealed. -/
theorem tokens_simulate_frames (kem : P.KemLaws) (aead : P.AeadLaws) (exact : B.Exact) :
    Simulation ((wire P B keys φ).restrict FaithfulWire)
      ((link P keys φ).restrict FaithfulShort) (Carries B) where
  init _ hfresh := hfresh.exists_link
  step := by
    rintro W L (⟨p, plaintext, draws⟩ | ⟨p, text⟩) _ hL hcarries ⟨_, hacc⟩
    · refine .inr ⟨.seal p plaintext draws, ⟨trivial, ?_⟩, hcarries.seal p plaintext draws⟩
      rw [FaithfulShort, ← hcarries.session]
      exact hacc
    · rcases hacc with ⟨token, htoken, rfl⟩
      rw [hcarries.sent, List.mem_map] at htoken
      rcases htoken with ⟨m, hm, rfl⟩
      exact .inr ⟨.deliver p m.frame, ⟨trivial, m, hm, rfl⟩,
        hcarries.deliver p (parsed_of_sealed kem aead exact hL hm)⟩

/-- Frames that were sealed have their tokens on the wire. -/
theorem frames_simulate_tokens (kem : P.KemLaws) (aead : P.AeadLaws) (exact : B.Exact) :
    Simulation ((link P keys φ).restrict FaithfulShort)
      ((wire P B keys φ).restrict FaithfulWire) fun L W => Carries B W L where
  init _ hfresh := hfresh.exists_wire
  step := by
    rintro L W (⟨p, plaintext, draws⟩ | ⟨p, frame⟩) hL _ hcarries ⟨_, hacc⟩
    · refine .inr ⟨.seal p plaintext draws, ⟨trivial, ?_⟩, hcarries.seal p plaintext draws⟩
      rw [FaithfulWire, hcarries.session]
      exact hacc
    · rcases hacc with ⟨m, hm, rfl⟩
      have htoken : (⟨m.frame.toToken B, m.plaintext⟩ : Token) ∈ W.sent p.peer := by
        rw [hcarries.sent]
        exact List.mem_map.mpr ⟨m, hm, rfl⟩
      exact .inr ⟨.deliver p (m.frame.toToken B), ⟨trivial, _, htoken, rfl⟩,
        hcarries.deliver p (parsed_of_sealed kem aead exact hL hm)⟩

/-- The exchange of tokens reaches the sessions that the exchange of frames
reaches, and no others: over a network that delivers any texts, against one that
delivers any frames whose fields fit, and over one that delivers the tokens that
were sent, against one that delivers the frames that were sealed. -/
theorem wire_matches_link (kem : P.KemLaws) (aead : P.AeadLaws) (laws : B.Laws)
    (exact : B.Exact) (padded : B.Padded) :
    Matches ((wire P B keys φ).restrict TextFits) ((link P keys φ).restrict FrameFits)
        (Carries B) ∧
      Matches ((wire P B keys φ).restrict FaithfulWire) ((link P keys φ).restrict FaithfulShort)
        (Carries B) := by
  constructor
  · exact .of_simulations (texts_simulate_frames laws exact) (frames_simulate_texts exact padded)
  · exact .of_simulations (tokens_simulate_frames kem aead exact)
      (frames_simulate_tokens kem aead exact)

/-- In every run of two sessions that exchange tokens over faithful deliveries,
every token that was sent parses; where its frame is covered by what the receiver
was handed, and the receiver has not begun the epoch of the frame, opening it
gives the plaintext. -/
theorem tokens_deliver (kem : P.KemLaws) (aead : P.AeadLaws) (exact : B.Exact) {W : Wire φ}
    (hW : ((wire P B keys φ).restrict FaithfulWire).Reachable W) (p : Party) {m : Token}
    (hm : m ∈ W.sent p.peer) :
    ∃ frame, fromToken B 64 m.text = .ok frame ∧
      (Covered ((W.received p).filterMap (parsed B)) frame →
        ¬ HasBegun (W.session p) frame.epoch →
        ((DmSession.open P frame (privateKey P keys p)).run (W.session p)).1 =
          .ok m.plaintext) := by
  rcases (tokens_simulate_frames kem aead exact).reachable hW with ⟨L, hL, hcarries⟩
  rw [hcarries.sent, List.mem_map] at hm
  rcases hm with ⟨n, hn, rfl⟩
  refine ⟨n.frame, parsed_eq_some_iff.mp (parsed_of_sealed kem aead exact hL hn), ?_⟩
  rw [← hcarries.received, hcarries.session]
  intro hcovered hbegun
  have hinv := Link.inv kem aead (faithful_of_faithfulShort hL)
  exact hinv.open_covered aead hn hcovered hbegun

end Simulation

/-! ## A sample exchange -/

namespace Sample

def wireStart : Wire Int where
  session _ := DmSession.new "peer"
  sent _ := []
  received _ := []

/-- The first party has sent one token. -/
def tokenSent : Wire Int :=
  wireStart.next Primitives.transparent Base64.standard linkKeys (.seal .a [104, 105] (draws 7))

/-- Then the other one was handed a text that is no token and a token that nobody
sent. -/
def garbled : Wire Int :=
  (tokenSent.next Primitives.transparent Base64.standard linkKeys (.deliver .b "hello")).next
    Primitives.transparent Base64.standard linkKeys (.deliver .b emptyToken)

theorem wireStart_fresh : wireStart.Fresh :=
  ⟨fun _ => ⟨_, _, _, rfl⟩, fun _ => rfl, fun _ => rfl⟩

theorem garbled_reachable :
    ((wire Primitives.transparent Base64.standard linkKeys Int).restrict TextFits).Reachable
      garbled := by
  have hstart : ((wire Primitives.transparent Base64.standard linkKeys Int).restrict
      TextFits).Reachable wireStart := .init wireStart_fresh
  have hhello : (utf8 "hello").length < 2 ^ 63 := by decide +kernel
  have htoken : (utf8 emptyToken).length < 2 ^ 63 := by decide +kernel
  have hsent := hstart.step (WireEvent.seal .a [104, 105] (draws 7)) ⟨trivial, trivial⟩
  have hgarbage := hsent.step (WireEvent.deliver .b "hello") ⟨trivial, hhello⟩
  exact hgarbage.step (WireEvent.deliver .b emptyToken) ⟨trivial, htoken⟩

theorem tokenSent_reachable :
    ((wire Primitives.transparent Base64.standard linkKeys Int).restrict FaithfulWire).Reachable
      tokenSent := by
  have hstart : ((wire Primitives.transparent Base64.standard linkKeys Int).restrict
      FaithfulWire).Reachable wireStart := .init wireStart_fresh
  have hacc : FaithfulWire wireStart (.seal .a [104, 105] (draws 7)) := by
    refine ⟨by decide, ?_⟩
    intro r hr
    cases hr
  exact hstart.step _ ⟨trivial, hacc⟩

theorem sealedOnce_reachable_short :
    ((link Primitives.transparent linkKeys Int).restrict FaithfulShort).Reachable sealedOnce := by
  have hstart : ((link Primitives.transparent linkKeys Int).restrict FaithfulShort).Reachable
      start := .init start_fresh
  have hacc : FaithfulShort start (.seal .a [104, 105] (draws 7)) := by
    refine ⟨by decide, ?_⟩
    intro r hr
    cases hr
  exact hstart.step _ ⟨trivial, hacc⟩

/-- The token is that of the session's first frame. -/
theorem tokenSent_sent :
    tokenSent.sent .a = (sealedOnce.sealed .a).map fun m =>
      ⟨m.frame.toToken Base64.standard, m.plaintext⟩ := by
  have hcarries : Carries Base64.standard wireStart start :=
    .of_fresh wireStart_fresh start_fresh rfl
  exact (hcarries.seal .a [104, 105] (draws 7)).sent .a

end Sample

/-- The exchange after the two texts is that of a link over which the frame of the
second one was delivered. -/
theorem wire_matches_link_garbled :
    ∃ L, ((link Primitives.transparent Sample.linkKeys Int).restrict FrameFits).Reachable L ∧
      Carries Base64.standard Sample.garbled L ∧
      L.delivered .b = [{ epoch := 0, index := 0, nonce := [], body := [], kam := none }] := by
  rcases (wire_matches_link (Primitives.tagged_kemLaws _) (Primitives.tagged_aeadLaws _)
    Base64.standard_laws Base64.standard_exact Base64.standard_padded).1.forward _
      Sample.garbled_reachable with ⟨L, hL, hcarries⟩
  refine ⟨L, hL, hcarries, ?_⟩
  rw [hcarries.received]
  decide +kernel

/-- The token that was sent opens to its plaintext. -/
theorem tokens_deliver_first :
    ∃ m ∈ Sample.tokenSent.sent .a, ∃ frame,
      fromToken Base64.standard 64 m.text = .ok frame ∧
      ((DmSession.open Primitives.transparent frame
        (privateKey Primitives.transparent Sample.linkKeys .b)).run
        (Sample.tokenSent.session .b)).1 = .ok m.plaintext := by
  have hkam : ∃ m ∈ Sample.sealedOnce.sealed .a, m.frame.kam.isSome := by decide +kernel
  rcases hkam with ⟨n, hn, hkam⟩
  have hm : (⟨n.frame.toToken Base64.standard, n.plaintext⟩ : Token) ∈
      Sample.tokenSent.sent .a := by
    rw [Sample.tokenSent_sent]
    exact List.mem_map.mpr ⟨n, hn, rfl⟩
  rcases tokens_deliver (Primitives.tagged_kemLaws _) (Primitives.tagged_aeadLaws _)
    Base64.standard_exact Sample.tokenSent_reachable .b hm with ⟨frame, hparsed, hopens⟩
  have hframe : frame = n.frame := by
    have hback := parsed_of_sealed (Primitives.tagged_kemLaws _) (Primitives.tagged_aeadLaws _)
      Base64.standard_exact Sample.sealedOnce_reachable_short hn
    rw [parsed_eq_some_iff, hparsed] at hback
    exact Outcome.ok.inj hback
  refine ⟨_, hm, frame, hparsed, hopens (.inl (by rw [hframe]; exact hkam)) ?_⟩
  rintro ⟨r, hr, _⟩
  have hnone : (Sample.tokenSent.session .b).ratchet.isNone := by decide +kernel
  simp [hr] at hnone

end DmSession
end SkPqc
