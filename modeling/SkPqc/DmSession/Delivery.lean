import SkPqc.DmSession.Link

/-!
# Delivery between two sessions

The secret store of a session is keyed by the epoch number alone, and both
sessions number their epochs from 0.  Over faithful deliveries a session holds
the peer's secret of every epoch whose KAM it was handed, as long as it has not
begun that epoch itself.

Main results:

- Theorem `Link.inv`: the invariant of every run over faithful deliveries.
- Theorem `two_way_delivery`: a covered frame of an epoch that the receiver has
  not begun opens to the plaintext.
- Theorem `sealing_blocks_opening`: a covered frame of an epoch the receiver has
  begun can be refused.
- Theorem `one_way_delivery`: with one sender, every covered frame opens to the
  plaintext and every other frame misses its secret.
-/

namespace SkPqc
namespace DmSession

open Rust Kem Ratchet NumberedStore

variable {φ : Type}

/-! ## One side of the link -/

/-- The frame was sealed under the epoch secret, and its KAM, if it has one,
unwraps to that secret. -/
structure Sealed.Under (P : Primitives) (receiverPriv : Bytes) (m : Sealed)
    (secret : ByteBlock epochSecretLen) : Prop where
  body : ∃ nonce : ByteBlock frameNonceLen, m.frame.nonce = nonce.toList ∧
    P.aesGcmEncrypt (messageKey P secret m.frame.epoch m.frame.index) nonce
      (frameAad m.frame.epoch m.frame.index) m.plaintext = some m.frame.body
  kam : ∀ kam, m.frame.kam = some kam → unwrapDmEpochSecret P kam receiverPriv = .ok secret

/-- The body opens to the plaintext under the epoch secret that sealed it. -/
theorem Sealed.Under.openBody_eq {P : Primitives} (aead : P.AeadLaws) {receiverPriv : Bytes}
    {m : Sealed} {secret : ByteBlock epochSecretLen} (h : m.Under P receiverPriv secret) :
    openBody P secret m.frame = .ok m.plaintext := by
  rcases h.body with ⟨nonce, hnonce, hseal⟩
  unfold openBody
  rw [hnonce, Primitives.aes256GcmDecrypt_toList, Outcome.ok_bind,
    aead.decrypt_encrypt _ _ _ _ _ hseal, Outcome.okOr_some]

/-- The invariant of one side: its session refines the store `st`, what it has
sealed is in the store under its own numbers, and what it was handed accounts
for the other entries. -/
structure Side (P : Primitives) (peerPriv : Bytes) (s : DmSession φ)
    (st : Store (ByteBlock epochSecretLen)) (sent : List Sealed)
    (delivered : List SealedDmFrame) : Prop where
  refines : Refines s st
  current : ∀ r, s.ratchet = some r → st.entry r.epoch.toNat = some r.epochSecret ∧
    ∃ kam, s.currentKam = some kam ∧ unwrapDmEpochSecret P kam peerPriv = .ok r.epochSecret
  sent : ∀ m ∈ sent, m.frame.epoch.toNat < st.next ∧
    ∃ secret, st.entry m.frame.epoch.toNat = some secret ∧ m.Under P peerPriv secret
  covered : ∀ f ∈ delivered, f.kam.isSome → (st.entry f.epoch.toNat).isSome
  learned : ∀ e : UInt64, st.next ≤ e.toNat → (st.entry e.toNat).isSome →
    KamDelivered delivered e

section Side

variable {P : Primitives} {peerPriv : Bytes} {s : DmSession φ}
  {st : Store (ByteBlock epochSecretLen)} {sent : List Sealed}
  {delivered : List SealedDmFrame}

/-- What was sealed stays under its numbers in every later store. -/
theorem Side.sent_of_extends {st' : Store (ByteBlock epochSecretLen)}
    (h : Side P peerPriv s st sent delivered) (hext : Extends st st') :
    ∀ m ∈ sent, m.frame.epoch.toNat < st'.next ∧
      ∃ secret, st'.entry m.frame.epoch.toNat = some secret ∧ m.Under P peerPriv secret := by
  intro m hm
  rcases h.sent m hm with ⟨hlt, secret, hentry, hunder⟩
  refine ⟨lt_of_lt_of_le hlt hext.next, secret, ?_, hunder⟩
  rw [hext.own _ hlt, hentry]

/-- Beginning the next epoch. -/
theorem Side.begun (h : Side P peerPriv s st sent delivered) {epoch : UInt64}
    {draws : SealDraws φ} {kam : Bytes} (hepoch : epoch.toNat = s.nextEpoch)
    (hkam : unwrapDmEpochSecret P kam peerPriv = .ok draws.epochSecret) :
    Side P peerPriv (s.begun epoch draws kam) (st.begin draws.epochSecret) sent delivered where
  refines := h.refines.begun hepoch
  current r hr := by
    cases hr
    refine ⟨?_, kam, rfl, hkam⟩
    have hnext : epoch.toNat = st.next := by rw [hepoch, h.refines.next]
    simp [DmRatchet.withBounds, Store.begin, hnext]
  sent := h.sent_of_extends (extends_begin _ _)
  covered f hf hkam := (extends_begin _ _).isSome _ (h.covered f hf hkam)
  learned e hnext hsome := by
    have hlt : st.next < e.toNat := hnext
    rw [st.entry_begin_of_ne _ (by omega)] at hsome
    exact h.learned e (by omega) hsome

/-- Sealing on the current ratchet. -/
theorem Side.took (h : Side P peerPriv s st sent delivered) {r : DmRatchet φ}
    (hratchet : s.ratchet = some r) (plaintext : Bytes) (draws : SealDraws φ) {new : List Sealed}
    (hnew : ∀ m ∈ new, sealBody P s r plaintext draws = .ok m.frame ∧ m.plaintext = plaintext) :
    Side P peerPriv (s.advance r) st (new ++ sent) delivered where
  refines := h.refines.advance hratchet
  current r' hr' := by
    cases hr'
    exact h.current r hratchet
  sent m hm := by
    rcases List.mem_append.mp hm with hmem | hold
    · rcases hnew m hmem with ⟨hbody, hplain⟩
      rcases h.current r hratchet with ⟨hentry, kam, hcurrent, hunwrap⟩
      rcases (sealBody_eq_ok_iff P).mp hbody with ⟨body, hseal, hframe⟩
      have hlt : r.epoch.toNat < st.next := by
        rw [h.refines.next, nextEpoch_of_ratchet hratchet]
        exact Nat.lt_succ_self _
      rw [hframe]
      refine ⟨hlt, r.epochSecret, hentry, ?_, ?_⟩
      · rw [hframe, hplain]
        exact ⟨draws.frameNonce, rfl, hseal⟩
      · intro kam' hkam'
        rw [hframe] at hkam'
        simp only [hcurrent, Option.ite_none_right_eq_some, Option.some.injEq] at hkam'
        rw [← hkam'.2]
        exact hunwrap
    · exact h.sent m hold
  covered := h.covered
  learned := h.learned

/-- A rekey that returned leaves the session in its store or one number on. -/
theorem Side.rekey [F64 φ] (kem : P.KemLaws) (aead : P.AeadLaws) {keys : KeypairDraws}
    (h : Side P (hybridKeypair P keys).privateKey s st sent delivered) {draws : SealDraws φ}
    {s₁ : DmSession φ} (hfits : EpochFits s draws)
    (hrekey : (rekeyIfDue P (hybridKeypair P keys).publicKey draws).run s = (.ok (), s₁)) :
    ∃ st', (st' = st ∨ ∃ a, st' = st.begin a) ∧
      Side P (hybridKeypair P keys).privateKey s₁ st' sent delivered := by
  cases rekeyStep_of_ok hrekey with
  | current _ _ => exact ⟨st, .inl rfl, h⟩
  | began hdue hwrap =>
      have hunwrap := unwrapDmEpochSecret_wrap kem aead hwrap
      exact ⟨_, .inr ⟨draws.epochSecret, rfl⟩, h.begun (toNat_of_beginAt hfits hdue) hunwrap⟩

/-- One seal. -/
theorem Side.seal [F64 φ] (kem : P.KemLaws) (aead : P.AeadLaws) {keys : KeypairDraws}
    (h : Side P (hybridKeypair P keys).privateKey s st sent delivered) (plaintext : Bytes)
    {draws : SealDraws φ} (hfits : EpochFits s draws) :
    ∃ st', (st' = st ∨ ∃ a, st' = st.begin a) ∧
      Side P (hybridKeypair P keys).privateKey
        ((DmSession.seal P plaintext (hybridKeypair P keys).publicKey draws).run s).2 st'
        (logged P s plaintext (hybridKeypair P keys).publicKey draws ++ sent) delivered := by
  have hstep := seal_step P s plaintext (hybridKeypair P keys).publicKey draws
  generalize hrun : (DmSession.seal P plaintext (hybridKeypair P keys).publicKey draws).run s =
    res at hstep
  cases hstep with
  | refused _ =>
      refine ⟨st, .inl rfl, ?_⟩
      simpa [logged, hrun] using h
  | took hrekey hratchet =>
      rcases h.rekey kem aead hfits hrekey with ⟨st', hst', hside⟩
      refine ⟨st', hst', hside.took hratchet plaintext draws fun m hm => ?_⟩
      rcases mem_logged hrekey hratchet hm with ⟨hbody, hplain, _⟩
      exact ⟨hbody, hplain⟩

/-- A delivery that changes nothing, of a frame whose epoch is known or which
has no KAM. -/
theorem Side.handed (h : Side P peerPriv s st sent delivered) {f : SealedDmFrame}
    (hcovered : f.kam.isSome → (st.entry f.epoch.toNat).isSome) :
    Side P peerPriv s st sent (f :: delivered) where
  refines := h.refines
  current := h.current
  sent := h.sent
  covered := by
    intro g hg hkam
    rcases List.mem_cons.mp hg with rfl | hold
    · exact hcovered hkam
    · exact h.covered g hold hkam
  learned := by
    intro e hnext hsome
    rcases h.learned e hnext hsome with ⟨g, hg, hge⟩
    exact ⟨g, List.mem_cons_of_mem _ hg, hge⟩

/-- A delivery that fills the vacant epoch of its frame. -/
theorem Side.learn (h : Side P peerPriv s st sent delivered) {f : SealedDmFrame}
    (hvacant : s.epochSecrets[f.epoch]? = none) (hkam : f.kam.isSome)
    (secret : ByteBlock epochSecretLen) :
    Side P peerPriv (s.learned f.epoch secret) (st.learn f.epoch.toNat secret) sent
      (f :: delivered) := by
  have hext := extends_learn st f.epoch.toNat secret
  constructor
  case refines => exact h.refines.learned secret hvacant
  case current =>
    intro r hr
    have hratchet : s.ratchet = some r := hr
    rcases h.current r hratchet with ⟨hentry, hcurrent⟩
    refine ⟨?_, hcurrent⟩
    have hlt : r.epoch.toNat < st.next := by
      rw [h.refines.next, nextEpoch_of_ratchet hratchet]
      exact Nat.lt_succ_self _
    rw [hext.own _ hlt, hentry]
  case sent => exact h.sent_of_extends hext
  case covered =>
    intro g hg hgkam
    rcases List.mem_cons.mp hg with rfl | hold
    · rw [h.refines.entry] at hvacant
      simp [Store.learn, hvacant]
    · exact hext.isSome _ (h.covered g hold hgkam)
  case learned =>
    intro e hnext hsome
    by_cases he : e = f.epoch
    · exact ⟨f, List.mem_cons_self, he.symm, hkam⟩
    · have hne : ¬ (e.toNat = f.epoch.toNat ∧ st.entry f.epoch.toNat = none) := by
        rintro ⟨heq, _⟩
        exact he (UInt64.toNat.inj heq)
      simp only [Store.learn, if_neg hne] at hsome
      rcases h.learned e hnext hsome with ⟨g, hg, hge⟩
      exact ⟨g, List.mem_cons_of_mem _ hg, hge⟩

/-- One delivery of a frame that the peer sealed. -/
theorem Side.open (h : Side P peerPriv s st sent delivered) {myPriv : Bytes} {m : Sealed}
    {secret : ByteBlock epochSecretLen} (hunder : m.Under P myPriv secret) :
    ∃ st', (st' = st ∨ st' = st.learn m.frame.epoch.toNat secret) ∧
      Side P peerPriv ((DmSession.open P m.frame myPriv).run s).2 st' sent
        (m.frame :: delivered) := by
  have hstep := open_step P s m.frame myPriv
  generalize (DmSession.open P m.frame myPriv).run s = res at hstep ⊢
  cases hstep with
  | known hstored =>
      rw [h.refines.entry] at hstored
      refine ⟨st, .inl rfl, h.handed ?_⟩
      intro _
      rw [hstored]
      rfl
  | learned hvacant hkam hunwrap =>
      have hsecret := hunder.kam _ hkam
      rw [hunwrap] at hsecret
      cases hsecret
      exact ⟨_, .inr rfl, h.learn hvacant (by rw [hkam]; rfl) secret⟩
  | refused hvacant hkam hunwrap =>
      rw [hunder.kam _ hkam] at hunwrap
      cases hunwrap
  | missing hvacant hkam =>
      refine ⟨st, .inl rfl, h.handed ?_⟩
      intro hsome
      rw [hkam] at hsome
      cases hsome

end Side

/-! ## Both sides -/

section BothSides

variable [F64 φ] {P : Primitives} {keys : Party → KeypairDraws}

/-- The invariant of a link: each side keeps its own, and past its own epochs
each store holds values of the other. -/
def Link.Inv (P : Primitives) (keys : Party → KeypairDraws) (L : Link φ) : Prop :=
  ∃ book : Party → Store (ByteBlock epochSecretLen),
    (∀ p, Side P (privateKey P keys p.peer) (L.session p) (book p) (L.sealed p)
      (L.delivered p)) ∧
    ∀ p, Agrees (book p) (book p.peer)

theorem Link.Inv.seal (kem : P.KemLaws) (aead : P.AeadLaws) {L : Link φ} (hinv : L.Inv P keys)
    {p : Party} (plaintext : Bytes) {draws : SealDraws φ}
    (hfits : EpochFits (L.session p) draws) :
    (L.next P keys (.seal p plaintext draws)).Inv P keys := by
  rcases hinv with ⟨book, hside, hagrees⟩
  rcases (hside p).seal kem aead plaintext hfits with ⟨st', hst', hside'⟩
  have hpeer : p.peer ≠ p := p.peer_ne
  refine ⟨Function.update book p st', fun q => ?_, fun q => ?_⟩
  · rcases p.eq_or_eq_peer q with rfl | rfl
    · simpa [Link.next, publicKey, privateKey] using hside'
    · simpa [Link.next, hpeer] using hside p.peer
  · rcases p.eq_or_eq_peer q with rfl | rfl
    · rw [Function.update_self, Function.update_of_ne hpeer]
      rcases hst' with rfl | ⟨secret, rfl⟩
      · exact hagrees q
      · exact (hagrees q).begin_left secret
    · rw [Party.peer_peer, Function.update_self, Function.update_of_ne hpeer]
      have hback := hagrees p.peer
      rw [Party.peer_peer] at hback
      rcases hst' with rfl | ⟨secret, rfl⟩
      · exact hback
      · exact hback.begin_right secret

theorem Link.Inv.deliver {L : Link φ} (hinv : L.Inv P keys) {p : Party} {m : Sealed}
    (hm : m ∈ L.sealed p.peer) : (L.next P keys (.deliver p m.frame)).Inv P keys := by
  rcases hinv with ⟨book, hside, hagrees⟩
  rcases (hside p.peer).sent m hm with ⟨hlt, secret, hentry, hunder⟩
  rw [Party.peer_peer] at hunder
  rcases (hside p).open hunder with ⟨st', hst', hside'⟩
  have hpeer : p.peer ≠ p := p.peer_ne
  refine ⟨Function.update book p st', fun q => ?_, fun q => ?_⟩
  · rcases p.eq_or_eq_peer q with rfl | rfl
    · simpa [Link.next] using hside'
    · simpa [Link.next, hpeer] using hside p.peer
  · rcases p.eq_or_eq_peer q with rfl | rfl
    · rw [Function.update_self, Function.update_of_ne hpeer]
      rcases hst' with rfl | rfl
      · exact hagrees q
      · exact (hagrees q).learn_left hlt hentry
    · rw [Party.peer_peer, Function.update_self, Function.update_of_ne hpeer]
      have hback := hagrees p.peer
      rw [Party.peer_peer] at hback
      rcases hst' with rfl | rfl
      · exact hback
      · exact hback.learn_right _ _

/-- The invariant holds in every run over faithful deliveries. -/
theorem Link.inv (kem : P.KemLaws) (aead : P.AeadLaws) {L : Link φ}
    (hL : ((link P keys φ).restrict Faithful).Reachable L) : L.Inv P keys := by
  refine hL.invariant (Link.Inv P keys) ?_ ?_
  · rintro L ⟨hsession, hsealed, hdelivered⟩
    refine ⟨fun _ => .empty, fun p => ?_, fun p => Agrees.empty _⟩
    rcases hsession p with ⟨peer, bound, age, hp⟩
    rw [hp, hsealed p, hdelivered p]
    refine ⟨.withBounds peer bound age, ?_, by simp, by simp, ?_⟩
    · intro r hr
      cases hr
    · intro e _ hsome
      cases hsome
  · rintro L (⟨p, plaintext, draws⟩ | ⟨p, frame⟩) _ hinv ⟨_, hacc⟩
    · exact hinv.seal kem aead plaintext hacc
    · rcases hacc with ⟨m, hm, rfl⟩
      exact hinv.deliver hm

/-! ## Deliveries -/

/-- The frame carries a KAM, or a KAM of its epoch was delivered before. -/
def Covered (delivered : List SealedDmFrame) (frame : SealedDmFrame) : Prop :=
  frame.kam.isSome ∨ KamDelivered delivered frame.epoch

instance (delivered : List SealedDmFrame) (frame : SealedDmFrame) :
    Decidable (Covered delivered frame) :=
  inferInstanceAs (Decidable (_ ∨ _))

omit [F64 φ] in
/-- A covered frame opens to its plaintext where the receiver has not begun the
frame's epoch. -/
theorem Link.Inv.open_covered (aead : P.AeadLaws) {L : Link φ} (hinv : L.Inv P keys) {p : Party}
    {m : Sealed} (hm : m ∈ L.sealed p.peer) (hcovered : Covered (L.delivered p) m.frame)
    (hbegun : ¬ HasBegun (L.session p) m.frame.epoch) :
    ((DmSession.open P m.frame (privateKey P keys p)).run (L.session p)).1 =
      .ok m.plaintext := by
  rcases hinv with ⟨book, hside, hagrees⟩
  rcases (hside p.peer).sent m hm with ⟨hlt, secret, hentry, hunder⟩
  rw [Party.peer_peer] at hunder
  have hnext : (book p).next ≤ m.frame.epoch.toNat := by
    rw [hasBegun_iff] at hbegun
    rw [(hside p).refines.next]
    omega
  have hstep := open_step P (L.session p) m.frame (privateKey P keys p)
  generalize (DmSession.open P m.frame (privateKey P keys p)).run (L.session p) = res
    at hstep ⊢
  cases hstep with
  | known hstored =>
      rw [(hside p).refines.entry] at hstored
      have hpeer := (hagrees p _ _ hnext hstored).2
      rw [hentry] at hpeer
      cases hpeer
      exact hunder.openBody_eq aead
  | learned hvacant hkam hunwrap =>
      rw [hunder.kam _ hkam] at hunwrap
      cases hunwrap
      exact hunder.openBody_eq aead
  | refused hvacant hkam hunwrap =>
      rw [hunder.kam _ hkam] at hunwrap
      cases hunwrap
  | missing hvacant hkam =>
      rcases hcovered with hsome | ⟨f, hf, hfe, hfkam⟩
      · simp [hkam] at hsome
      · have hstored := (hside p).covered f hf hfkam
        rw [hfe, ← (hside p).refines.entry, hvacant] at hstored
        cases hstored

omit [F64 φ] in
/-- A receiver misses the secret of an uncovered frame of an epoch that it has
not begun. -/
theorem Link.Inv.open_uncovered {L : Link φ} (hinv : L.Inv P keys) {p : Party}
    {frame : SealedDmFrame} (hbegun : ¬ HasBegun (L.session p) frame.epoch)
    (hcovered : ¬ Covered (L.delivered p) frame) :
    (DmSession.open P frame (privateKey P keys p)).run (L.session p) =
      (.err (.missingEpochSecret frame.epoch), L.session p) := by
  rcases hinv with ⟨book, hside, _⟩
  have hnext : (book p).next ≤ frame.epoch.toNat := by
    rw [hasBegun_iff] at hbegun
    rw [(hside p).refines.next]
    omega
  have hvacant : (L.session p).epochSecrets[frame.epoch]? = none := by
    by_contra hstored
    rw [(hside p).refines.entry, ← ne_eq, Option.ne_none_iff_isSome] at hstored
    exact hcovered (.inr ((hside p).learned frame.epoch hnext hstored))
  have hkam : frame.kam = none := by
    by_contra hsome
    rw [← ne_eq, Option.ne_none_iff_isSome] at hsome
    exact hcovered (.inl hsome)
  exact open_of_missing P _ hvacant hkam

/-- In every run of two sessions over faithful deliveries, a covered frame of
an epoch that the receiver has not begun itself opens to its plaintext. -/
theorem two_way_delivery (kem : P.KemLaws) (aead : P.AeadLaws) {L : Link φ}
    (hL : ((link P keys φ).restrict Faithful).Reachable L) (p : Party) {m : Sealed}
    (hm : m ∈ L.sealed p.peer) (hcovered : Covered (L.delivered p) m.frame)
    (hbegun : ¬ HasBegun (L.session p) m.frame.epoch) :
    ((DmSession.open P m.frame (privateKey P keys p)).run (L.session p)).1 =
      .ok m.plaintext :=
  (Link.inv kem aead hL).open_covered aead hm hcovered hbegun

namespace Sample

/-- Both parties seal in epoch 0, and the first one seals four times in epoch 1. -/
def crossed : Link Int :=
  [Event.seal .a [1] (draws 7), .seal .b [2] (draws 8), .seal .a [3] (lateDraws 9),
    .seal .a [4] (lateDraws 10), .seal .a [5] (lateDraws 11), .seal .a [6] (lateDraws 12)].foldl
    (Link.next Primitives.transparent linkKeys) start

/-- The second party is handed the third frame of epoch 1, and then twice the first
one. -/
def crossedHanded : Link Int :=
  [Event.deliver .b (nthFrame crossed .a 3), .deliver .b (nthFrame crossed .a 1),
    .deliver .b (nthFrame crossed .a 1)].foldl (Link.next Primitives.transparent linkKeys) crossed

theorem crossedHanded_reachable :
    ((link Primitives.transparent linkKeys Int).restrict Faithful).Reachable crossedHanded := by
  have hstart : ((link Primitives.transparent linkKeys Int).restrict Faithful).Reachable start :=
    .init start_fresh
  have hcrossed : ((link Primitives.transparent linkKeys Int).restrict Faithful).Reachable
      crossed := hstart.foldl (by decide +kernel)
  exact hcrossed.foldl (by decide +kernel)

end Sample

/-- The fourth frame of epoch 1 carries no KAM, and opens for a receiver that has
begun epoch 0. -/
theorem two_way_delivery_crossed :
    ∃ m ∈ Sample.crossedHanded.sealed .a, m.frame.epoch = 1 ∧ m.frame.kam = none ∧
      HasBegun (Sample.crossedHanded.session .b) 0 ∧
      ((DmSession.open Primitives.transparent m.frame
        (privateKey Primitives.transparent Sample.linkKeys .b)).run
        (Sample.crossedHanded.session .b)).1 = .ok m.plaintext := by
  have hfourth : ∃ m ∈ Sample.crossedHanded.sealed .a, m.frame.epoch = 1 ∧ m.frame.kam = none ∧
      Covered (Sample.crossedHanded.delivered .b) m.frame ∧
      ¬ HasBegun (Sample.crossedHanded.session .b) m.frame.epoch := by
    decide +kernel
  rcases hfourth with ⟨m, hm, hepoch, hkam, hcovered, hbegun⟩
  refine ⟨m, hm, hepoch, hkam, by decide +kernel, ?_⟩
  exact two_way_delivery (Primitives.tagged_kemLaws _) (Primitives.tagged_aeadLaws _)
    Sample.crossedHanded_reachable .b hm hcovered hbegun

/-- A receiver that seals before it opens the peer's first frame can no longer
open it, although the frame carries its KAM. -/
theorem sealing_blocks_opening :
    (Primitives.transparent.KemLaws ∧ Primitives.transparent.AeadLaws) ∧
    ((link Primitives.transparent Sample.linkKeys Int).restrict Faithful).Reachable
      Sample.sealedBoth ∧
    ∃ m ∈ Sample.sealedBoth.sealed .a, Covered (Sample.sealedBoth.delivered .b) m.frame ∧
      ((DmSession.open Primitives.transparent m.frame
        (privateKey Primitives.transparent Sample.linkKeys .b)).run
        (Sample.sealedOnce.session .b)).1 = .ok m.plaintext ∧
      ((DmSession.open Primitives.transparent m.frame
        (privateKey Primitives.transparent Sample.linkKeys .b)).run
        (Sample.sealedBoth.session .b)).1 = .err .openFailed := by
  refine ⟨⟨Primitives.tagged_kemLaws _, Primitives.tagged_aeadLaws _⟩,
    Sample.sealedBoth_reachable, ?_⟩
  have hrun : ∃ m ∈ Sample.sealedBoth.sealed .a, m.frame.kam.isSome ∧
      ((DmSession.open Primitives.transparent m.frame
        (privateKey Primitives.transparent Sample.linkKeys .b)).run
        (Sample.sealedOnce.session .b)).1 = .ok m.plaintext ∧
      ((DmSession.open Primitives.transparent m.frame
        (privateKey Primitives.transparent Sample.linkKeys .b)).run
        (Sample.sealedBoth.session .b)).1 = .err .openFailed := by
    decide +kernel
  rcases hrun with ⟨m, hm, hkam, hbefore, hafter⟩
  exact ⟨m, hm, .inl hkam, hbefore, hafter⟩

/-! ## One sender -/

/-- A receiver that is never asked to seal begins no epoch. -/
theorem ratchet_eq_none_of_oneWay {L : Link φ}
    (hL : (((link P keys φ).restrict Faithful).restrict OneWay).Reachable L) :
    (L.session .b).ratchet = none := by
  refine hL.invariant (fun L => (L.session .b).ratchet = none) ?_ ?_
  · rintro L ⟨hsession, _⟩
    rcases hsession .b with ⟨peer, bound, age, hb⟩
    rw [hb]
    rfl
  · rintro L (⟨p, plaintext, draws⟩ | ⟨p, frame⟩) _ hinv ⟨_, hp⟩
    · cases hp
      exact hinv
    · cases hp
      have hstep := open_step P (L.session .b) frame (privateKey P keys .b)
      have hnext : ((L.next P keys (.deliver .b frame)).session .b) =
          ((DmSession.open P frame (privateKey P keys .b)).run (L.session .b)).2 := by
        simp [Link.next]
      change ((L.next P keys (.deliver .b frame)).session .b).ratchet = none
      rw [hnext]
      generalize (DmSession.open P frame (privateKey P keys .b)).run (L.session .b) = res
        at hstep ⊢
      cases hstep <;> exact hinv

/-- With one sender, each delivered frame opens to its plaintext when it is
covered, and otherwise misses the secret of its epoch and changes nothing. -/
theorem one_way_delivery (kem : P.KemLaws) (aead : P.AeadLaws) {L : Link φ}
    (hL : (((link P keys φ).restrict Faithful).restrict OneWay).Reachable L) {m : Sealed}
    (hm : m ∈ L.sealed .a) :
    (Covered (L.delivered .b) m.frame →
      ((DmSession.open P m.frame (privateKey P keys .b)).run (L.session .b)).1 =
        .ok m.plaintext) ∧
    (¬ Covered (L.delivered .b) m.frame →
      (DmSession.open P m.frame (privateKey P keys .b)).run (L.session .b) =
        (.err (.missingEpochSecret m.frame.epoch), L.session .b)) := by
  have hinv := Link.inv kem aead hL.of_restrict
  have hbegun : ¬ HasBegun (L.session .b) m.frame.epoch := by
    rintro ⟨r, hr, _⟩
    rw [ratchet_eq_none_of_oneWay hL] at hr
    cases hr
  constructor
  · intro hcovered
    exact hinv.open_covered aead hm hcovered hbegun
  · intro hcovered
    exact hinv.open_uncovered hbegun hcovered

namespace Sample

/-- The first party seals four times in epoch 0 and four times in epoch 1. -/
def eightSealed : Link Int :=
  [Event.seal .a [1] (draws 7), .seal .a [2] (draws 8), .seal .a [3] (draws 9),
    .seal .a [4] (draws 10), .seal .a [5] (lateDraws 11), .seal .a [6] (lateDraws 12),
    .seal .a [7] (lateDraws 13), .seal .a [8] (lateDraws 14)].foldl
    (Link.next Primitives.transparent linkKeys) start

/-- The fourth frame comes too early, the third one twice, and all others are
lost. -/
def threeHanded : Link Int :=
  [Event.deliver .b (nthFrame eightSealed .a 3), .deliver .b (nthFrame eightSealed .a 2),
    .deliver .b (nthFrame eightSealed .a 2)].foldl
    (Link.next Primitives.transparent linkKeys) eightSealed

theorem threeHanded_reachable :
    (((link Primitives.transparent linkKeys Int).restrict Faithful).restrict OneWay).Reachable
      threeHanded := by
  have hstart : (((link Primitives.transparent linkKeys Int).restrict Faithful).restrict
      OneWay).Reachable start := .init start_fresh
  have hsealed : (((link Primitives.transparent linkKeys Int).restrict Faithful).restrict
      OneWay).Reachable eightSealed := hstart.foldl (by decide +kernel)
  exact hsealed.foldl (by decide +kernel)

end Sample

/-- Of the two frames without a KAM, the one of epoch 0 opens after the KAM of its
epoch, and the one of epoch 1 misses its secret. -/
theorem one_way_delivery_threeHanded :
    let open' (m : Sealed) := (DmSession.open Primitives.transparent m.frame
      (privateKey Primitives.transparent Sample.linkKeys .b)).run (Sample.threeHanded.session .b)
    (∃ m ∈ Sample.threeHanded.sealed .a, (m.frame.epoch, m.frame.index) = (0, 3) ∧
      m.frame.kam = none ∧ (open' m).1 = .ok m.plaintext) ∧
    ∃ m ∈ Sample.threeHanded.sealed .a, (m.frame.epoch, m.frame.index) = (1, 3) ∧
      open' m = (.err (.missingEpochSecret 1), Sample.threeHanded.session .b) := by
  intro open'
  have hcovered : ∃ m ∈ Sample.threeHanded.sealed .a, (m.frame.epoch, m.frame.index) = (0, 3) ∧
      m.frame.kam = none ∧ Covered (Sample.threeHanded.delivered .b) m.frame := by
    decide +kernel
  have hmissed : ∃ m ∈ Sample.threeHanded.sealed .a, (m.frame.epoch, m.frame.index) = (1, 3) ∧
      ¬ Covered (Sample.threeHanded.delivered .b) m.frame := by
    decide +kernel
  constructor
  · rcases hcovered with ⟨m, hm, hslot, hkam, hcovered⟩
    exact ⟨m, hm, hslot, hkam, (one_way_delivery (Primitives.tagged_kemLaws _)
      (Primitives.tagged_aeadLaws _) Sample.threeHanded_reachable hm).1 hcovered⟩
  · rcases hmissed with ⟨m, hm, hslot, hcovered⟩
    have hresult := (one_way_delivery (Primitives.tagged_kemLaws _)
      (Primitives.tagged_aeadLaws _) Sample.threeHanded_reachable hm).2 hcovered
    rw [Prod.mk.injEq] at hslot
    rw [hslot.1] at hresult
    exact ⟨m, hm, by rw [Prod.mk.injEq]; exact hslot, hresult⟩

end BothSides

end DmSession
end SkPqc
