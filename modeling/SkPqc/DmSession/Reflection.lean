import SkPqc.DmSession.Delivery

/-!
# Reflected frames

Nothing in a frame says who sealed it: the AAD, the message keys and the secret
store are shared between the two directions.  So the network may hand a session
its own frames.  They are all of epochs that the session has begun itself, and
it opens every one of them; outside these epochs only the peer's frames open.

Main results:

- Theorem `Side.openOwn`: a reflected frame changes nothing.
- Theorem `Link.inv_misdelivering`: the invariant of every run over deliveries
  to either side.
- Theorem `no_reflection_past_own_epochs`: which honestly sealed frames open,
  and whose they are.
-/

namespace SkPqc
namespace DmSession

open Rust Kem Ratchet NumberedStore

variable {φ : Type}

/-- Deliveries of frames that either party sealed, in any order and any number;
rekeys with a next epoch number. -/
def Misdelivering [F64 φ] (L : Link φ) : Event φ → Prop
  | .seal p _ draws => EpochFits (L.session p) draws
  | .deliver _ frame => ∃ q, ∃ m ∈ L.sealed q, m.frame = frame

instance [F64 φ] (L : Link φ) : ∀ e, Decidable (Misdelivering L e)
  | .seal p _ draws => inferInstanceAs (Decidable (EpochFits (L.session p) draws))
  | .deliver _ frame => inferInstanceAs (Decidable (∃ q, ∃ m ∈ L.sealed q, m.frame = frame))

/-! ## A session's own frames -/

section Side

variable {P : Primitives} {peerPriv : Bytes} {s : DmSession φ}
  {st : Store (ByteBlock epochSecretLen)} {sent : List Sealed}
  {delivered : List SealedDmFrame}

/-- A session has begun the epochs of its own frames. -/
theorem Side.hasBegun (h : Side P peerPriv s st sent delivered) {m : Sealed} (hm : m ∈ sent) :
    HasBegun s m.frame.epoch := by
  rw [hasBegun_iff, ← h.refines.next]
  exact (h.sent m hm).1

/-- So its own frames open under the secret that sealed them. -/
theorem Side.open_own (aead : P.AeadLaws) (h : Side P peerPriv s st sent delivered) {m : Sealed}
    (hm : m ∈ sent) (myPriv : Bytes) :
    (DmSession.open P m.frame myPriv).run s = (.ok m.plaintext, s) := by
  obtain ⟨-, secret, hentry, hunder⟩ := h.sent m hm
  have hstored : s.epochSecrets[m.frame.epoch]? = some secret := by
    rw [h.refines.entry, hentry]
  have hstep := open_step P s m.frame myPriv
  generalize (DmSession.open P m.frame myPriv).run s = res at hstep ⊢
  cases hstep with
  | known hstored' =>
      rw [hstored] at hstored'
      cases hstored'
      rw [hunder.openBody_eq aead]
  | learned hvacant _ _ =>
      rw [hstored] at hvacant
      cases hvacant
  | refused hvacant _ _ =>
      rw [hstored] at hvacant
      cases hvacant
  | missing hvacant _ =>
      rw [hstored] at hvacant
      cases hvacant

/-- The invariant does not notice a reflected frame. -/
theorem Side.openOwn (h : Side P peerPriv s st sent delivered) {m : Sealed} (hm : m ∈ sent) :
    Side P peerPriv s st sent (m.frame :: delivered) where
  refines := h.refines
  current := h.current
  sent := h.sent
  covered f hf hkam := by
    rcases List.mem_cons.mp hf with rfl | hold
    · obtain ⟨-, secret, hentry, -⟩ := h.sent m hm
      rw [hentry]
      rfl
    · exact h.covered f hold hkam
  learned e hnext hsome := by
    obtain ⟨f, hf, hfe⟩ := h.learned e hnext hsome
    exact ⟨f, List.mem_cons_of_mem _ hf, hfe⟩

end Side

/-! ## Both sides -/

section BothSides

variable [F64 φ] {P : Primitives} {keys : Party → KeypairDraws}

theorem Link.Inv.deliverOwn (aead : P.AeadLaws) {L : Link φ} (hinv : L.Inv P keys) {p : Party}
    {m : Sealed} (hm : m ∈ L.sealed p) : (L.next P keys (.deliver p m.frame)).Inv P keys := by
  obtain ⟨book, hside, hagrees⟩ := hinv
  have hpeer : p.peer ≠ p := p.peer_ne
  refine ⟨book, fun q => ?_, hagrees⟩
  rcases p.eq_or_eq_peer q with rfl | rfl
  · have hopen := (hside q).open_own aead hm (privateKey P keys q)
    simpa [Link.next, hopen] using (hside q).openOwn hm
  · simpa [Link.next, hpeer] using hside p.peer

/-- The invariant holds in every run over deliveries to either side. -/
theorem Link.inv_misdelivering (kem : P.KemLaws) (aead : P.AeadLaws) {L : Link φ}
    (hL : ((link P keys φ).restrict Misdelivering).Reachable L) : L.Inv P keys := by
  induction hL with
  | init hfresh => exact Link.inv kem aead (.init hfresh)
  | @step L event _ hacc ih =>
      obtain ⟨-, hacc⟩ := hacc
      rcases event with ⟨p, plaintext, draws⟩ | ⟨p, frame⟩
      · exact ih.seal kem aead plaintext hacc
      · obtain ⟨q, m, hm, rfl⟩ := hacc
        rcases p.eq_or_eq_peer q with rfl | rfl
        · exact ih.deliverOwn aead hm
        · exact ih.deliver hm

omit [F64 φ] in
/-- A frame of the peer that opens in an epoch the receiver has not begun opens
to its plaintext. -/
theorem Link.Inv.open_peer (aead : P.AeadLaws) {L : Link φ} (hinv : L.Inv P keys) {p : Party}
    {m : Sealed} (hm : m ∈ L.sealed p.peer) (hbegun : ¬ HasBegun (L.session p) m.frame.epoch)
    {plaintext : Bytes}
    (hopen : ((DmSession.open P m.frame (privateKey P keys p)).run (L.session p)).1 =
      .ok plaintext) : plaintext = m.plaintext := by
  by_cases hcovered : Covered (L.delivered p) m.frame
  · rw [hinv.open_covered aead hm hcovered hbegun] at hopen
    cases hopen
    rfl
  · rw [hinv.open_uncovered hbegun hcovered] at hopen
    cases hopen

/-- In every run over deliveries to either side: what opens in an epoch that the
receiver has not begun is a frame of the peer and none of the receiver's own,
and the receiver's own frames, all of epochs it has begun, open as well. -/
theorem no_reflection_past_own_epochs (kem : P.KemLaws) (aead : P.AeadLaws) {L : Link φ}
    (hL : ((link P keys φ).restrict Misdelivering).Reachable L) (p : Party) :
    (∀ q, ∀ m ∈ L.sealed q, ∀ plaintext, ¬ HasBegun (L.session p) m.frame.epoch →
      ((DmSession.open P m.frame (privateKey P keys p)).run (L.session p)).1 = .ok plaintext →
        q = p.peer ∧ plaintext = m.plaintext ∧ ∀ own ∈ L.sealed p, own.frame ≠ m.frame) ∧
    ∀ m ∈ L.sealed p, HasBegun (L.session p) m.frame.epoch ∧
      (DmSession.open P m.frame (privateKey P keys p)).run (L.session p) =
        (.ok m.plaintext, L.session p) := by
  have hinv := Link.inv_misdelivering kem aead hL
  obtain ⟨book, hside, -⟩ := id hinv
  constructor
  · intro q m hm plaintext hbegun hopen
    have hown : ∀ own ∈ L.sealed p, own.frame ≠ m.frame := by
      intro own hmem heq
      have hbegun' := (hside p).hasBegun hmem
      rw [heq] at hbegun'
      exact hbegun hbegun'
    have hq : q = p.peer := by
      rcases p.eq_or_eq_peer q with rfl | hpeer
      · exact absurd rfl (hown m hm)
      · exact hpeer
    rw [hq] at hm
    exact ⟨hq, hinv.open_peer aead hm hbegun hopen, hown⟩
  · intro m hm
    exact ⟨(hside p).hasBegun hm, (hside p).open_own aead hm _⟩

end BothSides

/-! ## The first frame, reflected -/

theorem sealedOnce_misdelivering :
    ((link Primitives.transparent Sample.linkKeys Int).restrict Misdelivering).Reachable
      Sample.sealedOnce := by
  have hstart : ((link Primitives.transparent Sample.linkKeys Int).restrict
      Misdelivering).Reachable Sample.start := .init Sample.start_fresh
  refine hstart.step (.seal .a [104, 105] (Sample.draws 7)) ⟨trivial, ?_⟩
  intro r hr
  cases hr

namespace Sample

/-- The first party is handed its own first frame, and the other one the first
frame of epoch 1. -/
def reflected : Link Int :=
  [Event.deliver .a (nthFrame crossed .a 0), .deliver .b (nthFrame crossed .a 1)].foldl
    (Link.next Primitives.transparent linkKeys) crossed

theorem reflected_reachable :
    ((link Primitives.transparent linkKeys Int).restrict Misdelivering).Reachable reflected := by
  have hstart : ((link Primitives.transparent linkKeys Int).restrict Misdelivering).Reachable
      start := .init start_fresh
  have hcrossed : ((link Primitives.transparent linkKeys Int).restrict Misdelivering).Reachable
      crossed := hstart.foldl (by decide +kernel)
  exact hcrossed.foldl (by decide +kernel)

end Sample

/-- The other party opens a frame of epoch 1, which is none of its own, and the
first party opens all of its own frames. -/
theorem no_reflection_reflected :
    (∃ m ∈ Sample.reflected.sealed .a, m.frame.epoch = 1 ∧
      ((DmSession.open Primitives.transparent m.frame
        (privateKey Primitives.transparent Sample.linkKeys .b)).run
        (Sample.reflected.session .b)).1 = .ok m.plaintext ∧
      ∀ own ∈ Sample.reflected.sealed .b, own.frame ≠ m.frame) ∧
    (Sample.reflected.sealed .a).length = 5 ∧
    ∀ m ∈ Sample.reflected.sealed .a,
      (DmSession.open Primitives.transparent m.frame
        (privateKey Primitives.transparent Sample.linkKeys .a)).run
        (Sample.reflected.session .a) = (.ok m.plaintext, Sample.reflected.session .a) := by
  have hopened : ∃ m ∈ Sample.reflected.sealed .a, m.frame.epoch = 1 ∧
      ¬ HasBegun (Sample.reflected.session .b) m.frame.epoch ∧
      ((DmSession.open Primitives.transparent m.frame
        (privateKey Primitives.transparent Sample.linkKeys .b)).run
        (Sample.reflected.session .b)).1 = .ok [6] := by
    decide +kernel
  refine ⟨?_, by decide +kernel, ?_⟩
  · rcases hopened with ⟨m, hm, hepoch, hbegun, hopen⟩
    rcases (no_reflection_past_own_epochs (Primitives.tagged_kemLaws _)
      (Primitives.tagged_aeadLaws _) Sample.reflected_reachable .b).1 .a m hm _ hbegun hopen
      with ⟨-, hplain, hown⟩
    exact ⟨m, hm, hepoch, by rw [← hplain]; exact hopen, hown⟩
  · intro m hm
    exact ((no_reflection_past_own_epochs (Primitives.tagged_kemLaws _)
      (Primitives.tagged_aeadLaws _) Sample.reflected_reachable .a).2 m hm).2

/-- The first party accepts its own first frame, which the other one has never
sealed. -/
theorem own_frame_accepted :
    (Primitives.transparent.KemLaws ∧ Primitives.transparent.AeadLaws) ∧
    ((link Primitives.transparent Sample.linkKeys Int).restrict Misdelivering).Reachable
      Sample.sealedOnce ∧
    Sample.sealedOnce.sealed .b = [] ∧
    ∃ m ∈ Sample.sealedOnce.sealed .a,
      ((DmSession.open Primitives.transparent m.frame
        (privateKey Primitives.transparent Sample.linkKeys .a)).run
        (Sample.sealedOnce.session .a)).1 = .ok m.plaintext := by
  refine ⟨⟨Primitives.tagged_kemLaws _, Primitives.tagged_aeadLaws _⟩,
    sealedOnce_misdelivering, ?_, ?_⟩
  · simp [Sample.sealedOnce, Sample.start, Link.next]
  · decide +kernel

end DmSession
end SkPqc
