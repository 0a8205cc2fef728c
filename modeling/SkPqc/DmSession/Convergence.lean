import SkPqc.DmSession.Delivery
import SkPqc.DmSession.StoreHistory

/-!
# Receivers that converge

An open offers the secret of its KAM to the epoch of the frame, and the frames
of one sender offer one secret for each epoch.  So what a receiver can read
depends on the set of frames it was handed: their order, their repetitions and
the losses in between do not matter, and two holders of one private key that
were handed the same frames read the same messages.

Main results:

- Theorem `stored_handed_eq`: frames whose offers agree leave the same store in
  any order and number.
- Theorem `offered_of_sealed`: the frames that a session has sealed offer the
  secret of their epoch, or nothing.
- Theorem `receivers_converge`: two receivers of the same sealed frames hold the
  same secrets, and read exactly the covered frames.
-/

namespace SkPqc
namespace DmSession

open Rust Kem Ratchet

/-! ## Frames handed to a session -/

section Handed

variable {φ ψ : Type} [F64 φ] [F64 ψ] (P : Primitives)

/-- The session after it was handed frames, all opened with one private key. -/
def handed (s : DmSession φ) (myHybridPriv : Bytes) (frames : List SealedDmFrame) :
    DmSession φ :=
  s.after P (frames.map fun frame => .open frame myHybridPriv)

/-- What a frame offers to the store. -/
def offer (myHybridPriv : Bytes) (frame : SealedDmFrame) :
    Option (KeyedWrite UInt64 (ByteBlock epochSecretLen)) :=
  (offered P frame myHybridPriv).map (.offer frame.epoch)

/-- The frames offer one secret for each epoch. -/
def OffersAgree (myHybridPriv : Bytes) (frames : List SealedDmFrame) : Prop :=
  ∀ f ∈ frames, ∀ g ∈ frames, f.epoch = g.epoch → ∀ a b,
    offered P f myHybridPriv = some a → offered P g myHybridPriv = some b → a = b

/-- Opens write what their frames offer, whatever the session. -/
theorem writes_handed (s : DmSession φ) (myHybridPriv : Bytes) (frames : List SealedDmFrame) :
    s.writes P (frames.map fun frame => .open frame myHybridPriv) =
      frames.filterMap (offer P myHybridPriv) := by
  induction frames generalizing s with
  | nil => rfl
  | cons frame frames ih =>
      rw [List.map_cons, writes, ih]
      have hwrite : s.write P (.open frame myHybridPriv) = offer P myHybridPriv frame := rfl
      rw [hwrite]
      cases hoffer : offer P myHybridPriv frame with
      | none => rw [List.filterMap_cons_none hoffer]; rfl
      | some w => rw [List.filterMap_cons_some hoffer]; rfl

theorem stored_handed (s : DmSession φ) (myHybridPriv : Bytes) (frames : List SealedDmFrame) :
    (s.handed P myHybridPriv frames).stored =
      KeyedWrite.run s.stored (frames.filterMap (offer P myHybridPriv)) := by
  unfold handed
  rw [stored_after, writes_handed]

variable {P}

theorem mem_offers_iff {myHybridPriv : Bytes} {frames : List SealedDmFrame} {epoch : UInt64}
    {secret : ByteBlock epochSecretLen} :
    .offer epoch secret ∈ frames.filterMap (offer P myHybridPriv) ↔
      ∃ f ∈ frames, f.epoch = epoch ∧ offered P f myHybridPriv = some secret := by
  simp only [List.mem_filterMap, offer, Option.map_eq_some_iff, KeyedWrite.offer.injEq]
  constructor
  · rintro ⟨f, hf, a, hoffered, hepoch, rfl⟩
    exact ⟨f, hf, hepoch, hoffered⟩
  · rintro ⟨f, hf, hepoch, hoffered⟩
    exact ⟨f, hf, secret, hoffered, hepoch, rfl⟩

/-- Frames that offer one secret for each epoch make agreeing writes. -/
theorem OffersAgree.agreeing {myHybridPriv : Bytes} {frames : List SealedDmFrame}
    (h : OffersAgree P myHybridPriv frames) :
    KeyedWrite.Agreeing (frames.filterMap (offer P myHybridPriv)) where
  offers := by
    unfold KeyedWrite.putKeys
    rw [List.filterMap_eq_nil_iff]
    intro w hw
    rcases List.mem_filterMap.mp hw with ⟨f, _, hoffer⟩
    rcases Option.map_eq_some_iff.mp hoffer with ⟨a, _, rfl⟩
    rfl
  agree := by
    intro epoch a b ha hb
    rcases mem_offers_iff.mp ha with ⟨f, hf, hfe, hfa⟩
    rcases mem_offers_iff.mp hb with ⟨g, hg, hge, hgb⟩
    exact h f hf g hg (hfe.trans hge.symm) a b hfa hgb

/-- What the store holds for an epoch after agreeing offers. -/
theorem stored_handed_apply {myHybridPriv : Bytes} {frames : List SealedDmFrame}
    (h : OffersAgree P myHybridPriv frames) (s : DmSession φ) (epoch : UInt64) :
    (s.handed P myHybridPriv frames).epochSecrets[epoch]? =
      s.epochSecrets[epoch]?.or
        (KeyedWrite.firstOffer epoch (frames.filterMap (offer P myHybridPriv))) := by
  have hrun := congrFun (stored_handed P s myHybridPriv frames) epoch
  rw [h.agreeing.run_apply] at hrun
  exact hrun

/-- Two sessions with one store that are handed the same frames, in any order and
number, are left with one store. -/
theorem stored_handed_eq {myHybridPriv : Bytes} {frames frames' : List SealedDmFrame}
    (h : OffersAgree P myHybridPriv frames) (hsame : ∀ f, f ∈ frames ↔ f ∈ frames')
    {s : DmSession φ} {t : DmSession ψ} (hstore : s.stored = t.stored) :
    (s.handed P myHybridPriv frames).stored = (t.handed P myHybridPriv frames').stored := by
  have h' : OffersAgree P myHybridPriv frames' := by
    intro f hf g hg
    exact h f ((hsame f).mpr hf) g ((hsame g).mpr hg)
  have hoffers : ∀ w, w ∈ frames.filterMap (offer P myHybridPriv) ↔
      w ∈ frames'.filterMap (offer P myHybridPriv) := by
    intro w
    simp only [List.mem_filterMap, hsame]
  rw [stored_handed, stored_handed, hstore]
  exact KeyedWrite.run_eq_of_mem_iff h.agreeing h'.agreeing hoffers _

end Handed

/-! ## Frames of one sender -/

section Sender

variable {φ ψ : Type} [F64 φ] [F64 ψ] {P : Primitives} {keys : Party → KeypairDraws}

omit [F64 φ] in
/-- A sealed frame offers its receiver the secret that the sender stores for the
epoch, or nothing. -/
theorem offered_of_under {receiverPriv : Bytes} {m : Sealed} {secret : ByteBlock epochSecretLen}
    (h : m.Under P receiverPriv secret) :
    offered P m.frame receiverPriv = if m.frame.kam.isSome then some secret else none := by
  unfold offered
  cases hkam : m.frame.kam with
  | none => rfl
  | some kam => simp [h.kam kam hkam]

/-- The frames that a party has sealed were sealed under one secret for each
epoch, the one that they offer. -/
theorem exists_secrets (kem : P.KemLaws) (aead : P.AeadLaws) {L : Link φ}
    (hL : ((link P keys φ).restrict Faithful).Reachable L) (p : Party) :
    ∃ secretOf : UInt64 → ByteBlock epochSecretLen,
      ∀ m ∈ L.sealed p, m.Under P (privateKey P keys p.peer) (secretOf m.frame.epoch) := by
  rcases Link.inv kem aead hL with ⟨book, hside, _⟩
  refine ⟨fun e => ((book p).entry e.toNat).getD (List.Vector.replicate _ 0), ?_⟩
  intro m hm
  rcases (hside p).sent m hm with ⟨_, secret, hentry, hunder⟩
  simpa only [hentry, Option.getD_some] using hunder

omit [F64 φ] in
/-- Frames of one sender offer one secret for each epoch. -/
theorem offersAgree_of_sealed {L : Link φ} {p : Party}
    {secretOf : UInt64 → ByteBlock epochSecretLen}
    (hunder : ∀ m ∈ L.sealed p, m.Under P (privateKey P keys p.peer) (secretOf m.frame.epoch))
    {frames : List SealedDmFrame} (hsealed : ∀ f ∈ frames, ∃ m ∈ L.sealed p, m.frame = f) :
    OffersAgree P (privateKey P keys p.peer) frames := by
  intro f hf g hg hepoch a b ha hb
  rcases hsealed f hf with ⟨m, hm, rfl⟩
  rcases hsealed g hg with ⟨n, hn, rfl⟩
  rw [offered_of_under (hunder m hm), Option.ite_none_right_eq_some, Option.some.injEq] at ha
  rw [offered_of_under (hunder n hn), Option.ite_none_right_eq_some, Option.some.injEq] at hb
  rw [← ha.2, ← hb.2, hepoch]

omit [F64 φ] in
/-- A vacant epoch is filled by the frames of its sender once one of them carries
the KAM, with the secret they were sealed under. -/
theorem stored_handed_of_sealed {L : Link φ} {p : Party}
    {secretOf : UInt64 → ByteBlock epochSecretLen}
    (hunder : ∀ m ∈ L.sealed p, m.Under P (privateKey P keys p.peer) (secretOf m.frame.epoch))
    {frames : List SealedDmFrame} (hsealed : ∀ f ∈ frames, ∃ m ∈ L.sealed p, m.frame = f)
    {s : DmSession ψ} {epoch : UInt64} (hvacant : s.epochSecrets[epoch]? = none) :
    (KamDelivered frames epoch →
      (s.handed P (privateKey P keys p.peer) frames).epochSecrets[epoch]? =
        some (secretOf epoch)) ∧
    (¬ KamDelivered frames epoch →
      (s.handed P (privateKey P keys p.peer) frames).epochSecrets[epoch]? = none) := by
  have hagree := offersAgree_of_sealed hunder hsealed
  rw [stored_handed_apply hagree, hvacant, Option.none_or]
  constructor
  · rintro ⟨f, hf, rfl, hkam⟩
    rcases hsealed f hf with ⟨m, hm, rfl⟩
    rw [hagree.agreeing.firstOffer_eq_some_iff, mem_offers_iff]
    exact ⟨m.frame, hf, rfl, by rw [offered_of_under (hunder m hm), if_pos hkam]⟩
  · intro hnone
    by_contra hsome
    rcases Option.ne_none_iff_exists'.mp hsome with ⟨secret, hfirst⟩
    rcases mem_offers_iff.mp (hagree.agreeing.firstOffer_eq_some_iff.mp hfirst) with
      ⟨f, hf, rfl, hoffered⟩
    rcases hsealed f hf with ⟨m, hm, rfl⟩
    rw [offered_of_under (hunder m hm), Option.ite_none_right_eq_some] at hoffered
    exact hnone ⟨m.frame, hf, rfl, hoffered.1⟩

/-- Take two receivers with one private key and equal stores, and hand them
frames that the peer has sealed, the same ones but in any order and number: they
hold the same secrets, and a frame of an epoch that was vacant is read when it or
one of those frames carries the KAM, and misses its secret otherwise. -/
theorem receivers_converge (kem : P.KemLaws) (aead : P.AeadLaws) {L : Link φ}
    (hL : ((link P keys φ).restrict Faithful).Reachable L) (p : Party)
    {frames frames' : List SealedDmFrame} (hsealed : ∀ f ∈ frames, ∃ m ∈ L.sealed p, m.frame = f)
    (hsame : ∀ f, f ∈ frames ↔ f ∈ frames') {s t : DmSession ψ} (hstore : s.stored = t.stored) :
    (s.handed P (privateKey P keys p.peer) frames).stored =
      (t.handed P (privateKey P keys p.peer) frames').stored ∧
    ∀ m ∈ L.sealed p, t.epochSecrets[m.frame.epoch]? = none →
      let read := ((DmSession.open P m.frame (privateKey P keys p.peer)).run
        (t.handed P (privateKey P keys p.peer) frames')).1
      (Covered frames m.frame → read = .ok m.plaintext) ∧
      (¬ Covered frames m.frame → read = .err (.missingEpochSecret m.frame.epoch)) := by
  rcases exists_secrets kem aead hL p with ⟨secretOf, hunder⟩
  have hagree := offersAgree_of_sealed hunder hsealed
  have hstores := stored_handed_eq hagree hsame hstore
  refine ⟨hstores, fun m hm hvacant => ?_⟩
  have hepoch := congrFun hstores m.frame.epoch
  have hfilled := stored_handed_of_sealed hunder hsealed
    (s := s) ((congrFun hstore m.frame.epoch).trans hvacant)
  by_cases hdelivered : KamDelivered frames m.frame.epoch
  · -- The secret is there, and the frame was sealed under it.
    have hstored := hepoch.symm.trans (hfilled.1 hdelivered)
    rw [open_of_stored _ hstored]
    exact ⟨fun _ => (hunder m hm).openBody_eq aead, fun hno => absurd (.inr hdelivered) hno⟩
  · have hmissing := hepoch.symm.trans (hfilled.2 hdelivered)
    cases hkam : m.frame.kam with
    | some kam =>
        rw [open_of_unwrap P hmissing hkam ((hunder m hm).kam kam hkam)]
        refine ⟨fun _ => (hunder m hm).openBody_eq aead, fun hno => absurd (.inl ?_) hno⟩
        rw [hkam]
        rfl
    | none =>
        rw [open_of_missing P _ hmissing hkam]
        refine ⟨fun hcovered => ?_, fun _ => rfl⟩
        rcases hcovered with hsome | hdelivered'
        · rw [hkam] at hsome
          cases hsome
        · exact absurd hdelivered' hdelivered

end Sender

/-- A receiver that was handed the first frame twice reads it as one that was
handed it once. -/
theorem receivers_converge_twice :
    let sent := (Sample.sealedOnce.sealed .a).map Sealed.frame
    let priv := privateKey Primitives.transparent Sample.linkKeys .b
    let receiver : DmSession Int := DmSession.new "peer"
    (receiver.handed Primitives.transparent priv sent).stored =
      (receiver.handed Primitives.transparent priv (sent ++ sent)).stored ∧
    ∃ m ∈ Sample.sealedOnce.sealed .a,
      ((DmSession.open Primitives.transparent m.frame priv).run
        (receiver.handed Primitives.transparent priv (sent ++ sent))).1 = .ok m.plaintext := by
  intro sent priv receiver
  have hsealed : ∀ f ∈ sent, ∃ m ∈ Sample.sealedOnce.sealed .a, m.frame = f := by
    intro f hf
    exact List.mem_map.mp hf
  have hsame : ∀ f, f ∈ sent ↔ f ∈ sent ++ sent := by simp
  have hconverge := receivers_converge (Primitives.tagged_kemLaws _)
    (Primitives.tagged_aeadLaws _) Sample.sealedOnce_reachable.of_restrict .a hsealed hsame
    (s := receiver) (t := receiver) rfl
  refine ⟨hconverge.1, ?_⟩
  have hkam : ∃ m ∈ Sample.sealedOnce.sealed .a, m.frame.kam.isSome := by decide +kernel
  rcases hkam with ⟨m, hm, hkam⟩
  have hvacant : receiver.epochSecrets[m.frame.epoch]? = none := by
    simp [receiver, DmSession.new, withBounds]
  exact ⟨m, hm, (hconverge.2 m hm hvacant).1 (.inl hkam)⟩

end DmSession
end SkPqc
