import SkPqc.DmSession.RestoredKam

/-!
# Outbound coherence

The secret of the outbound epoch is in the ratchet and in the store, and
`begin_epoch`, `open`, `restore` and `seal` write one of the copies or both.
`begin_epoch` overwrites the entry of its epoch, which a frame may have filled
before; `restore` takes the ratchet's copy from the store it has just read; an
`open` fills vacant entries only.

Main results:

- Theorem `open_onlyLearned`: an open adds to the store and leaves the rest of
  the session alone, whatever the frame and however the open ends.
- Theorem `restore_coherent`: every restored session is coherent.
- Theorem `outbound_coherence`: so is every session, whoever made it and
  whatever calls it went through.
-/

namespace SkPqc
namespace DmSession

open Rust Kem Ratchet Json

/-! ## What an open leaves alone -/

section Opens

variable {φ : Type}

/-- The second session differs from the first by further secrets in its store. -/
structure OnlyLearned (s s' : DmSession φ) : Prop where
  stored : StoredIn s.epochSecrets s'.epochSecrets
  ratchet_eq : s'.ratchet = s.ratchet
  currentKam_eq : s'.currentKam = s.currentKam
  peer_eq : s'.peer = s.peer
  rekeyMsgBound_eq : s'.rekeyMsgBound = s.rekeyMsgBound
  rekeyAgeSeconds_eq : s'.rekeyAgeSeconds = s.rekeyAgeSeconds

theorem OnlyLearned.refl (s : DmSession φ) : OnlyLearned s s := by
  constructor
  case stored =>
    intro epoch secret hsecret
    exact hsecret
  all_goals rfl

/-- Filling a vacant entry keeps those that are there. -/
theorem OnlyLearned.learned {s : DmSession φ} {epoch : UInt64}
    (hvacant : s.epochSecrets[epoch]? = none) (secret : ByteBlock epochSecretLen) :
    OnlyLearned s (s.learned epoch secret) := by
  constructor
  case stored =>
    intro e x hx
    have hne : e ≠ epoch := by
      intro he
      rw [he, hvacant] at hx
      cases hx
    rw [getElem?_learned, if_neg hne, hx]
  all_goals rfl

theorem open_onlyLearned (P : Primitives) (s : DmSession φ) (frame : SealedDmFrame)
    (myHybridPriv : Bytes) :
    OnlyLearned s ((DmSession.open P frame myHybridPriv).run s).2 := by
  have hstep := open_step P s frame myHybridPriv
  generalize (DmSession.open P frame myHybridPriv).run s = res at hstep ⊢
  cases hstep with
  | known _ => exact .refl s
  | learned hvacant _ _ => exact .learned hvacant _
  | refused _ _ _ => exact .refl s
  | missing _ _ => exact .refl s

end Opens

/-! ## Every session there is -/

section Lifetime

variable {φ : Type} [JsonF64 φ]

/-- The ratchet of a restored session has its secret from the store. -/
theorem restore_coherent {H : Hex.Codec} {v : Value φ} {s : DmSession φ}
    (h : restore H v = .ok s) :
    Coherent s := by
  rcases restoreSender_of_restore h with ⟨peer, bound, age, secrets, _, _, hsender⟩
  have hstep := restoreSender_step hsender
  cases hstep with
  | idle _ _ => exact coherent_of_ratchet_eq_none rfl
  | keyed _ _ _ hr =>
      intro r hratchet
      cases hratchet
      rcases restoreRatchet_eq_ok_iff.mp hr with ⟨-, -, -, hsecret, -, -⟩
      exact hsecret

/-- The life of a session: it is made by `new` or `with_bounds` or restored from
some JSON value, and then takes calls in any order, failing ones included. -/
def lifetime (P : Primitives) (H : Hex.Codec) : StateMachine (DmSession φ) (Call φ) where
  init s := Fresh s ∨ ∃ v, restore H v = .ok s
  accepts _ _ := True
  next s c := (s.call P c).2

/-- Every call goes on with the life of a session. -/
theorem lifetime_call {P : Primitives} {H : Hex.Codec} {s : DmSession φ}
    (hs : (lifetime P H).Reachable s) (c : Call φ) : (lifetime P H).Reachable (s.call P c).2 :=
  hs.step c trivial

theorem coherent_of_reachable {P : Primitives} {H : Hex.Codec} {s : DmSession φ}
    (hs : (lifetime P H).Reachable s) : Coherent s := by
  apply hs.invariant Coherent
  · intro s hinit
    rcases hinit with ⟨peer, rekeyMsgBound, rekeyAgeSeconds, rfl⟩ | ⟨v, hv⟩
    · exact coherent_of_ratchet_eq_none rfl
    · exact restore_coherent hv
  · intro s c _ hcoherent _
    exact hcoherent.step c

/-- In every session the ratchet's secret is the one stored for its epoch, and
an open changes nothing but vacant entries of the store. -/
theorem outbound_coherence {P : Primitives} {H : Hex.Codec} {s : DmSession φ}
    (hs : (lifetime P H).Reachable s) :
    Coherent s ∧ ∀ frame myHybridPriv,
      OnlyLearned s ((DmSession.open P frame myHybridPriv).run s).2 := by
  constructor
  · exact coherent_of_reachable hs
  · intro frame myHybridPriv
    exact open_onlyLearned P s frame myHybridPriv

end Lifetime

namespace Sample

/-- A frame whose KAM offers the keys of byte 2 a secret of bytes 9 for `epoch`. -/
def offer (epoch : UInt64) : SealedDmFrame where
  epoch := epoch
  index := 0
  nonce := []
  body := []
  kam :=
    match wrapDmEpochSecret Primitives.transparent (block 32 9).toList (keys 2).publicKey
        (draws 9).wrap with
    | .ok kam => some kam
    | _ => none

/-- A restored session that was offered other secrets for its own epoch and for
the next one, and then began the next one. -/
def offered : DmSession Int :=
  let s := (unkeyed.call Primitives.transparent (.open (offer 0) (keys 2).privateKey)).2
  let s := (s.call Primitives.transparent (.open (offer 1) (keys 2).privateKey)).2
  (s.call Primitives.transparent
    (.seal [] (keys 2).publicKey { draws 7 with rekeyClock := epochStart + 600 })).2

end Sample

/-- The offered session has begun epoch 1, under its own secret and not under
the one it had learned for that epoch. -/
theorem outbound_coherence_offered :
    (Sample.offered.ratchet.map fun r => r.epoch) = some 1 ∧
      Coherent Sample.offered ∧ ∀ frame myHybridPriv,
        OnlyLearned Sample.offered
          ((DmSession.open Primitives.transparent frame myHybridPriv).run Sample.offered).2 := by
  constructor
  · decide +kernel
  · have hrestored : (lifetime Primitives.transparent Hex.standard).Reachable Sample.unkeyed :=
      .init (Or.inr ⟨Sample.unkeyedValue, Sample.restore_unkeyedValue⟩)
    exact outbound_coherence (lifetime_call (lifetime_call (lifetime_call hrestored _) _) _)

end DmSession
end SkPqc
