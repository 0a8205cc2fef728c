import SkPqc.DmSession.Model
import SkPqc.Foundations.StateMachine

/-!
# The key of an epoch

`seal` takes the peer's public key at every call, but uses it only when the call
begins an epoch: the KAM is made there once and repeated on later frames.  The
machine of this module keeps, beside the session, the key that its current epoch
was begun for.

Main results:

- Theorem `Keyed.Inv.step`: the stored KAM wraps the secret of the ratchet to
  that key, after every call.
- Theorem `kam_frame_opens`: a frame with a KAM opens under the private key of
  the epoch's key, in any fresh session.
- Theorem `rotated_key_refused`: the key of the present call need not open it.
-/

namespace SkPqc
namespace DmSession

open Rust Kem Ratchet

variable {φ : Type}

/-! ## Sessions with the key of their epoch -/

/-- A session and the public key that its current epoch was begun for. -/
structure Keyed (φ : Type) where
  session : DmSession φ
  epochKey : Bytes

section Machine

variable [F64 φ] (P : Primitives)

/-- Whether a seal begins an epoch. -/
def beginsEpoch (s : DmSession φ) (peerHybridPub : Bytes) (draws : SealDraws φ) : Bool :=
  match s.beginAt draws.rekeyClock, ((rekeyIfDue P peerHybridPub draws).run s).1 with
  | some _, .ok _ => true
  | _, _ => false

def Keyed.next (K : Keyed φ) : Call φ → Keyed φ
  | .seal plaintext peerHybridPub draws =>
      { session := (K.session.call P (.seal plaintext peerHybridPub draws)).2
        epochKey :=
          if beginsEpoch P K.session peerHybridPub draws then peerHybridPub else K.epochKey }
  | .open frame myHybridPriv =>
      { K with session := (K.session.call P (.open frame myHybridPriv)).2 }

/-- Sessions from `new` and `with_bounds` on, under any calls: any plaintexts,
any byte strings as public keys, any frames. -/
def keyed (φ : Type) [F64 φ] : StateMachine (Keyed φ) (Call φ) where
  init K := ∃ peer rekeyMsgBound rekeyAgeSeconds,
    K.session = withBounds peer rekeyMsgBound rekeyAgeSeconds
  accepts _ _ := True
  next := Keyed.next P

/-- The stored KAM wraps the secret of the ratchet to the key of the epoch. -/
def Keyed.Inv (K : Keyed φ) : Prop :=
  ∀ r, K.session.ratchet = some r → ∃ kam wrap, K.session.currentKam = some kam ∧
    wrapDmEpochSecret P r.epochSecret.toList K.epochKey wrap = .ok kam

end Machine

section Invariant

variable [F64 φ] {P : Primitives}

/-- A rekey begins an epoch for the key of the call, or leaves the key of the
epoch in place. -/
theorem Keyed.Inv.rekey {K : Keyed φ} (h : K.Inv P) {peerHybridPub : Bytes}
    {draws : SealDraws φ} {s₁ : DmSession φ}
    (hrekey : (rekeyIfDue P peerHybridPub draws).run K.session = (.ok (), s₁)) :
    Keyed.Inv P ⟨s₁, if beginsEpoch P K.session peerHybridPub draws then peerHybridPub
      else K.epochKey⟩ := by
  unfold beginsEpoch
  rw [hrekey]
  cases rekeyStep_of_ok hrekey with
  | current hratchet hfresh =>
      have hnone : K.session.beginAt draws.rekeyClock = none :=
        beginAt_eq_none_iff.mpr ⟨_, hratchet, hfresh⟩
      rw [hnone]
      exact h
  | @began epoch kam hdue hwrap =>
      rw [hdue]
      intro r hr
      cases hr
      exact ⟨kam, draws.wrap, rfl, hwrap⟩

omit [F64 φ] in
/-- Taking a key from the ratchet changes neither its secret nor the KAM. -/
theorem Keyed.Inv.advance {s : DmSession φ} {key : Bytes} {r : DmRatchet φ}
    (h : Keyed.Inv P ⟨s, key⟩) (hratchet : s.ratchet = some r) :
    Keyed.Inv P ⟨s.advance r, key⟩ := by
  intro r' hr'
  cases hr'
  exact h r hratchet

/-- Every call keeps the invariant. -/
theorem Keyed.Inv.step {K : Keyed φ} (h : K.Inv P) (c : Call φ) : (K.next P c).Inv P := by
  cases c with
  | «seal» plaintext peerHybridPub draws =>
      have hstep := seal_step P K.session plaintext peerHybridPub draws
      have hcall : (K.session.call P (.seal plaintext peerHybridPub draws)).2 =
          ((DmSession.seal P plaintext peerHybridPub draws).run K.session).2 := rfl
      rw [Keyed.next, hcall]
      generalize (DmSession.seal P plaintext peerHybridPub draws).run K.session = res at hstep ⊢
      cases hstep with
      | refused hrefused =>
          have hkept : beginsEpoch P K.session peerHybridPub draws = false := by
            unfold beginsEpoch
            rw [hrefused]
            split <;> first | rfl | (rename_i hok; cases hok)
          rw [hkept]
          exact h
      | took hrekey hratchet => exact (h.rekey hrekey).advance hratchet
  | «open» frame myHybridPriv =>
      have hstep := open_step P K.session frame myHybridPriv
      have hcall : (K.session.call P (.open frame myHybridPriv)).2 =
          ((DmSession.open P frame myHybridPriv).run K.session).2 := rfl
      rw [Keyed.next, hcall]
      generalize (DmSession.open P frame myHybridPriv).run K.session = res at hstep ⊢
      cases hstep <;> exact h

/-- Every call is accepted. -/
theorem Keyed.reachable_next {K : Keyed φ} (hK : (keyed P φ).Reachable K) (c : Call φ) :
    (keyed P φ).Reachable (K.next P c) :=
  hK.step c trivial

theorem Keyed.inv {K : Keyed φ} (hK : (keyed P φ).Reachable K) : K.Inv P := by
  refine hK.invariant (Keyed.Inv P) ?_ ?_
  · rintro K ⟨peer, bound, age, hfresh⟩ r hr
    rw [hfresh] at hr
    cases hr
  · intro K c _ hinv _
    exact hinv.step c

/-! ## Frames with a KAM -/

omit [F64 φ] in
/-- A sealed body opens under the secret of the ratchet that sealed it. -/
theorem openBody_of_sealBody (aead : P.AeadLaws) {s : DmSession φ} {r : DmRatchet φ}
    {plaintext : Bytes} {draws : SealDraws φ} {frame : SealedDmFrame}
    (hframe : sealBody P s r plaintext draws = .ok frame) :
    openBody P r.epochSecret frame = .ok plaintext := by
  rcases (sealBody_eq_ok_iff P).mp hframe with ⟨body, hbody, rfl⟩
  have hopened := aead.decrypt_encrypt _ _ _ _ _ hbody
  unfold openBody
  rw [Primitives.aes256GcmDecrypt_toList, Outcome.ok_bind]
  rw [nextKey] at hopened
  rw [hopened, Outcome.okOr_some]

/-- A frame that carries a KAM opens under the private key of the epoch's key,
in any fresh session. -/
theorem kam_frame_opens (kem : P.KemLaws) (aead : P.AeadLaws) {K : Keyed φ}
    (hK : (keyed P φ).Reachable K) {plaintext peerHybridPub : Bytes} {draws : SealDraws φ}
    {frame : SealedDmFrame}
    (hseal : ((DmSession.seal P plaintext peerHybridPub draws).run K.session).1 = .ok frame)
    (hkam : frame.kam.isSome) {keys : KeypairDraws}
    (hkey : (K.next P (.seal plaintext peerHybridPub draws)).epochKey =
      (hybridKeypair P keys).publicKey)
    (peer : String) (rekeyMsgBound rekeyAgeSeconds : UInt64) :
    ((DmSession.open P frame (hybridKeypair P keys).privateKey).run
      (withBounds peer rekeyMsgBound rekeyAgeSeconds : DmSession φ)).1 = .ok plaintext := by
  have hstep := seal_step P K.session plaintext peerHybridPub draws
  generalize (DmSession.seal P plaintext peerHybridPub draws).run K.session = res at hstep hseal
  cases hstep with
  | refused _ => cases hseal
  | @took s₁ r hrekey hratchet =>
      have hinv := (Keyed.inv hK).rekey hrekey
      rcases hinv r hratchet with ⟨kam, wrap, hcurrent, hwrap⟩
      have hepoch : (if beginsEpoch P K.session peerHybridPub draws then peerHybridPub
          else K.epochKey) = (hybridKeypair P keys).publicKey := hkey
      rw [hepoch] at hwrap
      have hunwrap := unwrapDmEpochSecret_wrap kem aead hwrap
      have hcarried : frame.kam = some kam := by
        rcases (sealBody_eq_ok_iff P).mp hseal with ⟨body, _, rfl⟩
        by_cases hlt : r.messageIndex < kamRepeat
        · simpa [hlt] using hcurrent
        · simp [hlt] at hkam
      rw [open_of_unwrap P (by simp [withBounds]) hcarried hunwrap]
      exact openBody_of_sealBody aead hseal

end Invariant

/-! ## A rotated key -/

namespace Sample

def keyedStart : Keyed Int := ⟨DmSession.new "bob", []⟩

/-- A session that began epoch 0 for the keys of byte 2. -/
def begunForTwo : Keyed Int :=
  keyedStart.next Primitives.transparent (.seal [1] (keys 2).publicKey (draws 7))

/-- The second frame of the epoch, sealed to the keys of byte 3. -/
def rotatedFrame : SealedDmFrame := frame begunForTwo.session [104, 105] 3 8

theorem begunForTwo_reachable :
    (keyed Primitives.transparent Int).Reachable begunForTwo := by
  have hstart : (keyed Primitives.transparent Int).Reachable keyedStart :=
    .init ⟨"bob", defaultRekeyMsgBound, defaultRekeyAgeSeconds, rfl⟩
  exact Keyed.reachable_next hstart _

theorem rotatedFrame_sealed :
    ((DmSession.seal Primitives.transparent [104, 105] (keys 3).publicKey (draws 8)).run
      begunForTwo.session).1 = .ok rotatedFrame := by
  decide +kernel

end Sample

/-- The second frame opens under the keys that the epoch was begun for. -/
theorem kam_frame_opens_sample :
    ((DmSession.open Primitives.transparent Sample.rotatedFrame (Sample.keys 2).privateKey).run
      (withBounds "alice" 50 600 : DmSession Int)).1 = .ok [104, 105] := by
  have hkam : Sample.rotatedFrame.kam.isSome := by decide +kernel
  have hkey : (Sample.begunForTwo.next Primitives.transparent
      (.seal [104, 105] (Sample.keys 3).publicKey (Sample.draws 8))).epochKey =
        (Sample.keys 2).publicKey := by
    decide +kernel
  have kem : Primitives.transparent.KemLaws := Primitives.tagged_kemLaws _
  have aead : Primitives.transparent.AeadLaws := Primitives.tagged_aeadLaws _
  have hkeys : Sample.keys 2 =
      hybridKeypair Primitives.transparent ⟨Sample.block 32 2, Sample.block 64 2⟩ := rfl
  rw [hkeys] at hkey ⊢
  exact kam_frame_opens kem aead Sample.begunForTwo_reachable Sample.rotatedFrame_sealed hkam hkey
    "alice" 50 600

/-- It carries a KAM, and the keys it was sealed to do not open it. -/
theorem rotated_key_refused :
    (Primitives.transparent.KemLaws ∧ Primitives.transparent.AeadLaws) ∧
    (keyed Primitives.transparent Int).Reachable Sample.begunForTwo ∧
    ((DmSession.seal Primitives.transparent [104, 105] (Sample.keys 3).publicKey
      (Sample.draws 8)).run Sample.begunForTwo.session).1 = .ok Sample.rotatedFrame ∧
    Sample.rotatedFrame.kam.isSome ∧
    ((DmSession.open Primitives.transparent Sample.rotatedFrame (Sample.keys 3).privateKey).run
      (withBounds "alice" 50 600 : DmSession Int)).1 = .err (.ratchet .unwrapFailed) := by
  refine ⟨⟨Primitives.tagged_kemLaws _, Primitives.tagged_aeadLaws _⟩,
    Sample.begunForTwo_reachable, Sample.rotatedFrame_sealed, ?_, ?_⟩
  · decide +kernel
  · decide +kernel

end DmSession
end SkPqc
