import SkPqc.DmSession.Model

/-!
# Rejected frames

`open` stores the secret of a fresh KAM before it authenticates the body.  This
module characterises the frames that `open` rejects without a trace.

Main results:

- Theorem `open_leavesNoTrace_iff`: an error of `open` leaves the session and
  every later reply as they were, unless the frame's KAM supplied the secret
  of a vacant epoch under which its body does not decrypt.
- Theorem `forged_frame_blocks_epoch`: such a frame makes the authentic frames
  of its epoch unopenable.
-/

namespace SkPqc
namespace DmSession

open Rust Kem Ratchet

variable {φ : Type} (P : Primitives)

/-- If opening the frame is an error, the session after the call is the session
before it, and every later sequence of calls gets the same replies. -/
def LeavesNoTrace [F64 φ] (s : DmSession φ) (frame : SealedDmFrame) (myHybridPriv : Bytes) :
    Prop :=
  ∀ e s', (DmSession.open P frame myHybridPriv).run s = (.err e, s') →
    s' = s ∧ ∀ calls, s'.replies P calls = s.replies P calls

/-- The frame's KAM yields a secret for a vacant epoch, but the frame's body
does not decrypt under that secret. -/
def PlantsSecret (s : DmSession φ) (frame : SealedDmFrame) (myHybridPriv : Bytes) : Prop :=
  s.epochSecrets[frame.epoch]? = none ∧
    ∃ kam secret, frame.kam = some kam ∧ unwrapDmEpochSecret P kam myHybridPriv = .ok secret ∧
      P.aes256GcmDecrypt (messageKey P secret frame.epoch frame.index).toList frame.nonce
        (frameAad frame.epoch frame.index) frame.body = (.ok none : Outcome DmSessionError _)

/-- The body step fails with a typed error only where the AEAD refuses. -/
theorem openBody_eq_err_iff {secret : ByteBlock epochSecretLen} {frame : SealedDmFrame}
    {e : DmSessionError} :
    openBody P secret frame = .err e ↔
      e = .openFailed ∧
        P.aes256GcmDecrypt (messageKey P secret frame.epoch frame.index).toList frame.nonce
          (frameAad frame.epoch frame.index) frame.body =
            (.ok none : Outcome DmSessionError _) := by
  unfold openBody
  rcases @Primitives.aes256GcmDecrypt_cases P DmSessionError
    (messageKey P secret frame.epoch frame.index) frame.nonce (frameAad frame.epoch frame.index)
    frame.body with ⟨_, opened, hopened⟩ | ⟨_, hpanic⟩
  · rw [hopened]
    cases opened with
    | none => simp [eq_comm]
    | some plain => simp
  · rw [hpanic]
    simp

/-- A learned secret shows in the store. -/
theorem learned_ne {s : DmSession φ} {epoch : UInt64} (secret : ByteBlock epochSecretLen)
    (hvacant : s.epochSecrets[epoch]? = none) : s.learned epoch secret ≠ s := by
  intro h
  have hstored : (s.learned epoch secret).epochSecrets[epoch]? = some secret := by simp
  rw [h, hvacant] at hstored
  cases hstored

/-- A frame that plants a secret is rejected, and the secret stays. -/
theorem PlantsSecret.not_leavesNoTrace [F64 φ] {P : Primitives} {s : DmSession φ}
    {frame : SealedDmFrame} {myHybridPriv : Bytes} (h : PlantsSecret P s frame myHybridPriv) :
    ¬ LeavesNoTrace P s frame myHybridPriv := by
  rcases h with ⟨hvacant, kam, secret, hkam, hunwrap, hbody⟩
  have hrun : (DmSession.open P frame myHybridPriv).run s =
      (.err .openFailed, s.learned frame.epoch secret) := by
    rw [open_of_unwrap P hvacant hkam hunwrap, (openBody_eq_err_iff P).mpr ⟨rfl, hbody⟩]
  intro hclean
  exact learned_ne secret hvacant (hclean _ _ hrun).1

/-- A frame that plants no secret changes the session only by opening. -/
theorem state_eq_of_not_plantsSecret {s s' : DmSession φ} {frame : SealedDmFrame}
    {myHybridPriv : Bytes} {e : DmSessionError} (h : ¬ PlantsSecret P s frame myHybridPriv)
    (hrun : (DmSession.open P frame myHybridPriv).run s = (.err e, s')) : s' = s := by
  have hstep := open_step P s frame myHybridPriv
  rw [hrun] at hstep
  generalize hres : ((Outcome.err e : Outcome DmSessionError Bytes), s') = res at hstep
  cases hstep with
  | known _ => exact congrArg Prod.snd hres
  | missing _ _ => exact congrArg Prod.snd hres
  | refused _ _ _ => exact congrArg Prod.snd hres
  | learned hvacant hkam hunwrap =>
      have hbody := ((openBody_eq_err_iff P).mp (congrArg Prod.fst hres).symm).2
      exact absurd ⟨hvacant, _, _, hkam, hunwrap, hbody⟩ h

/-- `open` rejects a frame without a trace exactly when the frame does not
plant a secret that its own body contradicts. -/
theorem open_leavesNoTrace_iff [F64 φ] (s : DmSession φ) (frame : SealedDmFrame)
    (myHybridPriv : Bytes) :
    LeavesNoTrace P s frame myHybridPriv ↔ ¬ PlantsSecret P s frame myHybridPriv := by
  constructor
  · intro hclean hplants
    exact hplants.not_leavesNoTrace hclean
  · intro hplants e s' hrun
    have hsame : s' = s := state_eq_of_not_plantsSecret P hplants hrun
    exact ⟨hsame, fun calls => by rw [hsame]⟩

/-- The first frame of a session whose secret is the sender's own, with its
body cut off. -/
def Sample.forged : SealedDmFrame :=
  { Sample.frame (DmSession.new "bob") [] 2 9 with body := [] }

/-- After the forged frame was rejected, the frame that opened before it is
refused. -/
theorem forged_frame_blocks_epoch :
    (Primitives.transparent.KemLaws ∧ Primitives.transparent.AeadLaws) ∧
    Sample.forged.nonce.length = 12 ∧
    ¬ LeavesNoTrace Primitives.transparent (DmSession.new "alice" : DmSession Int) Sample.forged
      (Sample.keys 2).privateKey ∧
    (let bob : DmSession Int := DmSession.new "alice"
     let forged := Call.open Sample.forged (Sample.keys 2).privateKey
     let authentic :=
       Call.open (Sample.frame (DmSession.new "bob") [104, 105] 2 7) (Sample.keys 2).privateKey
     bob.replies Primitives.transparent [authentic] = [.opened (.ok [104, 105])] ∧
     bob.replies Primitives.transparent [forged, authentic] =
       [.opened (.err .openFailed), .opened (.err .openFailed)]) := by
  have hplants : PlantsSecret Primitives.transparent (DmSession.new "alice" : DmSession Int)
      Sample.forged (Sample.keys 2).privateKey := by
    refine ⟨by decide +kernel, ((Sample.forged.kam).getD []), Sample.block 32 9, ?_, ?_, ?_⟩ <;>
      decide +kernel
  refine ⟨⟨Primitives.tagged_kemLaws _, Primitives.tagged_aeadLaws _⟩, by decide +kernel,
    hplants.not_leavesNoTrace, ?_⟩
  constructor <;> decide +kernel

end DmSession
end SkPqc
