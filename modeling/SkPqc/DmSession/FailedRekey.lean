import SkPqc.DmSession.Model
import SkPqc.Foundations.Transducer

/-!
# Rekeys that fail

`seal` wraps a fresh epoch secret before it touches the session, so a peer key
that cannot be wrapped to leaves nothing behind.  A conversation is a
transducer over the calls of its owner, and the failed rekeys are its idle
inputs.

Main results:

- Theorem `seal_err_ratchet`: a seal that fails in the rekey leaves the session
  as it was.
- Theorem `failed_rekey_unchanged`: taking the failed rekeys out of a
  conversation changes neither the other replies nor the session.
-/

namespace SkPqc
namespace DmSession

open Rust Kem Ratchet Transducer

variable {φ : Type} [F64 φ] (P : Primitives)

/-- The reply of a seal whose rekey failed. -/
def Reply.rekeyFailed : Reply → Bool
  | .sealed (.err (.ratchet _)) => true
  | _ => false

/-- The session after a sequence of calls. -/
def after (s : DmSession φ) (calls : List (Call φ)) : DmSession φ := final (call P) s calls

/-- The calls of a sequence without the seals whose rekey fails. -/
def withoutFailedRekeys (s : DmSession φ) (calls : List (Call φ)) : List (Call φ) :=
  dropIdle (call P) Reply.rekeyFailed s calls

theorem replies_eq_outputs (s : DmSession φ) (calls : List (Call φ)) :
    s.replies P calls = outputs (call P) s calls := by
  induction calls generalizing s with
  | nil => rfl
  | cons c cs ih => rw [replies, outputs, ih]

variable {P}

/-- A seal that fails in the rekey leaves the session as it was: past the rekey
the only error is that of the AEAD. -/
theorem seal_err_ratchet {s s' : DmSession φ} {plaintext peerHybridPub : Bytes}
    {draws : SealDraws φ} {e : RatchetError}
    (h : (DmSession.seal P plaintext peerHybridPub draws).run s = (.err (.ratchet e), s')) :
    s' = s := by
  have hstep := seal_step P s plaintext peerHybridPub draws
  rw [h] at hstep
  generalize hres : ((Outcome.err (.ratchet e) : Outcome DmSessionError SealedDmFrame), s') = res
    at hstep
  cases hstep with
  | refused _ => exact congrArg Prod.snd hres
  | took _ _ =>
      have hbody := (congrArg Prod.fst hres).symm
      unfold sealBody at hbody
      split at hbody
      · cases hbody
      · cases hbody

/-- So the failed rekeys are idle calls. -/
theorem call_of_rekeyFailed (s : DmSession φ) (c : Call φ)
    (h : (s.call P c).1.rekeyFailed = true) : (s.call P c).2 = s := by
  cases c with
  | «open» frame myHybridPriv => cases h
  | «seal» plaintext peerHybridPub draws =>
      simp only [call] at h ⊢
      generalize hrun : (DmSession.seal P plaintext peerHybridPub draws).run s = res at h ⊢
      rcases res with ⟨out, s'⟩
      cases out with
      | ok frame => cases h
      | panic => cases h
      | err e =>
          cases e with
          | ratchet e => exact seal_err_ratchet hrun
          | badToken why => cases h
          | openFailed => cases h
          | missingEpochSecret epoch => cases h

/-- A failed rekey changes nothing: the session stays as it was, and a
conversation goes on as if the call had not been made. -/
theorem failed_rekey_unchanged (P : Primitives) (s : DmSession φ) :
    (∀ plaintext peerHybridPub draws e s',
      (DmSession.seal P plaintext peerHybridPub draws).run s = (.err (.ratchet e), s') → s' = s) ∧
    ∀ calls,
      s.replies P (s.withoutFailedRekeys P calls) =
          (s.replies P calls).filter (fun r => !r.rekeyFailed) ∧
        s.after P (s.withoutFailedRekeys P calls) = s.after P calls := by
  refine ⟨fun _ _ _ _ _ h => seal_err_ratchet h, fun calls => ?_⟩
  rw [replies_eq_outputs, replies_eq_outputs]
  constructor
  · exact outputs_dropIdle call_of_rekeyFailed s calls
  · exact final_dropIdle call_of_rekeyFailed s calls

end DmSession
end SkPqc
