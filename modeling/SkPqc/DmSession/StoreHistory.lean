import SkPqc.DmSession.FailedRekey
import SkPqc.Foundations.KeyedWrites

/-!
# The history of the secret store

Two calls write to the store: a seal that begins an epoch puts its fresh secret
there, whatever the store held, and an open offers the secret of its KAM, which
is taken only where the epoch is vacant.  What the store holds after any calls
is then read off the writes.

Main results:

- Theorem `call_store`: a call makes its one write, or none.
- Theorem `store_history`: after any calls an epoch holds the secret that the
  session last began it with, else the one it held, else the first one offered.
- Theorem `opened_frame_reopens`: a frame that was opened opens again at any
  later time, unless the session has begun the frame's epoch in between.
-/

namespace SkPqc
namespace DmSession

open Rust Kem Ratchet Transducer

variable {φ : Type} [F64 φ] (P : Primitives)

/-! ## Writes -/

/-- The store as a function of the epoch. -/
def stored (s : DmSession φ) : UInt64 → Option (ByteBlock epochSecretLen) :=
  fun epoch => s.epochSecrets[epoch]?

/-- The secret that a frame offers to the holder of a private key. -/
def offered (frame : SealedDmFrame) (myHybridPriv : Bytes) :
    Option (ByteBlock epochSecretLen) :=
  match frame.kam with
  | none => none
  | some kam =>
      match unwrapDmEpochSecret P kam myHybridPriv with
      | .ok secret => some secret
      | _ => none

/-- The write of a call.  That of an open does not depend on the session. -/
def write (s : DmSession φ) : Call φ → Option (KeyedWrite UInt64 (ByteBlock epochSecretLen))
  | .seal _ peerHybridPub draws =>
      match s.beginAt draws.rekeyClock,
          wrapDmEpochSecret P draws.epochSecret.toList peerHybridPub draws.wrap with
      | some epoch, .ok _ => some (.put epoch draws.epochSecret)
      | _, _ => none
  | .open frame myHybridPriv => (offered P frame myHybridPriv).map (.offer frame.epoch)

/-- The writes of a sequence of calls. -/
def writes (s : DmSession φ) : List (Call φ) → List (KeyedWrite UInt64 (ByteBlock epochSecretLen))
  | [] => []
  | c :: cs => (s.write P c).toList ++ writes (s.call P c).2 cs

/-- The epochs that a session begins during a sequence of calls. -/
def begunEpochs (s : DmSession φ) (calls : List (Call φ)) : List UInt64 :=
  KeyedWrite.putKeys (s.writes P calls)

/-! ## One call -/

omit [F64 φ] in
theorem stored_begun (s : DmSession φ) (epoch : UInt64) (draws : SealDraws φ) (kam : Bytes) :
    (s.begun epoch draws kam).stored =
      KeyedWrite.apply s.stored (.put epoch draws.epochSecret) := by
  funext e
  exact getElem?_begun s epoch e draws kam

omit [F64 φ] in
/-- Learning the secret of a vacant epoch is an offer that is taken. -/
theorem stored_learned {s : DmSession φ} {epoch : UInt64}
    (hvacant : s.epochSecrets[epoch]? = none) (secret : ByteBlock epochSecretLen) :
    (s.learned epoch secret).stored = KeyedWrite.apply s.stored (.offer epoch secret) := by
  funext e
  by_cases he : e = epoch
  · subst he
    simp [stored, KeyedWrite.apply, hvacant]
  · simp [stored, KeyedWrite.apply, he]

omit [F64 φ] in
/-- An offer to an epoch that is taken changes nothing. -/
theorem apply_offer_of_stored {s : DmSession φ} {epoch : UInt64}
    {secret : ByteBlock epochSecretLen} (hstored : s.epochSecrets[epoch]? = some secret)
    (other : ByteBlock epochSecretLen) :
    KeyedWrite.apply s.stored (.offer epoch other) = s.stored := by
  funext e
  by_cases he : e = epoch
  · subst he
    simp [stored, KeyedWrite.apply, hstored]
  · simp [KeyedWrite.apply, he]

/-- A seal writes the secret of the epoch it begins. -/
theorem seal_store (s : DmSession φ) (plaintext peerHybridPub : Bytes) (draws : SealDraws φ) :
    ((DmSession.seal P plaintext peerHybridPub draws).run s).2.stored =
      KeyedWrite.run s.stored (s.write P (.seal plaintext peerHybridPub draws)).toList := by
  have hstep := seal_step P s plaintext peerHybridPub draws
  generalize (DmSession.seal P plaintext peerHybridPub draws).run s = res at hstep ⊢
  cases hstep with
  | refused hrekey =>
      have hwrite : s.write P (.seal plaintext peerHybridPub draws) = none := by
        unfold rekeyIfDue at hrekey
        rw [Mut.run_get_bind] at hrekey
        cases hdue : s.beginAt draws.rekeyClock with
        | none => simp [write, hdue]
        | some epoch =>
            rw [hdue] at hrekey
            cases hwrap : wrapDmEpochSecret P draws.epochSecret.toList peerHybridPub
                draws.wrap with
            | ok kam => simp [beginEpoch, hwrap] at hrekey
            | err e => simp [write, hdue, hwrap]
            | panic => simp [write, hdue, hwrap]
      rw [hwrite]
      rfl
  | @took s₁ r hrekey hratchet =>
      have hstored : (s₁.advance r).stored = s₁.stored := rfl
      rw [hstored]
      cases rekeyStep_of_ok hrekey with
      | current hcurrent hfresh =>
          have hnone := beginAt_eq_none_iff.mpr ⟨_, hcurrent, hfresh⟩
          simp [write, hnone]
      | began hdue hwrap =>
          simp [write, hdue, hwrap, stored_begun]

/-- An open offers the secret of its KAM. -/
theorem open_store (s : DmSession φ) (frame : SealedDmFrame) (myHybridPriv : Bytes) :
    ((DmSession.open P frame myHybridPriv).run s).2.stored =
      KeyedWrite.run s.stored (s.write P (.open frame myHybridPriv)).toList := by
  have hstep := open_step P s frame myHybridPriv
  generalize (DmSession.open P frame myHybridPriv).run s = res at hstep ⊢
  cases hstep with
  | known hstored =>
      simp only [write]
      cases offered P frame myHybridPriv with
      | none => rfl
      | some secret => exact (apply_offer_of_stored hstored secret).symm
  | learned hvacant hkam hunwrap =>
      simp [write, offered, hkam, hunwrap, stored_learned hvacant]
  | refused hvacant hkam hunwrap =>
      simp [write, offered, hkam, hunwrap]
  | missing hvacant hkam =>
      simp [write, offered, hkam]

/-- A call makes its one write, or none. -/
theorem call_store (s : DmSession φ) (c : Call φ) :
    (s.call P c).2.stored = KeyedWrite.run s.stored (s.write P c).toList := by
  cases c with
  | «seal» plaintext peerHybridPub draws => exact seal_store P s plaintext peerHybridPub draws
  | «open» frame myHybridPriv => exact open_store P s frame myHybridPriv

/-! ## Any calls -/

theorem stored_after (s : DmSession φ) (calls : List (Call φ)) :
    (s.after P calls).stored = KeyedWrite.run s.stored (s.writes P calls) := by
  induction calls generalizing s with
  | nil => rfl
  | cons c cs ih =>
      have hafter : s.after P (c :: cs) = (s.call P c).2.after P cs := rfl
      rw [hafter, ih, call_store, writes, KeyedWrite.run_append]

/-- After any calls, from any session, an epoch holds the secret that the session
last began it with, else the one it held before, else the first one that a KAM
offered. -/
theorem store_history (s : DmSession φ) (calls : List (Call φ)) (epoch : UInt64) :
    (s.after P calls).epochSecrets[epoch]? =
      (KeyedWrite.lastPut epoch (s.writes P calls)).or
        (s.epochSecrets[epoch]?.or (KeyedWrite.firstOffer epoch (s.writes P calls))) := by
  have hafter := congrFun (stored_after P s calls) epoch
  rw [KeyedWrite.run_apply] at hafter
  exact hafter

/-! ## Opened frames -/

variable {P}

omit [F64 φ] in
/-- An open that returned has left the secret of the frame in the store. -/
theorem stored_of_open_ok {s s' : DmSession φ} {frame : SealedDmFrame}
    {myHybridPriv plaintext : Bytes}
    (hopen : (DmSession.open P frame myHybridPriv).run s = (.ok plaintext, s')) :
    ∃ secret, s'.epochSecrets[frame.epoch]? = some secret ∧
      openBody P secret frame = .ok plaintext := by
  have hstep := open_step P s frame myHybridPriv
  rw [hopen] at hstep
  generalize hres : ((Outcome.ok plaintext : Outcome DmSessionError Bytes), s') = res at hstep
  have hreply : Outcome.ok plaintext = res.1 := congrArg Prod.fst hres
  have hstate : s' = res.2 := congrArg Prod.snd hres
  cases hstep with
  | known hstored =>
      rw [hstate]
      exact ⟨_, hstored, hreply.symm⟩
  | learned _ _ _ =>
      rw [hstate]
      exact ⟨_, by simp, hreply.symm⟩
  | refused _ _ _ => cases hreply
  | missing _ _ => cases hreply

omit [F64 φ] in
/-- With the secret of the frame in the store, the KAM and the key are not used. -/
theorem open_of_stored {s : DmSession φ} {frame : SealedDmFrame} (myHybridPriv : Bytes)
    {secret : ByteBlock epochSecretLen} (hstored : s.epochSecrets[frame.epoch]? = some secret) :
    (DmSession.open P frame myHybridPriv).run s = (openBody P secret frame, s) := by
  have hstep := open_step P s frame myHybridPriv
  generalize (DmSession.open P frame myHybridPriv).run s = res at hstep ⊢
  cases hstep with
  | known hother =>
      rw [hstored] at hother
      cases hother
      rfl
  | learned hvacant _ _ => rw [hstored] at hvacant; cases hvacant
  | refused hvacant _ _ => rw [hstored] at hvacant; cases hvacant
  | missing hvacant _ => rw [hstored] at hvacant; cases hvacant

/-- A frame that was opened opens again after any further calls, under any key
and without a change, unless the session has begun the epoch of the frame in
between; then it is read under the last secret of the session's own. -/
theorem opened_frame_reopens {s s' : DmSession φ} {frame : SealedDmFrame}
    {myHybridPriv plaintext : Bytes}
    (hopen : (DmSession.open P frame myHybridPriv).run s = (.ok plaintext, s'))
    (calls : List (Call φ)) (anyPriv : Bytes) :
    (frame.epoch ∉ s'.begunEpochs P calls →
      (DmSession.open P frame anyPriv).run (s'.after P calls) =
        (.ok plaintext, s'.after P calls)) ∧
    ∀ own, KeyedWrite.lastPut frame.epoch (s'.writes P calls) = some own →
      (DmSession.open P frame anyPriv).run (s'.after P calls) =
        (openBody P own frame, s'.after P calls) := by
  rcases stored_of_open_ok hopen with ⟨secret, hstored, hbody⟩
  constructor
  · intro hother
    have hkept : (s'.after P calls).stored frame.epoch = some secret := by
      rw [stored_after]
      exact KeyedWrite.run_apply_of_notMem hother hstored
    rw [open_of_stored anyPriv hkept, hbody]
  · intro own hown
    have hbegun : (s'.after P calls).epochSecrets[frame.epoch]? = some own := by
      rw [store_history, hown, Option.some_or]
    exact open_of_stored anyPriv hbegun

/-! ## A sample run -/

namespace Sample

/-- The first frame to the keys of byte 2. -/
def greeting : SealedDmFrame := frame (DmSession.new "bob") [104, 105] 2 7

/-- A frame of the same epoch whose KAM offers another secret. -/
def otherOffer : SealedDmFrame := frame (DmSession.new "bob") [] 2 9

/-- The reader after the greeting. -/
def greeted : DmSession Int :=
  ((DmSession.open Primitives.transparent greeting (keys 2).privateKey).run
    (DmSession.new "alice")).2

theorem open_greeting :
    (DmSession.open Primitives.transparent greeting (keys 2).privateKey).run
      (DmSession.new "alice") = (.ok [104, 105], greeted) := by
  apply Prod.ext
  · decide +kernel
  · rw [greeted]

end Sample

/-- The greeting opens again after another offer for its epoch. -/
theorem opened_frame_reopens_greeting :
    let later := Sample.greeted.after Primitives.transparent
      [.open Sample.otherOffer (Sample.keys 2).privateKey]
    (DmSession.open Primitives.transparent Sample.greeting []).run later =
      (.ok [104, 105], later) :=
  (opened_frame_reopens Sample.open_greeting
    [.open Sample.otherOffer (Sample.keys 2).privateKey] []).1 (by decide +kernel)

end DmSession
end SkPqc
