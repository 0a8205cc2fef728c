import SkPqc.Ratchet
import SkPqc.Foundations.Mut
import Std.Data.ExtTreeMap

/-!
# The DM session driver

This module embeds the sealing and opening halves of `dm_session.rs`.  A
session owns the outbound ratchet, the per-epoch secret store and the current
epoch's key-agreement message (KAM).  `seal` and `open` take `&mut self`, so
each of them is a `Mut` call; what the code draws from `OsRng` and reads from
the clock is an argument.

Main results:

- Theorem `seal_step`: a seal is refused by the rekey and changes nothing, or
  it takes a key from the ratchet the rekey left and advances that ratchet.
- Theorem `open_step`: an open finds the epoch's secret, learns it from the
  KAM, is refused by the KAM, or misses the secret.
- Theorem `call_step`: the states that a call can leave.
- Theorem `call_invariant`: the rule that carries an invariant over a call.
- Theorem `Coherent.step`: every call keeps the ratchet's secret the one that is
  stored for its epoch.
-/

namespace SkPqc
namespace DmSession

open Rust Kem Ratchet

/-! ## Frames -/

abbrev frameNonceLen : Nat := 12

/-- AAD prefix; the `(epoch, index)` pair follows after a `|`. -/
def aadPrefix : Bytes := byteLit "skchat/dm-frame/v1"

/-- The KAM rides the first `kamRepeat` frames of each epoch. -/
def kamRepeat : UInt64 := 3

/-- Bind `(epoch, index)` into the AEAD AAD. -/
def frameAad (epoch index : UInt64) : Bytes :=
  aadPrefix ++ byteLit "|" ++ u64Be epoch ++ u64Be index

/-- Errors of the session driver and of its token codec. -/
inductive DmSessionError where
  | badToken (why : String)
  /-- The AEAD refused the body; the cause is not told apart. -/
  | openFailed
  | missingEpochSecret (epoch : UInt64)
  | ratchet (e : RatchetError)
deriving DecidableEq, Repr

/-- One sealed DM on the wire. -/
structure SealedDmFrame where
  epoch : UInt64
  index : UInt64
  nonce : Bytes
  body : Bytes
  /-- The wrapped epoch secret, on the first frames of an epoch. -/
  kam : Option Bytes
deriving DecidableEq, Repr

/-- Secrets by epoch number. -/
abbrev EpochSecrets := Std.ExtTreeMap UInt64 (ByteBlock epochSecretLen)

theorem EpochSecrets.getElem?_insert (m : EpochSecrets) (e i : UInt64)
    (secret : ByteBlock epochSecretLen) :
    (m.insert e secret)[i]? = if i = e then some secret else m[i]? := by
  simp only [Std.ExtTreeMap.getElem?_insert, Std.LawfulEqOrd.compare_eq_iff_eq, eq_comm (a := e)]

end DmSession

open Rust Kem Ratchet DmSession

/-- Ratchet session with one peer. -/
structure DmSession (φ : Type) where
  peer : String
  rekeyMsgBound : UInt64
  rekeyAgeSeconds : UInt64
  ratchet : Option (DmRatchet φ)
  epochSecrets : EpochSecrets
  currentKam : Option Bytes

namespace DmSession

variable {φ : Type}

/-- What one `seal` reads from the clock and draws from `OsRng`. -/
structure SealDraws (φ : Type) where
  /-- The reading `should_rekey` compares with the start of the epoch. -/
  rekeyClock : φ
  /-- The reading a fresh ratchet stores as the start of its epoch. -/
  startClock : φ
  epochSecret : ByteBlock epochSecretLen
  wrap : WrapDraws
  frameNonce : ByteBlock frameNonceLen

/-- A session with explicit rekey bounds. -/
def withBounds (peer : String) (rekeyMsgBound rekeyAgeSeconds : UInt64) : DmSession φ where
  peer := peer
  rekeyMsgBound := rekeyMsgBound
  rekeyAgeSeconds := rekeyAgeSeconds
  ratchet := none
  epochSecrets := ∅
  currentKam := none

/-- A session with the default rekey bounds. -/
def new (peer : String) : DmSession φ :=
  withBounds peer defaultRekeyMsgBound defaultRekeyAgeSeconds

/-! ## Sending -/

section Sender

variable [F64 φ] (P : Primitives)

/-- The epoch the next seal has to begin, if any.  `epoch + 1` wraps. -/
def beginAt (s : DmSession φ) (clock : φ) : Option UInt64 :=
  match s.ratchet with
  | none => some 0
  | some r => if r.shouldRekey none clock then some (r.epoch + 1) else none

/-- Start a fresh epoch: wrap first, then the secret, the ratchet and the KAM. -/
def beginEpoch (epoch : UInt64) (peerHybridPub : Bytes) (draws : SealDraws φ) :
    Mut (DmSession φ) DmSessionError Unit := do
  let secret := draws.epochSecret
  let kam ← Mut.lift
    ((wrapDmEpochSecret P secret.toList peerHybridPub draws.wrap).mapErr .ratchet)
  Mut.modify fun s => { s with epochSecrets := s.epochSecrets.insert epoch secret }
  Mut.modify fun s =>
    { s with
      ratchet := some
        (.withBounds epoch secret s.rekeyMsgBound s.rekeyAgeSeconds draws.startClock) }
  Mut.modify fun s => { s with currentKam := some kam }

/-- The first part of `seal`: begin an epoch when one is due. -/
def rekeyIfDue (peerHybridPub : Bytes) (draws : SealDraws φ) :
    Mut (DmSession φ) DmSessionError Unit := do
  let s ← Mut.get
  match s.beginAt draws.rekeyClock with
  | some epoch => beginEpoch P epoch peerHybridPub draws
  | none => pure ()

/-- The second part of `seal`: `(index, key, epoch)` of the next message. -/
def outboundKey : Mut (DmSession φ) DmSessionError
    (UInt64 × ByteBlock messageKeyLen × UInt64) := do
  let s ← Mut.get
  let r ← Mut.lift (Outcome.unwrap s.ratchet)
  let ((idx, key), r') ← Mut.lift (r.nextOutboundKey P)
  Mut.modify fun s => { s with ratchet := some r' }
  pure (idx, key, r'.epoch)

/-- Seal a plaintext to the peer, rekeying as needed. -/
def «seal» (plaintext peerHybridPub : Bytes) (draws : SealDraws φ) :
    Mut (DmSession φ) DmSessionError SealedDmFrame := do
  rekeyIfDue P peerHybridPub draws
  let (idx, key, epoch) ← outboundKey P
  let s ← Mut.get
  let kam := if idx < kamRepeat then s.currentKam else none
  let nonce := draws.frameNonce
  let aad := frameAad epoch idx
  let sealed ← Mut.lift (P.aes256GcmEncrypt key.toList nonce.toList aad plaintext)
  let body ← Mut.lift (Outcome.okOr .openFailed sealed)
  pure { epoch := epoch, index := idx, nonce := nonce.toList, body := body, kam := kam }

end Sender

/-! ## Receiving -/

section Receiver

variable (P : Primitives)

/-- The first part of `open`: learn the secret of a vacant epoch from the KAM. -/
def acceptKam (frame : SealedDmFrame) (myHybridPriv : Bytes) :
    Mut (DmSession φ) DmSessionError Unit :=
  match frame.kam with
  | none => pure ()
  | some kam => do
      let s ← Mut.get
      match s.epochSecrets[frame.epoch]? with
      | some _ => pure ()
      | none =>
          let secret ← Mut.lift ((unwrapDmEpochSecret P kam myHybridPriv).mapErr .ratchet)
          Mut.modify fun s =>
            { s with epochSecrets := s.epochSecrets.insert frame.epoch secret }

/-- Open a sealed frame, accepting its KAM if it carries a new epoch. -/
def «open» (frame : SealedDmFrame) (myHybridPriv : Bytes) :
    Mut (DmSession φ) DmSessionError Bytes := do
  acceptKam P frame myHybridPriv
  let s ← Mut.get
  let secret ← Mut.lift
    (Outcome.okOr (.missingEpochSecret frame.epoch) s.epochSecrets[frame.epoch]?)
  let key ← Mut.lift
    ((deriveDmMessageKey P secret.toList frame.epoch frame.index).mapErr .ratchet)
  let aad := frameAad frame.epoch frame.index
  let opened ← Mut.lift (P.aes256GcmDecrypt key.toList frame.nonce aad frame.body)
  Mut.lift (Outcome.okOr .openFailed opened)

end Receiver

/-! ## What a seal does -/

section SealStep

variable [F64 φ] (P : Primitives)

/-- The state in which an epoch has begun. -/
def begun (s : DmSession φ) (epoch : UInt64) (draws : SealDraws φ) (kam : Bytes) :
    DmSession φ :=
  { s with
    epochSecrets := s.epochSecrets.insert epoch draws.epochSecret
    ratchet := some
      (.withBounds epoch draws.epochSecret s.rekeyMsgBound s.rekeyAgeSeconds draws.startClock)
    currentKam := some kam }

/-- The state after a key was taken from the ratchet `r`. -/
def advance (s : DmSession φ) (r : DmRatchet φ) : DmSession φ :=
  { s with ratchet := some { r with messageIndex := r.messageIndex + 1 } }

omit [F64 φ] in
@[simp] theorem getElem?_begun (s : DmSession φ) (e i : UInt64) (draws : SealDraws φ)
    (kam : Bytes) :
    (s.begun e draws kam).epochSecrets[i]? =
      if i = e then some draws.epochSecret else s.epochSecrets[i]? :=
  EpochSecrets.getElem?_insert _ _ _ _

/-- The key of the next message of a ratchet. -/
def nextKey (r : DmRatchet φ) : ByteBlock messageKeyLen :=
  messageKey P r.epochSecret r.epoch r.messageIndex

/-- The last part of `seal`, on the ratchet `r` before it was advanced. -/
def sealBody (s : DmSession φ) (r : DmRatchet φ) (plaintext : Bytes) (draws : SealDraws φ) :
    Outcome DmSessionError SealedDmFrame :=
  match P.aesGcmEncrypt (nextKey P r) draws.frameNonce (frameAad r.epoch r.messageIndex)
      plaintext with
  | none => .err .openFailed
  | some body => .ok
      { epoch := r.epoch, index := r.messageIndex, nonce := draws.frameNonce.toList
        body := body, kam := if r.messageIndex < kamRepeat then s.currentKam else none }

/-- No epoch is due under a ratchet that need not rekey. -/
theorem beginAt_eq_none_iff {s : DmSession φ} {clock : φ} :
    s.beginAt clock = none ↔ ∃ r, s.ratchet = some r ∧ r.shouldRekey none clock = false := by
  unfold beginAt
  cases s.ratchet with
  | none => simp
  | some r => simp

/-- The first epoch is due without a ratchet, and the next one under a ratchet
that has to rekey. -/
theorem beginAt_eq_some_iff {s : DmSession φ} {clock : φ} {epoch : UInt64} :
    s.beginAt clock = some epoch ↔
      (s.ratchet = none ∧ epoch = 0) ∨
        ∃ r, s.ratchet = some r ∧ r.shouldRekey none clock = true ∧ epoch = r.epoch + 1 := by
  unfold beginAt
  cases s.ratchet with
  | none => simp [eq_comm (a := epoch)]
  | some r => simp [eq_comm (a := epoch)]

/-- The three ways in which `rekeyIfDue` ends. -/
inductive RekeyStep (s : DmSession φ) (peerHybridPub : Bytes) (draws : SealDraws φ) :
    Outcome DmSessionError Unit × DmSession φ → Prop where
  | current {r : DmRatchet φ} (hratchet : s.ratchet = some r)
      (hfresh : r.shouldRekey none draws.rekeyClock = false) :
      RekeyStep s peerHybridPub draws (.ok (), s)
  | began {epoch : UInt64} {kam : Bytes} (hdue : s.beginAt draws.rekeyClock = some epoch)
      (hwrap : wrapDmEpochSecret P draws.epochSecret.toList peerHybridPub draws.wrap = .ok kam) :
      RekeyStep s peerHybridPub draws (.ok (), s.begun epoch draws kam)
  | refused {e : RatchetError} :
      RekeyStep s peerHybridPub draws (.err (.ratchet e), s)

theorem rekeyIfDue_step (s : DmSession φ) (peerHybridPub : Bytes) (draws : SealDraws φ) :
    RekeyStep P s peerHybridPub draws ((rekeyIfDue P peerHybridPub draws).run s) := by
  unfold rekeyIfDue
  rw [Mut.run_get_bind]
  cases hdue : s.beginAt draws.rekeyClock with
  | none =>
      rcases beginAt_eq_none_iff.mp hdue with ⟨r, hratchet, hfresh⟩
      exact .current hratchet hfresh
  | some epoch =>
      have hpanic := wrapDmEpochSecret_ne_panic P draws.epochSecret.toList peerHybridPub draws.wrap
      cases hwrap : wrapDmEpochSecret P draws.epochSecret.toList peerHybridPub draws.wrap with
      | ok kam =>
          have hrun : (beginEpoch P epoch peerHybridPub draws).run s =
              (.ok (), s.begun epoch draws kam) := by
            simp [beginEpoch, hwrap, begun]
          rw [hrun]
          exact .began hdue hwrap
      | err e =>
          have hrun : (beginEpoch P epoch peerHybridPub draws).run s = (.err (.ratchet e), s) := by
            simp [beginEpoch, hwrap]
          rw [hrun]
          exact .refused
      | panic => exact absurd hwrap hpanic

/-- The rekey of a seal that goes on. -/
theorem rekeyStep_of_ok {P : Primitives} {s s₁ : DmSession φ} {peerHybridPub : Bytes}
    {draws : SealDraws φ} (hrekey : (rekeyIfDue P peerHybridPub draws).run s = (.ok (), s₁)) :
    RekeyStep P s peerHybridPub draws (.ok (), s₁) := by
  rw [← hrekey]
  exact rekeyIfDue_step P s peerHybridPub draws

/-- After a rekey that returned, there is a ratchet to take a key from. -/
theorem RekeyStep.ratchet_isSome {P : Primitives} {s s₁ : DmSession φ} {peerHybridPub : Bytes}
    {draws : SealDraws φ} (h : RekeyStep P s peerHybridPub draws (.ok (), s₁)) :
    ∃ r, s₁.ratchet = some r := by
  cases h with
  | current hratchet _ => exact ⟨_, hratchet⟩
  | began _ _ => exact ⟨_, rfl⟩

omit [F64 φ] in
theorem outboundKey_eq {s : DmSession φ} {r : DmRatchet φ} (hratchet : s.ratchet = some r) :
    (outboundKey P).run s = (.ok (r.messageIndex, nextKey P r, r.epoch), s.advance r) := by
  simp [outboundKey, hratchet, nextKey, advance]

/-- The two ways in which `seal` ends. -/
inductive SealStep (s : DmSession φ) (plaintext peerHybridPub : Bytes) (draws : SealDraws φ) :
    Outcome DmSessionError SealedDmFrame × DmSession φ → Prop where
  | refused {e : RatchetError}
      (hrekey : (rekeyIfDue P peerHybridPub draws).run s = (.err (.ratchet e), s)) :
      SealStep s plaintext peerHybridPub draws (.err (.ratchet e), s)
  | took {s₁ : DmSession φ} {r : DmRatchet φ}
      (hrekey : (rekeyIfDue P peerHybridPub draws).run s = (.ok (), s₁))
      (hratchet : s₁.ratchet = some r) :
      SealStep s plaintext peerHybridPub draws (sealBody P s₁ r plaintext draws, s₁.advance r)

theorem seal_step (s : DmSession φ) (plaintext peerHybridPub : Bytes) (draws : SealDraws φ) :
    SealStep P s plaintext peerHybridPub draws
      ((DmSession.seal P plaintext peerHybridPub draws).run s) := by
  have hrekey := rekeyIfDue_step P s peerHybridPub draws
  generalize hres : (rekeyIfDue P peerHybridPub draws).run s = res at hrekey
  rcases res with ⟨out, s₁⟩
  cases out with
  | ok _ =>
      rcases hrekey.ratchet_isSome with ⟨r, hratchet⟩
      have hrun : (DmSession.seal P plaintext peerHybridPub draws).run s =
          (sealBody P s₁ r plaintext draws, s₁.advance r) := by
        unfold DmSession.seal sealBody
        rw [Mut.run_bind_of_ok hres, Mut.run_bind_of_ok (outboundKey_eq P hratchet)]
        cases hbody : P.aesGcmEncrypt (nextKey P r) draws.frameNonce
            (frameAad r.epoch r.messageIndex) plaintext with
        | none => simp [hbody]
        | some body => simp [hbody, advance]
      rw [hrun]
      exact .took hres hratchet
  | err e =>
      have hrun : (DmSession.seal P plaintext peerHybridPub draws).run s = (.err e, s₁) :=
        Mut.run_bind_of_err hres
      rw [hrun]
      cases hrekey
      exact .refused hres
  | panic => cases hrekey

omit [F64 φ] in
/-- The frame of a seal that returned, on the ratchet it took its key from. -/
theorem sealBody_eq_ok_iff {s : DmSession φ} {r : DmRatchet φ} {plaintext : Bytes}
    {draws : SealDraws φ} {frame : SealedDmFrame} :
    sealBody P s r plaintext draws = .ok frame ↔
      ∃ body, P.aesGcmEncrypt (nextKey P r) draws.frameNonce (frameAad r.epoch r.messageIndex)
          plaintext = some body ∧
        frame = SealedDmFrame.mk r.epoch r.messageIndex draws.frameNonce.toList body
          (if r.messageIndex < kamRepeat then s.currentKam else none) := by
  unfold sealBody
  split
  · rename_i hnone
    simp [hnone]
  · rename_i body hsome
    constructor
    · intro h
      cases h
      exact ⟨body, hsome, rfl⟩
    · rintro ⟨body', hbody', rfl⟩
      rw [hsome] at hbody'
      cases hbody'
      rfl

end SealStep

/-! ## What an open does -/

section OpenStep

variable (P : Primitives)

/-- The state in which the secret of an epoch was learned. -/
def learned (s : DmSession φ) (epoch : UInt64) (secret : ByteBlock epochSecretLen) :
    DmSession φ :=
  { s with epochSecrets := s.epochSecrets.insert epoch secret }

@[simp] theorem getElem?_learned (s : DmSession φ) (e i : UInt64)
    (secret : ByteBlock epochSecretLen) :
    (s.learned e secret).epochSecrets[i]? =
      if i = e then some secret else s.epochSecrets[i]? :=
  EpochSecrets.getElem?_insert _ _ _ _

/-- The last part of `open`, under the secret found for the frame's epoch. -/
def openBody (secret : ByteBlock epochSecretLen) (frame : SealedDmFrame) :
    Outcome DmSessionError Bytes := do
  let opened ← P.aes256GcmDecrypt (messageKey P secret frame.epoch frame.index).toList
    frame.nonce (frameAad frame.epoch frame.index) frame.body
  Outcome.okOr .openFailed opened

/-- The four ways in which `open` ends. -/
inductive OpenStep (s : DmSession φ) (frame : SealedDmFrame) (myHybridPriv : Bytes) :
    Outcome DmSessionError Bytes × DmSession φ → Prop where
  | known {secret : ByteBlock epochSecretLen}
      (hstored : s.epochSecrets[frame.epoch]? = some secret) :
      OpenStep s frame myHybridPriv (openBody P secret frame, s)
  | learned {kam : Bytes} {secret : ByteBlock epochSecretLen}
      (hvacant : s.epochSecrets[frame.epoch]? = none) (hkam : frame.kam = some kam)
      (hunwrap : unwrapDmEpochSecret P kam myHybridPriv = .ok secret) :
      OpenStep s frame myHybridPriv (openBody P secret frame, s.learned frame.epoch secret)
  | refused {kam : Bytes} {e : RatchetError}
      (hvacant : s.epochSecrets[frame.epoch]? = none) (hkam : frame.kam = some kam)
      (hunwrap : unwrapDmEpochSecret P kam myHybridPriv = .err e) :
      OpenStep s frame myHybridPriv (.err (.ratchet e), s)
  | missing (hvacant : s.epochSecrets[frame.epoch]? = none) (hkam : frame.kam = none) :
      OpenStep s frame myHybridPriv (.err (.missingEpochSecret frame.epoch), s)

/-- Opening once the KAM has been dealt with and the secret is stored. -/
theorem open_of_acceptKam {s s' : DmSession φ} {frame : SealedDmFrame} {myHybridPriv : Bytes}
    {secret : ByteBlock epochSecretLen}
    (haccept : (acceptKam P frame myHybridPriv).run s = (.ok (), s'))
    (hstored : s'.epochSecrets[frame.epoch]? = some secret) :
    (DmSession.open P frame myHybridPriv).run s = (openBody P secret frame, s') := by
  unfold DmSession.open openBody
  rw [Mut.run_bind_of_ok haccept, Mut.run_get_bind, hstored]
  simp only [Outcome.okOr_some, Mut.run_lift_ok_bind, deriveDmMessageKey_toList, Outcome.mapErr_ok]
  generalize P.aes256GcmDecrypt (messageKey P secret frame.epoch frame.index).toList
    frame.nonce (frameAad frame.epoch frame.index) frame.body = opened
  cases opened <;> rfl

/-- Opening takes the secret of a vacant epoch from a KAM that unwraps. -/
theorem open_of_unwrap {s : DmSession φ} {frame : SealedDmFrame} {myHybridPriv kam : Bytes}
    {secret : ByteBlock epochSecretLen} (hvacant : s.epochSecrets[frame.epoch]? = none)
    (hkam : frame.kam = some kam) (hunwrap : unwrapDmEpochSecret P kam myHybridPriv = .ok secret) :
    (DmSession.open P frame myHybridPriv).run s =
      (openBody P secret frame, s.learned frame.epoch secret) := by
  have haccept : (acceptKam P frame myHybridPriv).run s =
      (.ok (), s.learned frame.epoch secret) := by
    simp [acceptKam, hkam, hvacant, hunwrap, DmSession.learned]
  have hlearned : (s.learned frame.epoch secret).epochSecrets[frame.epoch]? = some secret := by
    simp
  exact open_of_acceptKam P haccept hlearned

/-- Opening stops at a KAM that does not unwrap. -/
theorem open_of_unwrap_err {s : DmSession φ} {frame : SealedDmFrame} {myHybridPriv kam : Bytes}
    {e : RatchetError} (hvacant : s.epochSecrets[frame.epoch]? = none)
    (hkam : frame.kam = some kam) (hunwrap : unwrapDmEpochSecret P kam myHybridPriv = .err e) :
    (DmSession.open P frame myHybridPriv).run s = (.err (.ratchet e), s) := by
  have haccept : (acceptKam P frame myHybridPriv).run s = (.err (.ratchet e), s) := by
    simp [acceptKam, hkam, hvacant, hunwrap]
  exact Mut.run_bind_of_err haccept

/-- Opening misses the secret of a vacant epoch without a KAM. -/
theorem open_of_missing {s : DmSession φ} {frame : SealedDmFrame} (myHybridPriv : Bytes)
    (hvacant : s.epochSecrets[frame.epoch]? = none) (hkam : frame.kam = none) :
    (DmSession.open P frame myHybridPriv).run s = (.err (.missingEpochSecret frame.epoch), s) := by
  simp [DmSession.open, acceptKam, hkam, hvacant]

theorem open_step (s : DmSession φ) (frame : SealedDmFrame) (myHybridPriv : Bytes) :
    OpenStep P s frame myHybridPriv ((DmSession.open P frame myHybridPriv).run s) := by
  cases hstored : s.epochSecrets[frame.epoch]? with
  | some secret =>
      have haccept : (acceptKam P frame myHybridPriv).run s = (.ok (), s) := by
        unfold acceptKam
        split
        · rfl
        · simp [hstored]
      rw [open_of_acceptKam P haccept hstored]
      exact .known hstored
  | none =>
      cases hkam : frame.kam with
      | none =>
          rw [open_of_missing P myHybridPriv hstored hkam]
          exact .missing hstored hkam
      | some kam =>
          cases hunwrap : unwrapDmEpochSecret P kam myHybridPriv with
          | ok secret =>
              rw [open_of_unwrap P hstored hkam hunwrap]
              exact .learned hstored hkam hunwrap
          | err e =>
              rw [open_of_unwrap_err P hstored hkam hunwrap]
              exact .refused hstored hkam hunwrap
          | panic => exact absurd hunwrap (unwrapDmEpochSecret_ne_panic P _ _)

end OpenStep

/-! ## Sequences of calls -/

section Calls

variable [F64 φ] (P : Primitives)

/-- A call of a session method by its owner. -/
inductive Call (φ : Type) where
  | seal (plaintext peerHybridPub : Bytes) (draws : SealDraws φ)
  | open (frame : SealedDmFrame) (myHybridPriv : Bytes)

/-- What a call returns. -/
inductive Reply where
  | sealed (result : Outcome DmSessionError SealedDmFrame)
  | opened (result : Outcome DmSessionError Bytes)
deriving DecidableEq

/-- One call: its reply and the state it leaves. -/
def call (s : DmSession φ) : Call φ → Reply × DmSession φ
  | .seal plaintext peerHybridPub draws =>
      ((DmSession.seal P plaintext peerHybridPub draws).run s).map .sealed id
  | .open frame myHybridPriv =>
      ((DmSession.open P frame myHybridPriv).run s).map .opened id

/-- The states that a call can leave: the one before it, one whose ratchet gave a
key, or one that learned a secret. -/
inductive CallStep (s : DmSession φ) : Call φ → DmSession φ → Prop where
  | unchanged (c : Call φ) : CallStep s c s
  | took {plaintext peerHybridPub : Bytes} {draws : SealDraws φ} {s₁ : DmSession φ}
      {r : DmRatchet φ} (hrekey : RekeyStep P s peerHybridPub draws (.ok (), s₁))
      (hratchet : s₁.ratchet = some r) :
      CallStep s (.seal plaintext peerHybridPub draws) (s₁.advance r)
  | learned {frame : SealedDmFrame} {myHybridPriv : Bytes}
      (hvacant : s.epochSecrets[frame.epoch]? = none) (secret : ByteBlock epochSecretLen) :
      CallStep s (.open frame myHybridPriv) (s.learned frame.epoch secret)

theorem call_step (s : DmSession φ) (c : Call φ) : CallStep P s c (s.call P c).2 := by
  cases c with
  | «seal» plaintext peerHybridPub draws =>
      have hstep := seal_step P s plaintext peerHybridPub draws
      change CallStep P s _ ((DmSession.seal P plaintext peerHybridPub draws).run s).2
      generalize (DmSession.seal P plaintext peerHybridPub draws).run s = res at hstep ⊢
      cases hstep with
      | refused _ => exact .unchanged _
      | took hrekey hratchet => exact .took (rekeyStep_of_ok hrekey) hratchet
  | «open» frame myHybridPriv =>
      have hstep := open_step P s frame myHybridPriv
      change CallStep P s _ ((DmSession.open P frame myHybridPriv).run s).2
      generalize (DmSession.open P frame myHybridPriv).run s = res at hstep ⊢
      cases hstep with
      | known _ => exact .unchanged _
      | learned hvacant _ _ => exact .learned hvacant _
      | refused _ _ _ => exact .unchanged _
      | missing _ _ => exact .unchanged _

/-- The invariant rule of a call: what a fresh epoch has, and an advanced ratchet
and a secret learned for a vacant epoch keep. -/
theorem call_invariant {P : Primitives} (Inv : DmSession φ → Prop) {s : DmSession φ} {c : Call φ}
    (h : Inv s)
    (hbegun : ∀ plaintext peerHybridPub draws epoch kam,
      c = .seal plaintext peerHybridPub draws → Inv (s.begun epoch draws kam))
    (hadvance : ∀ s r, Inv s → s.ratchet = some r → Inv (s.advance r))
    (hlearned : ∀ epoch secret, s.epochSecrets[epoch]? = none → Inv (s.learned epoch secret)) :
    Inv (s.call P c).2 := by
  have hstep := call_step P s c
  generalize (s.call P c).2 = s' at hstep ⊢
  cases hstep with
  | unchanged _ => exact h
  | @took plaintext peerHybridPub draws s₁ r hrekey hratchet =>
      have hs₁ : Inv s₁ := by
        cases hrekey with
        | current _ _ => exact h
        | began _ _ => exact hbegun plaintext peerHybridPub draws _ _ rfl
      exact hadvance s₁ r hs₁ hratchet
  | learned hvacant secret => exact hlearned _ secret hvacant

/-- The replies to a sequence of calls. -/
def replies (s : DmSession φ) : List (Call φ) → List Reply
  | [] => []
  | c :: cs => (s.call P c).1 :: replies (s.call P c).2 cs

end Calls

/-! ## The outbound secret -/

section Outbound

/-- The secret of the outbound epoch is held twice, in the ratchet and in the
store, and the two copies agree. -/
def Coherent (s : DmSession φ) : Prop :=
  ∀ r, s.ratchet = some r → s.epochSecrets[r.epoch]? = some r.epochSecret

/-- A session without a ratchet has no second copy. -/
theorem coherent_of_ratchet_eq_none {s : DmSession φ} (hratchet : s.ratchet = none) :
    Coherent s := by
  intro r hr
  rw [hratchet] at hr
  cases hr

/-- A fresh epoch writes both copies, whatever the store held for it. -/
theorem Coherent.begun (s : DmSession φ) (epoch : UInt64) (draws : SealDraws φ) (kam : Bytes) :
    Coherent (s.begun epoch draws kam) := by
  intro r hr
  cases hr
  simp [DmRatchet.withBounds]

theorem Coherent.advance {s : DmSession φ} {r : DmRatchet φ} (h : Coherent s)
    (hratchet : s.ratchet = some r) : Coherent (s.advance r) := by
  intro r' hr'
  cases hr'
  exact h r hratchet

/-- A secret is learned for a vacant epoch only, never for that of the ratchet. -/
theorem Coherent.learned {s : DmSession φ} {epoch : UInt64} (h : Coherent s)
    (hvacant : s.epochSecrets[epoch]? = none) (secret : ByteBlock epochSecretLen) :
    Coherent (s.learned epoch secret) := by
  intro r hr
  have hstored := h r hr
  have hne : r.epoch ≠ epoch := by
    rintro rfl
    rw [hvacant] at hstored
    cases hstored
  rw [getElem?_learned, if_neg hne, hstored]

/-- Every call keeps the two copies equal. -/
theorem Coherent.step [F64 φ] {P : Primitives} {s : DmSession φ} (h : Coherent s) (c : Call φ) :
    Coherent (s.call P c).2 := by
  apply call_invariant Coherent h
  · intro _ _ draws epoch kam _
    exact .begun s epoch draws kam
  · intro s r hs hratchet
    exact hs.advance hratchet
  · intro epoch secret hvacant
    exact h.learned hvacant secret

end Outbound

/-! ## Sample inputs -/

namespace Sample

/-- A block of one repeated byte. -/
def block (n : Nat) (b : UInt8) : ByteBlock n := List.Vector.replicate n b

def keys (b : UInt8) : HybridKeyPair :=
  hybridKeypair Primitives.transparent ⟨block 32 b, block 64 b⟩

/-- The draws of a seal whose fresh epoch secret repeats `b`. -/
def draws (b : UInt8) : SealDraws Int where
  rekeyClock := 0
  startClock := 0
  epochSecret := block 32 b
  wrap := ⟨⟨block 32 b, block 32 b⟩, block 12 b⟩
  frameNonce := block 12 b

/-- The frame a session seals to the keys of byte `peer`, or a blank one. -/
def frameWith (s : DmSession Int) (plaintext : Bytes) (peer : UInt8) (draws : SealDraws Int) :
    SealedDmFrame :=
  match ((DmSession.seal Primitives.transparent plaintext (keys peer).publicKey draws).run s).1 with
  | .ok f => f
  | _ => { epoch := 0, index := 0, nonce := [], body := [], kam := none }

/-- The frame of a seal with the draws of byte `b`. -/
def frame (s : DmSession Int) (plaintext : Bytes) (peer b : UInt8) : SealedDmFrame :=
  frameWith s plaintext peer (draws b)

end Sample

end DmSession
end SkPqc
