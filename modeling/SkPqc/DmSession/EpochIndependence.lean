import SkPqc.DmSession.Schedule

/-!
# What one epoch says about the others

Each epoch draws a secret of its own, and rekeying looks at the counter and the
clock alone.  So the epochs of a hidden set can be run with other secrets, other
wraps, other nonces and other plaintexts, and the network can inject other frames
for them: everything the sessions hold and send for the remaining epochs, earlier
and later ones alike, stays the same.

Main results:

- Theorems `SameOutside.rekey` and `SameOutside.afterOpen`: one call keeps two
  sessions equal outside the hidden epochs.
- Theorem `epochs_independent`: so does a schedule, and the frames of the other
  epochs are equal and open alike.
-/

namespace SkPqc
namespace DmSession

open Rust Kem Ratchet

variable {φ : Type}

/-! ## Sessions that agree outside the hidden epochs -/

section Sessions

/-- The sessions differ at most in what belongs to hidden epochs. -/
structure SameOutside (hidden : UInt64 → Prop) (s s' : DmSession φ) : Prop where
  peer : s'.peer = s.peer
  rekeyMsgBound : s'.rekeyMsgBound = s.rekeyMsgBound
  rekeyAgeSeconds : s'.rekeyAgeSeconds = s.rekeyAgeSeconds
  /-- One position of the ratchet, and one secret and KAM unless it is hidden. -/
  ratchet : (s.ratchet = none ∧ s'.ratchet = none) ∨
    ∃ r secret, s.ratchet = some r ∧ s'.ratchet = some { r with epochSecret := secret } ∧
      (¬ hidden r.epoch → secret = r.epochSecret ∧ s'.currentKam = s.currentKam)
  stored : ∀ e, ¬ hidden e → s'.epochSecrets[e]? = s.epochSecrets[e]?

variable {hidden : UInt64 → Prop} {s s' : DmSession φ}

theorem SameOutside.refl (hidden : UInt64 → Prop) (s : DmSession φ) : SameOutside hidden s s := by
  constructor
  case peer => rfl
  case rekeyMsgBound => rfl
  case rekeyAgeSeconds => rfl
  case ratchet =>
    cases hr : s.ratchet with
    | none => exact .inl ⟨rfl, rfl⟩
    | some r => exact .inr ⟨r, r.epochSecret, rfl, rfl, fun _ => ⟨rfl, rfl⟩⟩
  case stored => exact fun _ _ => rfl

/-- A fresh epoch replaces the ratchet; it is the same on both sides unless it is
hidden. -/
theorem SameOutside.begun (h : SameOutside hidden s s') {epoch : UInt64}
    {draws draws' : SealDraws φ} {kam kam' : Bytes} (hclock : draws'.startClock = draws.startClock)
    (hout : ¬ hidden epoch → draws'.epochSecret = draws.epochSecret ∧ kam' = kam) :
    SameOutside hidden (s.begun epoch draws kam) (s'.begun epoch draws' kam') where
  peer := h.peer
  rekeyMsgBound := h.rekeyMsgBound
  rekeyAgeSeconds := h.rekeyAgeSeconds
  ratchet := by
    refine .inr ⟨_, draws'.epochSecret, rfl, ?_, ?_⟩
    · simp only [DmSession.begun, DmRatchet.withBounds, h.rekeyMsgBound, h.rekeyAgeSeconds, hclock]
    · intro hepoch
      rcases hout hepoch with ⟨hsecret, hkam⟩
      exact ⟨hsecret, congrArg some hkam⟩
  stored := by
    intro e he
    rw [getElem?_begun, getElem?_begun]
    by_cases heq : e = epoch
    · rw [if_pos heq, if_pos heq, (hout (heq ▸ he)).1]
    · rw [if_neg heq, if_neg heq, h.stored e he]

theorem SameOutside.symm (h : SameOutside hidden s s') : SameOutside hidden s' s where
  peer := h.peer.symm
  rekeyMsgBound := h.rekeyMsgBound.symm
  rekeyAgeSeconds := h.rekeyAgeSeconds.symm
  ratchet := by
    rcases h.ratchet with ⟨hr, hr'⟩ | ⟨r, secret, hr, hr', hout⟩
    · exact .inl ⟨hr', hr⟩
    · refine .inr ⟨_, r.epochSecret, hr', hr, ?_⟩
      intro hepoch
      rcases hout hepoch with ⟨hsecret, hkam⟩
      exact ⟨hsecret.symm, hkam.symm⟩
  stored := fun e he => (h.stored e he).symm

/-- What one side learns of a hidden epoch stays in that epoch. -/
theorem SameOutside.learned_of_hidden (h : SameOutside hidden s s') {epoch : UInt64}
    (hepoch : hidden epoch) (secret : ByteBlock epochSecretLen) :
    SameOutside hidden (s.learned epoch secret) s' where
  peer := h.peer
  rekeyMsgBound := h.rekeyMsgBound
  rekeyAgeSeconds := h.rekeyAgeSeconds
  ratchet := h.ratchet
  stored := by
    intro e he
    have hne : e ≠ epoch := fun heq => he (heq ▸ hepoch)
    rw [getElem?_learned, if_neg hne, h.stored e he]

/-- What both sides learn is the same. -/
theorem SameOutside.learned (h : SameOutside hidden s s') (epoch : UInt64)
    (secret : ByteBlock epochSecretLen) :
    SameOutside hidden (s.learned epoch secret) (s'.learned epoch secret) where
  peer := h.peer
  rekeyMsgBound := h.rekeyMsgBound
  rekeyAgeSeconds := h.rekeyAgeSeconds
  ratchet := h.ratchet
  stored := by
    intro e he
    rw [getElem?_learned, getElem?_learned, h.stored e he]

end Sessions

/-! ## Opening -/

section Opening

variable {hidden : UInt64 → Prop} {s s' : DmSession φ} {P : Primitives}

theorem afterOpen_cases (P : Primitives) (s : DmSession φ) (epoch : UInt64) (kam : Option Bytes)
    (myHybridPriv : Bytes) :
    s.afterOpen P epoch kam myHybridPriv = s ∨
      ∃ secret, s.afterOpen P epoch kam myHybridPriv = s.learned epoch secret := by
  unfold afterOpen
  split
  · split
    · exact .inr ⟨_, rfl⟩
    · exact .inl rfl
  · exact .inl rfl

/-- Opening a frame of a hidden epoch changes nothing outside. -/
theorem SameOutside.afterOpen_left (h : SameOutside hidden s s') {epoch : UInt64}
    (hepoch : hidden epoch) (kam : Option Bytes) (myHybridPriv : Bytes) :
    SameOutside hidden (s.afterOpen P epoch kam myHybridPriv) s' := by
  rcases afterOpen_cases P s epoch kam myHybridPriv with heq | ⟨secret, heq⟩
  · rwa [heq]
  · rw [heq]
    exact h.learned_of_hidden hepoch secret

/-- An open keeps the sessions equal outside the hidden epochs. -/
theorem SameOutside.afterOpen (h : SameOutside hidden s s') {epoch : UInt64}
    {kam kam' : Option Bytes} (hout : ¬ hidden epoch → kam' = kam) (myHybridPriv : Bytes) :
    SameOutside hidden (s.afterOpen P epoch kam myHybridPriv)
      (s'.afterOpen P epoch kam' myHybridPriv) := by
  by_cases hepoch : hidden epoch
  · have hleft : SameOutside hidden (s.afterOpen P epoch kam myHybridPriv) s' :=
      h.afterOpen_left hepoch kam myHybridPriv
    exact (hleft.symm.afterOpen_left hepoch kam' myHybridPriv).symm
  · have hstored := h.stored epoch hepoch
    rw [hout hepoch]
    simp only [DmSession.afterOpen, hstored]
    split
    · split
      · exact h.learned _ _
      · exact h
    · exact h

/-- What an open returns, in terms of the secret that is stored for the epoch. -/
def openReply (P : Primitives) (stored : Option (ByteBlock epochSecretLen))
    (frame : SealedDmFrame) (myHybridPriv : Bytes) : Outcome DmSessionError Bytes :=
  match stored, frame.kam with
  | some secret, _ => openBody P secret frame
  | none, none => .err (.missingEpochSecret frame.epoch)
  | none, some kam =>
      (unwrapDmEpochSecret P kam myHybridPriv).mapErr .ratchet >>= fun secret =>
        openBody P secret frame

theorem open_reply_eq (s : DmSession φ) (frame : SealedDmFrame) (myHybridPriv : Bytes) :
    ((DmSession.open P frame myHybridPriv).run s).1 =
      openReply P s.epochSecrets[frame.epoch]? frame myHybridPriv := by
  have hstep := open_step P s frame myHybridPriv
  generalize (DmSession.open P frame myHybridPriv).run s = res at hstep ⊢
  cases hstep with
  | known hstored => simp [openReply, hstored]
  | learned hvacant hkam hunwrap => simp [openReply, hvacant, hkam, hunwrap]
  | refused hvacant hkam hunwrap => simp [openReply, hvacant, hkam, hunwrap]
  | missing hvacant hkam => simp [openReply, hvacant, hkam]

/-- A frame of another epoch opens alike on both sides. -/
theorem SameOutside.open_eq (h : SameOutside hidden s s') {frame : SealedDmFrame}
    (hepoch : ¬ hidden frame.epoch) (myHybridPriv : Bytes) :
    ((DmSession.open P frame myHybridPriv).run s').1 =
      ((DmSession.open P frame myHybridPriv).run s).1 := by
  rw [open_reply_eq, open_reply_eq, h.stored frame.epoch hepoch]

end Opening

/-! ## Sealing -/

section Sealing

variable [F64 φ] {hidden : UInt64 → Prop} {s s' : DmSession φ} {P : Primitives}

/-- The epoch of the next frame: the one that is due, or that of the ratchet. -/
def sealEpoch (s : DmSession φ) (clock : φ) : UInt64 :=
  match s.ratchet with
  | none => 0
  | some r => if r.shouldRekey none clock then r.epoch + 1 else r.epoch

theorem sealEpoch_of_due {clock : φ} {epoch : UInt64} (hdue : s.beginAt clock = some epoch) :
    s.sealEpoch clock = epoch := by
  rcases beginAt_eq_some_iff.mp hdue with ⟨hratchet, rfl⟩ | ⟨r, hratchet, hrekey, rfl⟩
  · simp [sealEpoch, hratchet]
  · simp [sealEpoch, hratchet, hrekey]

/-- What is due depends on the position of the ratchet and on the clock. -/
theorem SameOutside.beginAt_eq (h : SameOutside hidden s s') (clock : φ) :
    s'.beginAt clock = s.beginAt clock := by
  rcases h.ratchet with ⟨hr, hr'⟩ | ⟨r, secret, hr, hr', -⟩
  · simp [DmSession.beginAt, hr, hr']
  · simp only [DmSession.beginAt, hr, hr']
    rfl

/-- The draws of two seals that read the same clocks, and are the same unless the
epoch they seal in is hidden. -/
structure SameDraws (hidden : UInt64 → Prop) (epoch : UInt64) (draws draws' : SealDraws φ) :
    Prop where
  rekeyClock : draws'.rekeyClock = draws.rekeyClock
  startClock : draws'.startClock = draws.startClock
  visible : ¬ hidden epoch → draws' = draws

/-- Both sessions rekey, for the epoch they seal in. -/
theorem SameOutside.rekey (h : SameOutside hidden s s') (total : P.MlkemTotal)
    (aead : P.AeadLaws) (keys : KeypairDraws) {draws draws' : SealDraws φ}
    (hdraws : SameDraws hidden (s.sealEpoch draws.rekeyClock) draws draws') :
    ∃ s₁ s₁' r,
      (rekeyIfDue P (hybridKeypair P keys).publicKey draws).run s = (.ok (), s₁) ∧
      (rekeyIfDue P (hybridKeypair P keys).publicKey draws').run s' = (.ok (), s₁') ∧
      SameOutside hidden s₁ s₁' ∧ s₁.ratchet = some r ∧ r.epoch = s.sealEpoch draws.rekeyClock := by
  have hdue' : s'.beginAt draws'.rekeyClock = s.beginAt draws.rekeyClock := by
    rw [hdraws.rekeyClock, h.beginAt_eq]
  cases hdue : s.beginAt draws.rekeyClock with
  | none =>
      rw [hdue] at hdue'
      rcases beginAt_eq_none_iff.mp hdue with ⟨r, hratchet, hfresh⟩
      refine ⟨s, s', r, rekeyIfDue_of_none hdue _, rekeyIfDue_of_none hdue' _, h, hratchet, ?_⟩
      simp [sealEpoch, hratchet, hfresh]
  | some epoch =>
      rw [hdue] at hdue'
      rcases exists_wrap_eq_ok total aead keys draws.epochSecret draws.wrap with ⟨kam, hwrap⟩
      rcases exists_wrap_eq_ok total aead keys draws'.epochSecret draws'.wrap with ⟨kam', hwrap'⟩
      have hepoch := sealEpoch_of_due hdue
      have hout : ¬ hidden epoch → draws'.epochSecret = draws.epochSecret ∧ kam' = kam := by
        intro hvisible
        have hsame := hdraws.visible (hepoch ▸ hvisible)
        rw [hsame, hwrap, Outcome.ok.injEq] at hwrap'
        exact ⟨congrArg SealDraws.epochSecret hsame, hwrap'.symm⟩
      refine ⟨_, _, _, rekeyIfDue_of_some hdue hwrap, rekeyIfDue_of_some hdue' hwrap',
        h.begun hdraws.startClock hout, rfl, ?_⟩
      rw [hepoch]
      rfl

omit [F64 φ] in
/-- Advancing two ratchets at one position leaves them at one position. -/
theorem SameOutside.advance (h : SameOutside hidden s s') {r r' : DmRatchet φ}
    (hratchet : s.ratchet = some r) (hratchet' : s'.ratchet = some r') :
    SameOutside hidden (s.advance r) (s'.advance r') where
  peer := h.peer
  rekeyMsgBound := h.rekeyMsgBound
  rekeyAgeSeconds := h.rekeyAgeSeconds
  ratchet := by
    rcases h.ratchet with ⟨hnone, -⟩ | ⟨r₁, secret, hr, hr', hout⟩
    · rw [hratchet] at hnone
      cases hnone
    · rw [hratchet, Option.some.injEq] at hr
      rw [hratchet', Option.some.injEq] at hr'
      subst hr hr'
      exact .inr ⟨_, secret, rfl, rfl, hout⟩
  stored := h.stored

/-- What a seal logs after its rekey. -/
theorem logged_of_rekey {s s₁ : DmSession φ} {r : DmRatchet φ} {peerHybridPub : Bytes}
    {draws : SealDraws φ} (hrekey : (rekeyIfDue P peerHybridPub draws).run s = (.ok (), s₁))
    (hratchet : s₁.ratchet = some r) (plaintext : Bytes) :
    logged P s plaintext peerHybridPub draws =
      match sealBody P s₁ r plaintext draws with
      | .ok frame => [⟨frame, plaintext, some (nextKey P r)⟩]
      | _ => [] := by
  have hseal := seal_of_rekey hrekey hratchet plaintext
  have hkey := sealingKey_eq hrekey hratchet
  cases hbody : sealBody P s₁ r plaintext draws with
  | ok frame => simp [logged, hseal, hkey, hbody]
  | err e => simp [logged, hseal, hbody]
  | panic => simp [logged, hseal, hbody]

/-- Two logged frames of one epoch, which are the same unless it is hidden. -/
structure SameSealed (hidden : UInt64 → Prop) (m m' : Sealed) : Prop where
  epoch : m'.frame.epoch = m.frame.epoch
  visible : ¬ hidden m.frame.epoch → m' = m

/-- A seal keeps the sessions equal outside the hidden epochs, and so are the
frames it logs. -/
theorem SameOutside.seal (h : SameOutside hidden s s') (total : P.MlkemTotal)
    (aead : P.AeadLaws) (keys : KeypairDraws) {draws draws' : SealDraws φ}
    (hdraws : SameDraws hidden (s.sealEpoch draws.rekeyClock) draws draws')
    {plaintext plaintext' : Bytes}
    (hvisible : ¬ hidden (s.sealEpoch draws.rekeyClock) → plaintext' = plaintext)
    (hlength : hidden (s.sealEpoch draws.rekeyClock) →
      plaintext.length ≤ aesGcmMax ∧ plaintext'.length ≤ aesGcmMax) :
    SameOutside hidden
        ((DmSession.seal P plaintext (hybridKeypair P keys).publicKey draws).run s).2
        ((DmSession.seal P plaintext' (hybridKeypair P keys).publicKey draws').run s').2 ∧
      List.Forall₂ (SameSealed hidden)
        (logged P s plaintext (hybridKeypair P keys).publicKey draws)
        (logged P s' plaintext' (hybridKeypair P keys).publicKey draws') := by
  rcases h.rekey total aead keys hdraws with ⟨s₁, s₁', r, hrekey, hrekey', h₁, hratchet, hepoch⟩
  rcases h₁.ratchet with ⟨hnone, -⟩ | ⟨r₁, secret, hr, hratchet', hout⟩
  · rw [hratchet] at hnone
    cases hnone
  rw [hratchet, Option.some.injEq] at hr
  subst hr
  rw [seal_of_rekey hrekey hratchet, seal_of_rekey hrekey' hratchet',
    logged_of_rekey hrekey hratchet, logged_of_rekey hrekey' hratchet']
  refine ⟨h₁.advance hratchet hratchet', ?_⟩
  by_cases hhidden : hidden r.epoch
  · rcases hlength (hepoch ▸ hhidden) with ⟨hmax, hmax'⟩
    rcases exists_sealBody_eq_ok aead s₁ r draws hmax with ⟨frame, hframe⟩
    rcases exists_sealBody_eq_ok aead s₁' { r with epochSecret := secret } draws' hmax' with
      ⟨frame', hframe'⟩
    rw [hframe, hframe']
    rcases (sealBody_eq_ok_iff P).mp hframe with ⟨body, -, rfl⟩
    rcases (sealBody_eq_ok_iff P).mp hframe' with ⟨body', -, rfl⟩
    exact .cons ⟨rfl, fun hvisible => absurd hhidden hvisible⟩ .nil
  · rcases hout hhidden with ⟨rfl, hkam⟩
    have hbody : sealBody P s₁' r plaintext draws = sealBody P s₁ r plaintext draws := by
      simp only [sealBody, hkam]
    rw [hepoch] at hhidden
    rw [hvisible hhidden, hdraws.visible hhidden, hbody]
    exact List.forall₂_same.mpr fun m _ => ⟨rfl, fun _ => rfl⟩

end Sealing

/-! ## Two sessions and a schedule -/

section Schedules

variable [F64 φ] {hidden : UInt64 → Prop} {P : Primitives} {keys : Party → KeypairDraws}

/-- The links differ at most in what belongs to hidden epochs. -/
structure Link.SameOutside (hidden : UInt64 → Prop) (L L' : Link φ) : Prop where
  session : ∀ p, (L.session p).SameOutside hidden (L'.session p)
  sealed : ∀ p, List.Forall₂ (SameSealed hidden) (L.sealed p) (L'.sealed p)

/-- Moves that differ at most where they belong to a hidden epoch: in what a seal
draws and encrypts, and in the frames that the network injects. -/
inductive SameMove (hidden : UInt64 → Prop) (L : Link φ) : Move φ → Move φ → Prop where
  | seal (p : Party) {plaintext plaintext' : Bytes} {draws draws' : SealDraws φ}
      (hdraws : SameDraws hidden ((L.session p).sealEpoch draws.rekeyClock) draws draws')
      (hvisible : ¬ hidden ((L.session p).sealEpoch draws.rekeyClock) → plaintext' = plaintext)
      (hlength : hidden ((L.session p).sealEpoch draws.rekeyClock) →
        plaintext.length ≤ aesGcmMax ∧ plaintext'.length ≤ aesGcmMax) :
      SameMove hidden L (.seal p plaintext draws) (.seal p plaintext' draws')
  | relay (p : Party) (position : Nat) : SameMove hidden L (.relay p position) (.relay p position)
  | inject (p : Party) {frame frame' : SealedDmFrame} (hepoch : frame'.epoch = frame.epoch)
      (hvisible : ¬ hidden frame.epoch → frame' = frame) :
      SameMove hidden L (.inject p frame) (.inject p frame')

/-- Schedules of such moves, along the run of the first one. -/
inductive SameMoves (P : Primitives) (keys : Party → KeypairDraws) (hidden : UInt64 → Prop) :
    Link φ → List (Move φ) → List (Move φ) → Prop where
  | nil (L : Link φ) : SameMoves P keys hidden L [] []
  | cons {L : Link φ} {m m' : Move φ} {moves moves' : List (Move φ)}
      (hmove : SameMove hidden L m m')
      (hrest : SameMoves P keys hidden (L.move P keys m) moves moves') :
      SameMoves P keys hidden L (m :: moves) (m' :: moves')

omit [F64 φ] in
theorem Link.SameOutside.refl (hidden : UInt64 → Prop) (L : Link φ) :
    L.SameOutside hidden L where
  session := fun p => DmSession.SameOutside.refl hidden (L.session p)
  sealed := fun _ => List.forall₂_same.mpr fun _ _ => ⟨rfl, fun _ => rfl⟩

/-- Handing a party two frames of one epoch, the same unless it is hidden. -/
theorem Link.SameOutside.deliver {L L' : Link φ} (h : L.SameOutside hidden L') (p : Party)
    {frame frame' : SealedDmFrame} (hepoch : frame'.epoch = frame.epoch)
    (hvisible : ¬ hidden frame.epoch → frame' = frame) :
    (L.next P keys (.deliver p frame)).SameOutside hidden
      (L'.next P keys (.deliver p frame')) where
  session := by
    intro q
    rcases p.eq_or_eq_peer q with rfl | rfl
    · have hkam : ¬ hidden frame.epoch → frame'.kam = frame.kam :=
        fun hout => congrArg SealedDmFrame.kam (hvisible hout)
      simp only [Link.next, Function.update_self, open_state_eq, hepoch]
      exact (h.session _).afterOpen hkam _
    · simp only [Link.next, Function.update_of_ne p.peer_ne]
      exact h.session _
  sealed := h.sealed

/-- One move keeps the links equal outside the hidden epochs. -/
theorem Link.SameOutside.move (total : P.MlkemTotal) (aead : P.AeadLaws) {L L' : Link φ}
    (h : L.SameOutside hidden L') {m m' : Move φ} (hmove : SameMove hidden L m m') :
    (L.move P keys m).SameOutside hidden (L'.move P keys m') := by
  cases hmove with
  | «seal» p hdraws hvisible hlength =>
      have hsealed := (h.session p).seal total aead (keys p.peer) hdraws hvisible hlength
      constructor
      · intro q
        rcases p.eq_or_eq_peer q with rfl | rfl
        · simp only [Link.move, Link.next, Function.update_self]
          exact hsealed.1
        · simp only [Link.move, Link.next, Function.update_of_ne p.peer_ne]
          exact h.session _
      · intro q
        rcases p.eq_or_eq_peer q with rfl | rfl
        · simp only [Link.move, Link.next, Function.update_self]
          exact List.rel_append hsealed.2 (h.sealed _)
        · simp only [Link.move, Link.next, Function.update_of_ne p.peer_ne]
          exact h.sealed _
  | relay p position =>
      have hlogs := h.sealed p.peer
      by_cases hposition : position < (L.sealed p.peer).length
      · have hposition' := hposition
        rw [hlogs.length_eq] at hposition'
        have hsame := hlogs.get hposition hposition'
        have hvisible : ¬ hidden (L.sealed p.peer)[position].frame.epoch →
            (L'.sealed p.peer)[position].frame = (L.sealed p.peer)[position].frame :=
          fun hout => congrArg Sealed.frame (hsame.visible hout)
        simp only [Link.move, List.getElem?_eq_getElem hposition,
          List.getElem?_eq_getElem hposition']
        exact h.deliver p hsame.epoch hvisible
      · have hposition' := hposition
        rw [hlogs.length_eq] at hposition'
        simp only [Link.move, List.getElem?_eq_none (Nat.not_lt.mp hposition),
          List.getElem?_eq_none (Nat.not_lt.mp hposition')]
        exact h
  | inject p hepoch hvisible => exact h.deliver p hepoch hvisible

/-- Over any schedule, what the parties draw and write in the epochs of a hidden
set, and what the network injects for them, influences nothing else: the sessions
stay at the same positions and hold the same secrets of all other epochs, the
frames of these epochs are the same byte for byte, and they open alike. -/
theorem epochs_independent (total : P.MlkemTotal) (aead : P.AeadLaws) {L : Link φ}
    {moves moves' : List (Move φ)} (h : SameMoves P keys hidden L moves moves') :
    (L.follow P keys moves).SameOutside hidden (L.follow P keys moves') ∧
      ∀ p frame, ¬ hidden frame.epoch →
        ((DmSession.open P frame (privateKey P keys p)).run
            ((L.follow P keys moves').session p)).1 =
          ((DmSession.open P frame (privateKey P keys p)).run
            ((L.follow P keys moves).session p)).1 := by
  have hlinks : ∀ L' : Link φ, L.SameOutside hidden L' →
      (L.follow P keys moves).SameOutside hidden (L'.follow P keys moves') := by
    induction h with
    | nil L => exact fun L' hL' => hL'
    | cons hmove _ ih =>
        intro L' hL'
        exact ih _ (hL'.move total aead hmove)
  have hsame := hlinks L (Link.SameOutside.refl hidden L)
  refine ⟨hsame, ?_⟩
  intro p frame hepoch
  exact (hsame.session p).open_eq hepoch _

end Schedules

/-- Two fresh sessions that rekey for every message. -/
def Sample.brisk : Link Int where
  session _ := withBounds "peer" 1 600
  sealed _ := []
  delivered _ := []

/-- Epoch 0 with another secret and another message leaves the frame of epoch 1 as
it is. -/
theorem epochs_independent_sample :
    let L := Sample.brisk.follow Primitives.transparent Sample.linkKeys
      [.seal .a [104, 105] (Sample.draws 7), .seal .a [121, 111] (Sample.draws 8)]
    let L' := Sample.brisk.follow Primitives.transparent Sample.linkKeys
      [.seal .a [110, 111] (Sample.draws 9), .seal .a [121, 111] (Sample.draws 8)]
    L.SameOutside (fun e => e = 0) L' ∧
      (L.sealed .a).map (fun m => m.frame.epoch) = [1, 0] ∧
      (L.sealed .a).map Sealed.frame ≠ (L'.sealed .a).map Sealed.frame := by
  intro L L'
  have total : Primitives.transparent.MlkemTotal := ⟨fun _ _ => rfl, fun _ _ => rfl⟩
  have hlength : ∀ b c : UInt8, [b, c].length ≤ aesGcmMax := by
    intro b c
    simp [aesGcmMax]
  refine ⟨(epochs_independent total (Primitives.tagged_aeadLaws _)
    (.cons ?_ (.cons ?_ (.nil _)))).1,
    by decide +kernel, by decide +kernel⟩
  · refine .seal .a ⟨rfl, rfl, fun hvisible => absurd rfl hvisible⟩
      (fun hvisible => absurd rfl hvisible) ?_
    exact fun _ => ⟨hlength _ _, hlength _ _⟩
  · exact .seal .a ⟨rfl, rfl, fun _ => rfl⟩ (fun _ => rfl) fun _ => ⟨hlength _ _, hlength _ _⟩

end DmSession
end SkPqc
