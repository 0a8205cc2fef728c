import SkPqc.DmSession.Model
import SkPqc.Foundations.RoundCounter
import SkPqc.Foundations.StateMachine

/-!
# The epoch lifecycle

A journal records the frames a session has sealed while its owner seals and
opens in any order.  The invariant ties the last recorded frame to the position
of the ratchet; the slots of the frames are then a counter in rounds.

Main results:

- Theorem `Journal.inv`: the invariant holds in every reachable journal.
- Theorem `slots_never_reused`: slots start at `(0, 0)`, follow each other, fit
  the message bound, carry the KAM on their first frames, and the index never
  overflows.
-/

namespace SkPqc
namespace DmSession

open Rust Kem Ratchet RoundCounter

variable {φ : Type} [F64 φ] (P : Primitives)

/-- The slot of a frame: epoch and index. -/
def SealedDmFrame.slot (frame : SealedDmFrame) : Nat × Nat :=
  (frame.epoch.toNat, frame.index.toNat)

/-- The frame that a reply carries. -/
def Reply.frame? : Reply → Option SealedDmFrame
  | .sealed (.ok frame) => some frame
  | _ => none

/-- A session and the frames it has sealed, oldest first. -/
structure Journal (φ : Type) where
  session : DmSession φ
  frames : List SealedDmFrame

/-- A rekey, where one is due, has a next epoch number. -/
def EpochFits (s : DmSession φ) (draws : SealDraws φ) : Prop :=
  ∀ r, s.ratchet = some r → r.shouldRekey none draws.rekeyClock = true →
    r.epoch.toNat + 1 < 2 ^ 64

instance (s : DmSession φ) (draws : SealDraws φ) : Decidable (EpochFits s draws) :=
  inferInstanceAs (Decidable (∀ r ∈ s.ratchet, r.shouldRekey none draws.rekeyClock = true →
    r.epoch.toNat + 1 < 2 ^ 64))

/-- The next epoch number does not wrap. -/
theorem EpochFits.toNat_succ {s : DmSession φ} {draws : SealDraws φ} {r : DmRatchet φ}
    (h : EpochFits s draws) (hratchet : s.ratchet = some r)
    (hshould : r.shouldRekey none draws.rekeyClock = true) :
    (r.epoch + 1).toNat = r.epoch.toNat + 1 := by
  rw [UInt64.toNat_add, UInt64.toNat_one]
  exact Nat.mod_eq_of_lt (h r hratchet hshould)

/-- The calls a journal accepts: plaintexts within the AES-GCM limit, epoch
numbers within 64 bits, and any frame at all. -/
def Journal.Accepts (J : Journal φ) : Call φ → Prop
  | .seal plaintext _ draws => plaintext.length ≤ aesGcmMax ∧ EpochFits J.session draws
  | .open _ _ => True

def Journal.next (J : Journal φ) (c : Call φ) : Journal φ where
  session := (J.session.call P c).2
  frames := J.frames ++ (J.session.call P c).1.frame?.toList

/-- The runs of a session that starts with the given bounds. -/
def journal (φ : Type) [F64 φ] (rekeyMsgBound rekeyAgeSeconds : UInt64) :
    StateMachine (Journal φ) (Call φ) where
  init J := ∃ peer, J = ⟨withBounds peer rekeyMsgBound rekeyAgeSeconds, []⟩
  accepts := Journal.Accepts
  next := Journal.next P

/-! ## The invariant -/

/-- The invariant of a journal: the ratchet stands right after the last frame. -/
structure Journal.Inv (rekeyMsgBound : UInt64) (J : Journal φ) : Prop where
  bound : J.session.rekeyMsgBound = rekeyMsgBound
  fresh : J.session.ratchet = none → J.frames = []
  current : ∀ r, J.session.ratchet = some r →
    r.rekeyMsgBound = rekeyMsgBound ∧ J.session.currentKam.isSome ∧
      ∃ f, J.frames.getLast? = some f ∧ f.epoch = r.epoch ∧
        f.index.toNat + 1 = r.messageIndex.toNat
  first : ∀ f, J.frames.head? = some f → f.slot = (0, 0)
  next : (J.frames.map SealedDmFrame.slot).IsChain Next
  index : ∀ f ∈ J.frames, f.index.toNat < max 1 rekeyMsgBound.toNat
  kam : ∀ f ∈ J.frames, f.kam.isSome ↔ f.index < kamRepeat

/-- What the rekey leaves for the next frame: a ratchet within its bound, whose
slot follows the recorded frames. -/
structure Ready (rekeyMsgBound : UInt64) (frames : List SealedDmFrame) (s : DmSession φ)
    (r : DmRatchet φ) : Prop where
  bound : s.rekeyMsgBound = rekeyMsgBound ∧ r.rekeyMsgBound = rekeyMsgBound
  kam : s.currentKam.isSome
  index : r.messageIndex.toNat < max 1 rekeyMsgBound.toNat
  first : frames = [] → r.epoch = 0 ∧ r.messageIndex = 0
  next : ∀ f, frames.getLast? = some f → Next f.slot (r.epoch.toNat, r.messageIndex.toNat)

omit [F64 φ] in
/-- Within its bound the message index does not overflow. -/
theorem Ready.messageIndex_succ_lt {rekeyMsgBound : UInt64} {frames : List SealedDmFrame}
    {s : DmSession φ} {r : DmRatchet φ} (h : Ready rekeyMsgBound frames s r) :
    r.messageIndex.toNat + 1 < 2 ^ 64 := by
  have hindex := h.index
  have hbound := rekeyMsgBound.toNat_lt
  omega

/-- A ratchet that need not rekey is ready for the next frame. -/
theorem Journal.Inv.ready_of_current {rekeyMsgBound : UInt64} {J : Journal φ} {clock : φ}
    {r : DmRatchet φ} (hinv : J.Inv rekeyMsgBound) (hratchet : J.session.ratchet = some r)
    (hfresh : r.shouldRekey none clock = false) :
    Ready rekeyMsgBound J.frames J.session r := by
  rcases hinv.current r hratchet with ⟨hbound, hkam, f, hlast, hepoch, hindex⟩
  have hlt : r.messageIndex < r.rekeyMsgBound :=
    DmRatchet.messageIndex_lt_of_shouldRekey_eq_false hfresh
  constructor
  case bound => exact ⟨hinv.bound, hbound⟩
  case kam => exact hkam
  case index =>
    rw [hbound, UInt64.lt_iff_toNat_lt] at hlt
    omega
  case first =>
    intro hnil
    simp [hnil] at hlast
  case next =>
    intro g hg
    rw [hlast] at hg
    cases hg
    left
    exact ⟨congrArg UInt64.toNat hepoch.symm, hindex.symm⟩

/-- So is the ratchet of a fresh epoch: the first one after no frames, a later
one after the frames of the epoch before it. -/
theorem Journal.Inv.ready_of_begun {rekeyMsgBound : UInt64} {J : Journal φ}
    {draws : SealDraws φ} {epoch : UInt64} {kam : Bytes} {r : DmRatchet φ}
    (hinv : J.Inv rekeyMsgBound) (hfits : EpochFits J.session draws)
    (hdue : J.session.beginAt draws.rekeyClock = some epoch)
    (hratchet : (J.session.begun epoch draws kam).ratchet = some r) :
    Ready rekeyMsgBound J.frames (J.session.begun epoch draws kam) r := by
  have hprev := beginAt_eq_some_iff.mp hdue
  cases hratchet
  constructor
  case bound => exact ⟨hinv.bound, hinv.bound⟩
  case kam => rfl
  case index => simp [DmRatchet.withBounds]
  case first =>
    intro hnil
    rcases hprev with ⟨_, hepoch⟩ | ⟨r₀, hr₀, _, _⟩
    · exact ⟨hepoch, rfl⟩
    · rcases hinv.current r₀ hr₀ with ⟨_, _, f, hlast, _⟩
      simp [hnil] at hlast
  case next =>
    intro f hf
    rcases hprev with ⟨hnone, _⟩ | ⟨r₀, hr₀, hshould, hepoch⟩
    · rw [hinv.fresh hnone] at hf
      cases hf
    · rcases hinv.current r₀ hr₀ with ⟨_, _, g, hlast, hg, _⟩
      rw [hlast] at hf
      cases hf
      right
      constructor
      · change epoch.toNat = f.epoch.toNat + 1
        rw [hepoch, hg]
        exact hfits.toNat_succ hr₀ hshould
      · rfl

/-- A rekey that returns leaves a ratchet ready for the next frame. -/
theorem Journal.Inv.ready {rekeyMsgBound : UInt64} {J : Journal φ} {peerHybridPub : Bytes}
    {draws : SealDraws φ} {s₁ : DmSession φ} {r : DmRatchet φ} (hinv : J.Inv rekeyMsgBound)
    (hfits : EpochFits J.session draws)
    (hrekey : (rekeyIfDue P peerHybridPub draws).run J.session = (.ok (), s₁))
    (hratchet : s₁.ratchet = some r) : Ready rekeyMsgBound J.frames s₁ r := by
  cases rekeyStep_of_ok hrekey with
  | current hsome hfresh =>
      rw [hratchet] at hsome
      cases hsome
      exact hinv.ready_of_current hratchet hfresh
  | began hdue _ => exact hinv.ready_of_begun hfits hdue hratchet

omit [F64 φ] in
/-- Sealing on a ready ratchet extends the journal. -/
theorem Journal.Inv.push {rekeyMsgBound : UInt64} {J : Journal φ} {s₁ : DmSession φ}
    {r : DmRatchet φ} {plaintext : Bytes} {draws : SealDraws φ} {frame : SealedDmFrame}
    (hinv : J.Inv rekeyMsgBound) (hready : Ready rekeyMsgBound J.frames s₁ r)
    (hframe : sealBody P s₁ r plaintext draws = .ok frame) :
    Journal.Inv rekeyMsgBound ⟨s₁.advance r, J.frames ++ [frame]⟩ := by
  rcases (sealBody_eq_ok_iff P).mp hframe with ⟨body, _, rfl⟩
  constructor
  case bound => exact hready.bound.1
  case fresh => intro h; cases h
  case current =>
    intro r' hr'
    cases hr'
    have hsucc := hready.messageIndex_succ_lt
    refine ⟨hready.bound.2, hready.kam, _, List.getLast?_concat, rfl, ?_⟩
    rw [UInt64.toNat_add, UInt64.toNat_one]
    exact (Nat.mod_eq_of_lt hsucc).symm
  case first =>
    intro f hf
    cases hnil : J.frames with
    | nil =>
        simp only [hnil, List.nil_append, List.head?_cons, Option.some.injEq] at hf
        have hslot := hready.first hnil
        simp [← hf, SealedDmFrame.slot, hslot]
    | cons g gs =>
        simp only [hnil, List.cons_append, List.head?_cons, Option.some.injEq] at hf
        exact hinv.first f (by simp [hnil, hf])
  case next =>
    rw [List.map_append]
    refine hinv.next.append (List.IsChain.singleton _) ?_
    intro a ha b hb
    simp only [List.getLast?_map, Option.mem_def, Option.map_eq_some_iff] at ha
    rcases ha with ⟨f, hlast, rfl⟩
    simp only [List.map_cons, List.map_nil, List.head?_cons, Option.mem_def,
      Option.some.injEq] at hb
    subst hb
    exact hready.next f hlast
  case index =>
    intro f hf
    rcases List.mem_append.mp hf with hold | hnew
    · exact hinv.index f hold
    · rw [List.mem_singleton.mp hnew]
      exact hready.index
  case kam =>
    intro f hf
    rcases List.mem_append.mp hf with hold | hnew
    · exact hinv.kam f hold
    · rw [List.mem_singleton.mp hnew]
      have hkam := hready.kam
      by_cases hlt : r.messageIndex < kamRepeat
      · simp [hlt, hkam]
      · simp [hlt]

/-! ## Reachable journals -/

omit [F64 φ] in
/-- The AAD of a frame is within the AES-GCM limit. -/
theorem length_frameAad_le (epoch index : UInt64) :
    (frameAad epoch index).length ≤ aesGcmMax := by
  have hprefix : aadPrefix.length = 18 := by decide
  have hbar : (byteLit "|").length = 1 := by decide
  simp [frameAad, hprefix, hbar, aesGcmMax]

omit [F64 φ] in
/-- Sealing a plaintext within the AES-GCM limit returns a frame. -/
theorem exists_sealBody_eq_ok {P : Primitives} (aead : P.AeadLaws) (s : DmSession φ)
    (r : DmRatchet φ) {plaintext : Bytes} (draws : SealDraws φ)
    (hlen : plaintext.length ≤ aesGcmMax) :
    ∃ frame, sealBody P s r plaintext draws = .ok frame := by
  have hsome := aead.encrypt_isSome (nextKey P r) draws.frameNonce
    (frameAad r.epoch r.messageIndex) plaintext (length_frameAad_le _ _) hlen
  rcases Option.isSome_iff_exists.mp hsome with ⟨body, hbody⟩
  exact ⟨_, (sealBody_eq_ok_iff P).mpr ⟨body, hbody, rfl⟩⟩

omit [F64 φ] in
/-- The invariant says nothing about the stored secrets. -/
theorem Journal.Inv.learned {rekeyMsgBound : UInt64} {J : Journal φ} (epoch : UInt64)
    (secret : ByteBlock epochSecretLen) (hinv : J.Inv rekeyMsgBound) :
    Journal.Inv rekeyMsgBound ⟨J.session.learned epoch secret, J.frames⟩ where
  bound := hinv.bound
  fresh := hinv.fresh
  current := hinv.current
  first := hinv.first
  next := hinv.next
  index := hinv.index
  kam := hinv.kam

/-- One call keeps the invariant. -/
theorem Journal.Inv.step {P : Primitives} (aead : P.AeadLaws) {rekeyMsgBound : UInt64}
    {J : Journal φ} {c : Call φ} (hinv : J.Inv rekeyMsgBound) (hacc : J.Accepts c) :
    (J.next P c).Inv rekeyMsgBound := by
  cases c with
  | «seal» plaintext peerHybridPub draws =>
      have hstep := seal_step P J.session plaintext peerHybridPub draws
      generalize hrun : (DmSession.seal P plaintext peerHybridPub draws).run J.session = res
        at hstep
      cases hstep with
      | refused _ =>
          have hnext : J.next P (.seal plaintext peerHybridPub draws) = J := by
            simp [Journal.next, DmSession.call, hrun, Reply.frame?]
          rw [hnext]
          exact hinv
      | @took s₁ r hrekey hratchet =>
          have hready := hinv.ready P hacc.2 hrekey hratchet
          rcases exists_sealBody_eq_ok aead s₁ r draws hacc.1 with ⟨frame, hframe⟩
          have hnext : J.next P (.seal plaintext peerHybridPub draws) =
              ⟨s₁.advance r, J.frames ++ [frame]⟩ := by
            simp [Journal.next, DmSession.call, hrun, hframe, Reply.frame?]
          rw [hnext]
          exact hinv.push P hready hframe
  | «open» frame myHybridPriv =>
      have hnext : J.next P (.open frame myHybridPriv) =
          ⟨((DmSession.open P frame myHybridPriv).run J.session).2, J.frames⟩ := by
        simp [Journal.next, DmSession.call, Reply.frame?]
      rw [hnext]
      have hstep := open_step P J.session frame myHybridPriv
      generalize (DmSession.open P frame myHybridPriv).run J.session = res at hstep ⊢
      cases hstep with
      | known _ => exact hinv
      | learned _ _ _ => exact hinv.learned _ _
      | refused _ _ _ => exact hinv
      | missing _ _ => exact hinv

/-- The invariant holds in every reachable journal. -/
theorem Journal.inv {P : Primitives} (aead : P.AeadLaws)
    {rekeyMsgBound rekeyAgeSeconds : UInt64} {J : Journal φ}
    (hJ : (journal P φ rekeyMsgBound rekeyAgeSeconds).Reachable J) : J.Inv rekeyMsgBound := by
  refine hJ.invariant (Journal.Inv rekeyMsgBound) ?_ ?_
  · rintro J ⟨peer, rfl⟩
    constructor <;> simp [withBounds]
  · intro J c _ hinv hacc
    exact hinv.step aead hacc

/-- What the frames of a journal look like. -/
structure SlotLifecycle (rekeyMsgBound : UInt64) (frames : List SealedDmFrame) : Prop where
  /-- The first frame has slot `(0, 0)`. -/
  first : ∀ f, frames.head? = some f → f.epoch = 0 ∧ f.index = 0
  /-- Each next frame has the next index of its epoch or starts the next epoch. -/
  next : frames.IsChain fun f g =>
    (g.epoch = f.epoch ∧ g.index.toNat = f.index.toNat + 1) ∨
      (g.epoch.toNat = f.epoch.toNat + 1 ∧ g.index = 0)
  /-- Slots increase lexicographically. -/
  increasing : frames.Pairwise fun f g =>
    f.epoch < g.epoch ∨ (f.epoch = g.epoch ∧ f.index < g.index)
  epochLength : ∀ epoch, (frames.filter (·.epoch = epoch)).length ≤ max 1 rekeyMsgBound.toNat
  /-- The KAM rides exactly the first frames of an epoch. -/
  kam : ∀ f ∈ frames, f.kam.isSome ↔ f.index < kamRepeat

omit [F64 φ] in
theorem Journal.Inv.slotLifecycle {rekeyMsgBound : UInt64} {J : Journal φ}
    (hinv : J.Inv rekeyMsgBound) : SlotLifecycle rekeyMsgBound J.frames := by
  have hincreasing := pairwise_lt_of_isChain hinv.next
  constructor
  case first =>
    intro f hf
    have hslot := hinv.first f hf
    simp only [SealedDmFrame.slot, Prod.mk.injEq] at hslot
    exact ⟨UInt64.toNat.inj hslot.1, UInt64.toNat.inj hslot.2⟩
  case next =>
    refine (List.isChain_map _).mp hinv.next |>.imp fun f g hfg => ?_
    rcases hfg with ⟨hepoch, hindex⟩ | ⟨hepoch, hindex⟩
    · left
      exact ⟨UInt64.toNat.inj hepoch, hindex⟩
    · right
      exact ⟨hepoch, UInt64.toNat.inj hindex⟩
  case increasing =>
    refine (List.pairwise_map.mp hincreasing).imp fun {f g} hfg => ?_
    rw [Prod.Lex.toLex_lt_toLex] at hfg
    rcases hfg with hepoch | ⟨hepoch, hindex⟩
    · left
      exact UInt64.lt_iff_toNat_lt.mpr hepoch
    · right
      exact ⟨UInt64.toNat.inj hepoch, UInt64.lt_iff_toNat_lt.mpr hindex⟩
  case epochLength =>
    intro epoch
    have hpos : ∀ a ∈ J.frames.map SealedDmFrame.slot, a.2 < max 1 rekeyMsgBound.toNat := by
      intro a ha
      rcases List.mem_map.mp ha with ⟨f, hf, rfl⟩
      exact hinv.index f hf
    have hcount := length_filter_round_le epoch.toNat hincreasing hpos
    rw [List.filter_map, List.length_map] at hcount
    have hfilter : J.frames.filter (·.epoch = epoch) =
        J.frames.filter ((fun a => decide (a.1 = epoch.toNat)) ∘ SealedDmFrame.slot) := by
      refine List.filter_congr fun f _ => ?_
      simp [SealedDmFrame.slot, UInt64.toNat_inj]
    rw [hfilter]
    exact hcount
  case kam => exact hinv.kam

/-- Slots are never reused, and no reachable seal overflows the message index. -/
theorem slots_never_reused {P : Primitives} (aead : P.AeadLaws)
    {rekeyMsgBound rekeyAgeSeconds : UInt64} {J : Journal φ}
    (hJ : (journal P φ rekeyMsgBound rekeyAgeSeconds).Reachable J) :
    SlotLifecycle rekeyMsgBound J.frames ∧
      ∀ plaintext peerHybridPub draws, J.Accepts (.seal plaintext peerHybridPub draws) →
        ∀ s₁ r, (rekeyIfDue P peerHybridPub draws).run J.session = (.ok (), s₁) →
          s₁.ratchet = some r → r.messageIndex.toNat + 1 < 2 ^ 64 := by
  have hinv := Journal.inv aead hJ
  refine ⟨hinv.slotLifecycle, ?_⟩
  intro plaintext peerHybridPub draws hacc s₁ r hrekey hratchet
  exact (hinv.ready P hacc.2 hrekey hratchet).messageIndex_succ_lt

/-- Two seals under the message bound 1: the second one begins epoch 1. -/
theorem slots_never_reused_two_seals :
    let c : UInt8 → Call Int := fun b => .seal [104, 105] (Sample.keys 2).publicKey (Sample.draws b)
    let J₁ := Journal.next Primitives.transparent ⟨withBounds "bob" 1 600, []⟩ (c 7)
    let J₂ := Journal.next Primitives.transparent J₁ (c 8)
    J₂.frames.map SealedDmFrame.slot = [(0, 0), (1, 0)] ∧ SlotLifecycle 1 J₂.frames := by
  intro c J₁ J₂
  have hstart : (journal Primitives.transparent Int 1 600).Reachable
      ⟨withBounds "bob" 1 600, []⟩ := .init ⟨"bob", rfl⟩
  have hJ₁ : (journal Primitives.transparent Int 1 600).Reachable J₁ :=
    hstart.step (c 7) ⟨by decide, fun r hr => by cases hr⟩
  have hfits : EpochFits J₁.session (Sample.draws 8) := by
    intro r hr _
    have hepoch : J₁.session.ratchet.map DmRatchet.epoch = some 0 := by decide +kernel
    rw [hr, Option.map_some, Option.some.injEq] at hepoch
    rw [hepoch]
    decide
  have hJ₂ := hJ₁.step (c 8) ⟨by decide, hfits⟩
  exact ⟨by decide +kernel, (slots_never_reused (Primitives.tagged_aeadLaws _) hJ₂).1⟩

end DmSession
end SkPqc
