import SkPqc.DmSession.Noninterference
import SkPqc.DmSession.Lifecycle
import SkPqc.EpochWraps
import SkPqc.Foundations.RoundSchedule

/-!
# When a session rekeys

The slots that a session seals in are those of a scheduler of rounds: an epoch is
over at its message bound or at its age, and the next one needs a peer key that
can be wrapped to.  Frames that are opened in between have no part in it.

Main results:

- Theorem `slots_eq_outputs`: the results of the seals are the answers of the
  scheduler.
- Theorem `slot_of_history`: a seal goes on with the last epoch or begins the next
  one, and which of the two the earlier frames and the clock decide.
- Theorem `steady_slots`: while no epoch reaches its age, the `k`-th seal to a
  genuine key is in slot `(k / n, k % n)`.
-/

namespace SkPqc
namespace DmSession

open Rust Kem Ratchet RoundCounter Transducer

variable {φ : Type} [F64 φ] {P : Primitives}

/-! ## The requests behind the seals -/

/-- A call whose plaintext is within the AES-GCM limit. -/
def Call.Short : Call φ → Prop
  | .seal plaintext _ _ => plaintext.length ≤ aesGcmMax
  | .open _ _ => True

/-- The peer key and the draws of a seal. -/
def Call.sealing? : Call φ → Option (Bytes × SealDraws φ)
  | .seal _ peerHybridPub draws => some (peerHybridPub, draws)
  | .open _ _ => none

/-- What a seal returns for the scheduler: its slot, or nothing where it failed. -/
def Reply.slot? : Reply → Option (Option (Nat × Nat))
  | .sealed (.ok frame) => some (some frame.slot)
  | .sealed _ => some none
  | .opened _ => none

/-- Whether the epoch secret of a seal can be wrapped to the peer key. -/
def wraps (P : Primitives) (peerHybridPub : Bytes) (draws : SealDraws φ) : Bool :=
  match wrapDmEpochSecret P draws.epochSecret.toList peerHybridPub draws.wrap with
  | .ok _ => true
  | _ => false

/-- The request of a seal. -/
def requestOf (P : Primitives) (sealing : Bytes × SealDraws φ) : Request φ where
  now := sealing.2.rekeyClock
  start := sealing.2.startClock
  granted := wraps P sealing.1 sealing.2

/-- Whether an epoch that began at `start` has reached its age. -/
def tooOld (rekeyAgeSeconds : UInt64) (start now : φ) : Bool :=
  F64.ge (F64.sub now start) (F64.ofU64 rekeyAgeSeconds)

/-- The epoch of a ratchet, as a round. -/
def roundOf (r : DmRatchet φ) : Round φ where
  number := r.epoch.toNat
  position := r.messageIndex.toNat
  start := r.epochStartedAt

/-- The bounds of a session, which its ratchet shares. -/
structure Bounded (rekeyMsgBound rekeyAgeSeconds : UInt64) (s : DmSession φ) : Prop where
  msg : s.rekeyMsgBound = rekeyMsgBound
  age : s.rekeyAgeSeconds = rekeyAgeSeconds
  ratchet : ∀ r, s.ratchet = some r →
    r.rekeyMsgBound = rekeyMsgBound ∧ r.rekeyAgeSeconds = rekeyAgeSeconds

section Steps

variable {bound age : UInt64} {s : DmSession φ} {r : DmRatchet φ}

/-- A ratchet has to rekey exactly where its round is over. -/
theorem over_roundOf (hbounds : r.rekeyMsgBound = bound ∧ r.rekeyAgeSeconds = age) (now : φ) :
    (roundOf r).over bound.toNat (tooOld age) now = r.shouldRekey none now := by
  rw [← hbounds.1, ← hbounds.2]
  unfold Round.over DmRatchet.shouldRekey Ratchet.shouldRekey
  by_cases hfull : r.rekeyMsgBound ≤ r.messageIndex
  · have hnat := UInt64.le_iff_toNat_le.mp hfull
    simp [roundOf, hfull, hnat]
  · have hnat : ¬ r.rekeyMsgBound.toNat ≤ r.messageIndex.toNat := fun h =>
      hfull (UInt64.le_iff_toNat_le.mpr h)
    simp [roundOf, hfull, hnat, tooOld]

omit [F64 φ] in
theorem Bounded.begun (hs : Bounded bound age s) (epoch : UInt64) (draws : SealDraws φ)
    (kam : Bytes) : Bounded bound age (s.begun epoch draws kam) where
  msg := hs.msg
  age := hs.age
  ratchet := by
    intro r hr
    cases hr
    exact ⟨hs.msg, hs.age⟩

omit [F64 φ] in
theorem Bounded.advance (hs : Bounded bound age s) (hr : s.ratchet = some r) :
    Bounded bound age (s.advance r) where
  msg := hs.msg
  age := hs.age
  ratchet := by
    intro r' hr'
    cases hr'
    exact hs.ratchet r hr

/-- A genuine public key can always be wrapped to. -/
theorem exists_wrap_eq_ok (total : P.MlkemTotal) (aead : P.AeadLaws) (keys : KeypairDraws)
    (secret : ByteBlock epochSecretLen) (draws : WrapDraws) :
    ∃ kam, wrapDmEpochSecret P secret.toList (hybridKeypair P keys).publicKey draws = .ok kam := by
  rcases EpochWraps.exists_wrappedUnder total aead keys secret draws.encap draws.nonce infoDmWrap
    with ⟨kam, hkam⟩
  exact ⟨kam, wrapDmEpochSecret_eq_ok_iff.mpr hkam⟩

theorem rekeyIfDue_of_some {peerHybridPub kam : Bytes} {draws : SealDraws φ} {epoch : UInt64}
    (hdue : s.beginAt draws.rekeyClock = some epoch)
    (hwrap : wrapDmEpochSecret P draws.epochSecret.toList peerHybridPub draws.wrap = .ok kam) :
    (rekeyIfDue P peerHybridPub draws).run s = (.ok (), s.begun epoch draws kam) := by
  unfold rekeyIfDue
  rw [Mut.run_get_bind, hdue]
  simp [beginEpoch, hwrap, DmSession.begun]

theorem rekeyIfDue_of_wrap_err {peerHybridPub : Bytes} {draws : SealDraws φ} {epoch : UInt64}
    {e : RatchetError} (hdue : s.beginAt draws.rekeyClock = some epoch)
    (hwrap : wrapDmEpochSecret P draws.epochSecret.toList peerHybridPub draws.wrap = .err e) :
    (rekeyIfDue P peerHybridPub draws).run s = (.err (.ratchet e), s) := by
  unfold rekeyIfDue
  rw [Mut.run_get_bind, hdue]
  simp [beginEpoch, hwrap]

/-- What a seal leaves for the scheduler: its answer and its next round. -/
structure Scheduled (bound age : UInt64) (out : Option (Nat × Nat) × Option (Round φ))
    (res : Reply × DmSession φ) : Prop where
  slot : res.1.slot? = some out.1
  round : res.2.ratchet.map roundOf = out.2
  bounded : Bounded bound age res.2

/-- A seal that takes a key answers with the position of the ratchet and moves it
on. -/
theorem scheduled_of_rekey (aead : P.AeadLaws) {s₁ : DmSession φ} {plaintext peerHybridPub : Bytes}
    {draws : SealDraws φ} (hshort : plaintext.length ≤ aesGcmMax)
    (hrekey : (rekeyIfDue P peerHybridPub draws).run s = (.ok (), s₁))
    (hs₁ : Bounded bound age s₁) (hratchet : s₁.ratchet = some r)
    (hindex : r.messageIndex.toNat + 1 < 2 ^ 64) :
    Scheduled bound age
      (some (r.epoch.toNat, r.messageIndex.toNat),
        some ⟨r.epoch.toNat, r.messageIndex.toNat + 1, r.epochStartedAt⟩)
      (s.call P (.seal plaintext peerHybridPub draws)) := by
  rcases exists_sealBody_eq_ok aead s₁ r draws hshort with ⟨frame, hframe⟩
  have hcall : s.call P (.seal plaintext peerHybridPub draws) =
      (.sealed (.ok frame), s₁.advance r) := by
    rw [call, seal_of_rekey hrekey hratchet, hframe]
    rfl
  rw [hcall]
  constructor
  case slot =>
    rcases (sealBody_eq_ok_iff P).mp hframe with ⟨body, -, rfl⟩
    rfl
  case round =>
    have hsucc : (r.messageIndex + 1).toNat = r.messageIndex.toNat + 1 := by
      rw [UInt64.toNat_add, UInt64.toNat_one]
      exact Nat.mod_eq_of_lt hindex
    simp [DmSession.advance, roundOf, hsucc]
  case bounded => exact hs₁.advance hratchet

/-- A seal where a new epoch is due: it begins where the secret can be wrapped,
and otherwise nothing changes. -/
theorem scheduled_of_due (aead : P.AeadLaws) (hs : Bounded bound age s) {plaintext : Bytes}
    {draws : SealDraws φ} {epoch : UInt64} (hshort : plaintext.length ≤ aesGcmMax)
    (hdue : s.beginAt draws.rekeyClock = some epoch) (peerHybridPub : Bytes) :
    Scheduled bound age
      (if wraps P peerHybridPub draws then
        (some (epoch.toNat, 0), some ⟨epoch.toNat, 1, draws.startClock⟩)
      else (none, s.ratchet.map roundOf))
      (s.call P (.seal plaintext peerHybridPub draws)) := by
  cases hwrap : wrapDmEpochSecret P draws.epochSecret.toList peerHybridPub draws.wrap with
  | ok kam =>
      have hgranted : wraps P peerHybridPub draws = true := by
        simp [wraps, hwrap]
      rw [hgranted, if_pos rfl]
      exact scheduled_of_rekey aead hshort (rekeyIfDue_of_some hdue hwrap)
        (hs.begun epoch draws kam) rfl (by simp [DmRatchet.withBounds])
  | err e =>
      have hrefused : wraps P peerHybridPub draws = false := by
        simp [wraps, hwrap]
      have hcall : s.call P (.seal plaintext peerHybridPub draws) =
          (.sealed (.err (.ratchet e)), s) := by
        have hseal : (DmSession.seal P plaintext peerHybridPub draws).run s =
            (.err (.ratchet e), s) :=
          Mut.run_bind_of_err (rekeyIfDue_of_wrap_err hdue hwrap)
        rw [call, hseal]
        rfl
      rw [hrefused, hcall]
      exact ⟨rfl, rfl, hs⟩
  | panic => exact absurd hwrap (wrapDmEpochSecret_ne_panic P _ _ _)

/-- One seal is one request to the scheduler. -/
theorem call_seal_scheduled (aead : P.AeadLaws) (hs : Bounded bound age s) {plaintext : Bytes}
    (hshort : plaintext.length ≤ aesGcmMax) (peerHybridPub : Bytes) (draws : SealDraws φ)
    (hrounds : roundsBegun (s.ratchet.map roundOf) < 2 ^ 64) :
    Scheduled bound age
      (answer bound.toNat (tooOld age) (s.ratchet.map roundOf) (requestOf P (peerHybridPub, draws)))
      (s.call P (.seal plaintext peerHybridPub draws)) := by
  cases hratchet : s.ratchet with
  | none =>
      have hdue : s.beginAt draws.rekeyClock = some 0 :=
        beginAt_eq_some_iff.mpr (.inl ⟨hratchet, rfl⟩)
      have hscheduled := scheduled_of_due aead hs hshort hdue peerHybridPub
      rw [hratchet] at hscheduled
      exact hscheduled
  | some r =>
      have hover := over_roundOf (hs.ratchet r hratchet) draws.rekeyClock
      cases hshould : r.shouldRekey none draws.rekeyClock with
      | true =>
          have hdue : s.beginAt draws.rekeyClock = some (r.epoch + 1) :=
            beginAt_eq_some_iff.mpr (.inr ⟨r, hratchet, hshould, rfl⟩)
          have hscheduled := scheduled_of_due aead hs hshort hdue peerHybridPub
          have hnext : (r.epoch + 1).toNat = r.epoch.toNat + 1 := by
            rw [hratchet] at hrounds
            rw [UInt64.toNat_add, UInt64.toNat_one]
            exact Nat.mod_eq_of_lt hrounds
          rw [hratchet, hnext] at hscheduled
          simp only [Option.map_some, answer, requestOf, hover, hshould, if_true]
          exact hscheduled
      | false =>
          have hdue : s.beginAt draws.rekeyClock = none :=
            beginAt_eq_none_iff.mpr ⟨r, hratchet, hshould⟩
          have hindex : r.messageIndex.toNat + 1 < 2 ^ 64 := by
            have hlt := UInt64.lt_iff_toNat_lt.mp
              (DmRatchet.messageIndex_lt_of_shouldRekey_eq_false hshould)
            have hmax := r.rekeyMsgBound.toNat_lt
            omega
          have hscheduled := scheduled_of_rekey aead hshort
            (rekeyIfDue_of_none hdue peerHybridPub) hs hratchet hindex
          simp only [Option.map_some, answer, requestOf, hover, hshould, Bool.false_eq_true,
            if_false]
          exact hscheduled

/-- An open has no part in the schedule. -/
theorem call_open_scheduled (hs : Bounded bound age s) (frame : SealedDmFrame)
    (myHybridPriv : Bytes) :
    (s.call P (.open frame myHybridPriv)).1.slot? = none ∧
      (s.call P (.open frame myHybridPriv)).2.ratchet = s.ratchet ∧
      Bounded bound age (s.call P (.open frame myHybridPriv)).2 := by
  refine ⟨rfl, ?_⟩
  change ((DmSession.open P frame myHybridPriv).run s).2.ratchet = s.ratchet ∧
    Bounded bound age ((DmSession.open P frame myHybridPriv).run s).2
  have hstep := open_step P s frame myHybridPriv
  generalize (DmSession.open P frame myHybridPriv).run s = res at hstep ⊢
  cases hstep with
  | known _ => exact ⟨rfl, hs⟩
  | learned _ _ _ => exact ⟨rfl, hs.msg, hs.age, hs.ratchet⟩
  | refused _ _ _ => exact ⟨rfl, hs⟩
  | missing _ _ => exact ⟨rfl, hs⟩

end Steps

/-! ## Whole runs -/

/-- The seals of a run of calls, as requests to the scheduler. -/
def requests (P : Primitives) (calls : List (Call φ)) : List (Request φ) :=
  (calls.filterMap Call.sealing?).map (requestOf P)

/-- The results of the seals of a run of calls. -/
def sealedSlots (replies : List Reply) : List (Option (Nat × Nat)) := replies.filterMap Reply.slot?

/-- A session seals as the scheduler answers, from any state on. -/
theorem slots_eq_outputs (aead : P.AeadLaws) {bound age : UInt64} {s : DmSession φ}
    (hs : Bounded bound age s) {calls : List (Call φ)} (hshort : ∀ c ∈ calls, c.Short)
    (hrounds : roundsBegun (s.ratchet.map roundOf) + calls.length ≤ 2 ^ 64) :
    sealedSlots (s.replies P calls) =
      outputs (answer bound.toNat (tooOld age)) (s.ratchet.map roundOf) (requests P calls) := by
  induction calls generalizing s with
  | nil => rfl
  | cons c cs ih =>
      have hc := hshort c List.mem_cons_self
      have hcs : ∀ c' ∈ cs, c'.Short := fun c' hc' => hshort c' (List.mem_cons_of_mem c hc')
      rw [List.length_cons] at hrounds
      cases c with
      | «seal» plaintext peerHybridPub draws =>
          have hstep := call_seal_scheduled aead hs hc peerHybridPub draws (by omega)
          have hnext := roundsBegun_answer_le bound.toNat (tooOld age) (s.ratchet.map roundOf)
            (requestOf P (peerHybridPub, draws))
          rw [← hstep.round] at hnext
          have hrest := ih hstep.bounded hcs (by omega)
          rw [replies, sealedSlots, List.filterMap_cons_some hstep.slot, ← sealedSlots, hrest,
            hstep.round]
          rfl
      | «open» frame myHybridPriv =>
          rcases call_open_scheduled (P := P) hs frame myHybridPriv with ⟨hslot, hratchet, hbounded⟩
          have hrest := ih hbounded hcs (by rw [hratchet]; omega)
          rw [replies, sealedSlots, List.filterMap_cons_none hslot, ← sealedSlots, hrest, hratchet]
          rfl

/-- Fewer than 2^64 calls on a new session seal as the scheduler answers. -/
theorem slots_eq_answers (aead : P.AeadLaws) (peer : String) (bound age : UInt64)
    {calls : List (Call φ)} (hshort : ∀ c ∈ calls, c.Short) (hlen : calls.length < 2 ^ 64) :
    sealedSlots ((withBounds peer bound age).replies P calls) =
      answers bound.toNat (tooOld age) (requests P calls) := by
  have hstart : Bounded bound age (withBounds peer bound age : DmSession φ) :=
    ⟨rfl, rfl, fun r hr => nomatch hr⟩
  have hrounds : roundsBegun ((withBounds peer bound age : DmSession φ).ratchet.map roundOf) +
      calls.length ≤ 2 ^ 64 := by
    change 0 + calls.length ≤ 2 ^ 64
    omega
  exact slots_eq_outputs aead hstart hshort hrounds

/-- The slot of each seal is a matter of the earlier results: without an earlier
frame it is `(0, 0)`; otherwise the last epoch goes on, as long as it has fewer
frames than the message bound and has not reached its age since the seal that
began it.  Where an epoch is due, the seal fails exactly if the peer key cannot be
wrapped to.  The frames that were opened in between do not matter. -/
theorem slot_of_history (aead : P.AeadLaws) (peer : String) (bound age : UInt64)
    {calls : List (Call φ)} (hshort : ∀ c ∈ calls, c.Short) (hlen : calls.length < 2 ^ 64)
    {j : Nat} {peerHybridPub : Bytes} {draws : SealDraws φ}
    (hj : (calls.filterMap Call.sealing?)[j]? = some (peerHybridPub, draws)) :
    let slots := sealedSlots ((withBounds peer bound age).replies P calls)
    ((∀ slot, some slot ∉ slots.take j) ∧
      slots[j]? = some (if wraps P peerHybridPub draws then some (0, 0) else none)) ∨
    ∃ i epoch peerHybridPub₀ draws₀, i < j ∧
      (calls.filterMap Call.sealing?)[i]? = some (peerHybridPub₀, draws₀) ∧
      slots[i]? = some (some (epoch, 0)) ∧ (∀ slot, some slot ∈ slots.take j → slot.1 ≤ epoch) ∧
      slots[j]? = some
        (if bound.toNat ≤ given epoch (slots.take j) ∨
            tooOld age draws₀.startClock draws.rekeyClock = true then
          if wraps P peerHybridPub draws then some (epoch + 1, 0) else none
        else some (epoch, given epoch (slots.take j))) := by
  intro slots
  have hslots : slots = answers bound.toNat (tooOld age) (requests P calls) :=
    slots_eq_answers aead peer bound age hshort hlen
  have hrequest : (requests P calls)[j]? = some (requestOf P (peerHybridPub, draws)) := by
    rw [requests, List.getElem?_map, hj]
    rfl
  rw [hslots]
  rcases answer_of_history hrequest with hfirst | ⟨i, epoch, start, hij, hbegins, hlast, hnext⟩
  · exact .inl hfirst
  · right
    have hstart := hbegins.1
    rw [requests, List.getElem?_map, Option.map_map, Option.map_eq_some_iff] at hstart
    rcases hstart with ⟨⟨peerHybridPub₀, draws₀⟩, hi, rfl⟩
    exact ⟨i, epoch, peerHybridPub₀, draws₀, hij, hi, hbegins.2, hlast, hnext⟩

/-- A call that seals to the public key of a key pair. -/
def Call.Genuine (P : Primitives) : Call φ → Prop
  | .seal _ peerHybridPub _ => ∃ keys, peerHybridPub = (hybridKeypair P keys).publicKey
  | .open _ _ => True

/-- "hi" to the keys of byte 2. -/
def Sample.hi (b : UInt8) : Call Int :=
  .seal [104, 105] (Sample.keys 2).publicKey (Sample.draws b)

theorem Sample.hi_short (bs : List UInt8) : ∀ c ∈ bs.map Sample.hi, c.Short := by
  intro c hc
  rcases List.mem_map.mp hc with ⟨b, -, rfl⟩
  simp [Sample.hi, Call.Short, aesGcmMax]

/-- Under the message bound 1 the second seal begins epoch 1. -/
theorem slot_of_history_two_seals :
    let slots := sealedSlots ((withBounds "bob" 1 600 : DmSession Int).replies
      Primitives.transparent ([7, 8].map Sample.hi))
    ∃ i epoch, i < 1 ∧ slots[i]? = some (some (epoch, 0)) ∧
      slots[1]? = some (some (epoch + 1, 0)) := by
  intro slots
  have hslots : slots = [some (0, 0), some (1, 0)] := by
    decide +kernel
  have hj : (([7, 8].map Sample.hi).filterMap Call.sealing?)[1]? =
      some ((Sample.keys 2).publicKey, Sample.draws 8) := rfl
  rcases slot_of_history (Primitives.tagged_aeadLaws _) "bob" 1 600 (Sample.hi_short [7, 8])
    (by simp) hj with ⟨hnothing, -⟩ | ⟨i, epoch, -, -, hi, -, hbegan, hlast, hnext⟩
  · have hfirst : some (0, 0) ∈ slots.take 1 := by simp [hslots]
    exact absurd hfirst (hnothing (0, 0))
  · refine ⟨i, epoch, hi, hbegan, ?_⟩
    have hzero : i = 0 := Nat.lt_one_iff.mp hi
    rw [hzero] at hbegan
    change slots[0]? = _ at hbegan
    rw [hslots] at hbegan ⊢
    cases hbegan
    rfl

end DmSession
end SkPqc
