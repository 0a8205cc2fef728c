import SkPqc.DmSession.FailedRekey
import SkPqc.DmSession.RestoredKam
import SkPqc.Foundations.Checkpoint

/-!
# Durability

The owner of a session writes its snapshot out when it likes, and after a crash
restores the session from the last snapshot written.  The calls since then are
lost, also the seals whose frames are on the wire already: the restored session
seals its next frames into the same slots.

Main results:

- Theorem `restore_restorable`: what a JSON value is restored to is restored
  again from its own snapshot.
- Theorem `durable_run`: through any calls, saves and crashes a session is what
  the surviving calls make of it, restarting never fails, and a crash takes the
  session back to the last save.
-/

namespace SkPqc
namespace DmSession

open Rust Kem Ratchet Json Checkpoint

variable {φ : Type} [JsonF64 φ]

/-! ## Restored sessions are restorable -/

/-- Converting a 64-bit integer gives a finite float. -/
structure FiniteConversions (φ : Type) [JsonF64 φ] : Prop where
  ofU64 : ∀ n : UInt64, JsonF64.isFinite (F64.ofU64 n : φ)
  ofI64 : ∀ n : Int64, JsonF64.isFinite (JsonF64.ofI64 n : φ)

/-- A float that the value has for the start of the epoch is finite, as every
number of a JSON value is. -/
def SavedClockFinite (v : Value φ) : Prop :=
  ∀ rt x, v.get "ratchet" = some rt → rt.get "epoch_started_at" = some (.number (.float x)) →
    JsonF64.isFinite x

theorem isFinite_of_asF64 (floats : FiniteConversions φ) {field : Option (Value φ)} {x : φ}
    (hfield : field.bind Value.asF64 = some x)
    (hfloat : ∀ y, field = some (.number (.float y)) → JsonF64.isFinite y) :
    JsonF64.isFinite x := by
  rcases Option.bind_eq_some_iff.mp hfield with ⟨v, hv, hx⟩
  unfold Value.asF64 at hx
  split at hx
  · cases hx
    exact floats.ofU64 _
  · cases hx
    exact floats.ofI64 _
  · cases hx
    exact hfloat x hv
  · cases hx

/-- `restore` takes the ratchet's secret from the store, its bounds from the
session and its clock from a number. -/
theorem restore_restorable (floats : FiniteConversions φ) {H : Hex.Codec} {v : Value φ}
    {s : DmSession φ} (hclock : SavedClockFinite v) (h : restore H v = .ok s) : Restorable s := by
  rcases restoreSender_of_restore h with ⟨peer, bound, age, secrets, _, _, hsender⟩
  have hstep := restoreSender_step hsender
  cases hstep with
  | idle _ _ => constructor <;> intro r hr <;> cases hr
  | @keyed kam rt r _ hrt _ hr =>
      rcases restoreRatchet_eq_ok_iff.mp hr with ⟨-, -, hstart, hsecret, hbound, hage⟩
      constructor
      case stored =>
        intro r' hr'
        cases hr'
        exact hsecret
      case bounds =>
        intro r' hr'
        cases hr'
        exact ⟨hbound, hage⟩
      case clock =>
        intro r' hr'
        cases hr'
        apply isFinite_of_asF64 floats hstart
        intro y hy
        exact hclock rt y hrt hy

/-- A session made by `new` or `with_bounds`, or restored from a value. -/
def Started (H : Hex.Codec) (s : DmSession φ) : Prop :=
  Fresh s ∨ ∃ v, SavedClockFinite v ∧ restore H v = .ok s

theorem Fresh.restorable {s : DmSession φ} (h : Fresh s) : Restorable s := by
  rcases h with ⟨peer, bound, age, rfl⟩
  constructor <;> intro r hr <;> cases hr

theorem Started.restorable (floats : FiniteConversions φ) {H : Hex.Codec} {s : DmSession φ}
    (h : Started H s) : Restorable s := by
  rcases h with hfresh | ⟨v, hclock, hv⟩
  · exact hfresh.restorable
  · exact restore_restorable floats hclock hv

/-! ## Saving and restarting -/

/-- Restart from what was last written. -/
def restarted (H : Hex.Codec) (v : Value φ) : Option (DmSession φ) :=
  match restore H v with
  | .ok s => some s
  | _ => none

theorem restarted_snapshot {H : Hex.Codec} (hex : H.Laws) {s : DmSession φ} (h : Restorable s) :
    restarted H (snapshot H s) = some s := by
  simp [restarted, restore_snapshot hex h]

variable (P : Primitives)

theorem restorable_step (s : DmSession φ) (c : Call φ) (h : Restorable s) (hc : c.ClockFinite) :
    Restorable (s.call P c).2 :=
  h.step hc

/-- A session and its last snapshot, through calls, saves and crashes. -/
def runEvents (H : Hex.Codec) (s : DmSession φ) (events : List (Checkpoint.Event (Call φ))) :
    Option (Process (DmSession φ) (Value φ)) :=
  (⟨s, snapshot H s⟩ : Process (DmSession φ) (Value φ)).run (call P) (snapshot H) (restarted H)
    events

variable {P} {H : Hex.Codec}

theorem runEvents_eq (floats : FiniteConversions φ) (hex : H.Laws) {s : DmSession φ}
    (hs : Started H s) {events : List (Checkpoint.Event (Call φ))}
    (hclock : ∀ c, .input c ∈ events → c.ClockFinite) :
    runEvents P H s events = some ⟨s.after P (surviving events).live,
      snapshot H (s.after P (surviving events).saved)⟩ := by
  apply Process.run_eq_surviving (restorable_step P) _ (hs.restorable floats) hclock
  intro s hinv
  exact restarted_snapshot hex hinv

/-- A session is at any time what the surviving calls make of the first one, and
its last snapshot is restored to what they were when it was written.  A crash
takes the session back to the last save, whatever it has sealed and opened since. -/
theorem durable_run (floats : FiniteConversions φ) (hex : H.Laws) {s : DmSession φ}
    (hs : Started H s) {events : List (Checkpoint.Event (Call φ))}
    (hclock : ∀ c, .input c ∈ events → c.ClockFinite) :
    ∃ p, runEvents P H s events = some p ∧
      p.live = s.after P (surviving events).live ∧
      restore H p.saved = .ok (s.after P (surviving events).saved) ∧
      ∀ lost : List (Call φ), (∀ c ∈ lost, c.ClockFinite) →
        runEvents P H s (events ++ .save :: (lost.map Checkpoint.Event.input ++ [.crash])) =
          some ⟨p.live, snapshot H p.live⟩ := by
  refine ⟨_, runEvents_eq floats hex hs hclock, rfl, ?_, ?_⟩
  · apply restore_snapshot hex
    exact final_invariant (restorable_step P) (hs.restorable floats) (surviving_ok hclock).2
  · intro lost hlost
    rw [runEvents_eq floats hex hs, surviving_lost]
    intro c hc
    simp only [List.mem_append, List.mem_cons, List.mem_map, List.not_mem_nil, or_false,
      reduceCtorEq, false_or, Checkpoint.Event.input.injEq, exists_eq_right] at hc
    rcases hc with hc | hc
    · exact hclock c hc
    · exact hlost c hc

namespace Sample

theorem finiteConversions : FiniteConversions Int where
  ofU64 _ := rfl
  ofI64 _ := rfl

end Sample

/-- A session restored from a value that was edited by hand: it seals, is saved,
seals again, and loses the second seal in a crash. -/
theorem durable_run_unkeyed :
    let c : Call Int := .seal [104, 105] (Sample.keys 2).publicKey (Sample.minuteDraws 7)
    let events : List (Checkpoint.Event (Call Int)) := [.input c, .save, .input c, .crash]
    Started Hex.standard Sample.unkeyed ∧ (∀ c', .input c' ∈ events → c'.ClockFinite) ∧
      ∃ p, runEvents Primitives.transparent Hex.standard Sample.unkeyed events = some p ∧
        p.live = Sample.unkeyed.after Primitives.transparent (surviving events).live ∧
        restore Hex.standard p.saved =
          .ok (Sample.unkeyed.after Primitives.transparent (surviving events).saved) ∧
        ∀ lost : List (Call Int), (∀ c ∈ lost, c.ClockFinite) →
          runEvents Primitives.transparent Hex.standard Sample.unkeyed
              (events ++ .save :: (lost.map Checkpoint.Event.input ++ [.crash])) =
            some ⟨p.live, snapshot Hex.standard p.live⟩ := by
  intro c events
  have hstarted : Started Hex.standard Sample.unkeyed :=
    Or.inr ⟨Sample.unkeyedValue, fun _ _ _ _ => rfl, Sample.restore_unkeyedValue⟩
  have hclock : ∀ c', .input c' ∈ events → c'.ClockFinite := by
    intro c' _
    cases c' <;> constructor
  exact ⟨hstarted, hclock, durable_run Sample.finiteConversions Hex.standard_laws hstarted hclock⟩

end DmSession
end SkPqc
