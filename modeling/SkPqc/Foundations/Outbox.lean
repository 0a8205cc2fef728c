import SkPqc.Foundations.Checkpoint

/-!
# Holding outputs back until the state is written

A process that crashes goes back to what it last wrote, and may then give an
output a second time for other inputs.  An outbox holds the outputs back until
the next save and drops them with a crash, so that what is let out belongs to
inputs that can no longer be lost.

Main results:

- Theorem `Outbox.run_eq_surviving`: the outputs let out are those of the inputs
  behind the written state, in one run without crashes.
- Theorem `Outbox.released_isPrefix`: they are never taken back.
-/

namespace Checkpoint

open Transducer

/-- A process with the outputs it holds back and those it has let out. -/
structure Outbox (σ ο ω : Type) extends Process σ ω where
  held : List ο
  released : List ο

variable {σ ι ο ω : Type}

section Runs

variable (step : σ → ι → ο × σ) (save : σ → ω) (load : ω → Option σ)

/-- The outputs after an event that led to the process `p`: a save lets them out,
a crash drops them. -/
def Outbox.settle (b : Outbox σ ο ω) (p : Process σ ω) : Event ι → Outbox σ ο ω
  | .input i => { toProcess := p, held := b.held ++ [(step b.live i).1], released := b.released }
  | .save => { toProcess := p, held := [], released := b.released ++ b.held }
  | .crash => { toProcess := p, held := [], released := b.released }

def Outbox.apply (b : Outbox σ ο ω) (e : Event ι) : Option (Outbox σ ο ω) :=
  (b.toProcess.apply step save load e).map fun p => b.settle step p e

def Outbox.run (b : Outbox σ ο ω) : List (Event ι) → Option (Outbox σ ο ω)
  | [] => some b
  | e :: es => (b.apply step save load e).bind fun b' => run b' es

end Runs

variable {step : σ → ι → ο × σ} {save : σ → ω} {load : ω → Option σ} {Inv : σ → Prop}
  {ok : ι → Prop}

theorem Outbox.run_append (b : Outbox σ ο ω) (events later : List (Event ι)) :
    b.run step save load (events ++ later) =
      (b.run step save load events).bind fun b' => b'.run step save load later := by
  induction events generalizing b with
  | nil => rfl
  | cons e es ih =>
      rw [List.cons_append, run, run]
      cases b.apply step save load e with
      | none => rfl
      | some b' => exact ih b'

theorem Outbox.run_singleton (b : Outbox σ ο ω) (e : Event ι) :
    b.run step save load [e] = b.apply step save load e := by
  rw [run]
  cases b.apply step save load e <;> rfl

/-- An outbox in step with the surviving inputs: what is let out are the outputs
of the written ones, and with what is held those of all. -/
structure Outbox.Tracks (step : σ → ι → ο × σ) (save : σ → ω) (s : σ) (h : Surviving ι)
    (b : Outbox σ ο ω) : Prop where
  process : b.toProcess = h.process step save s
  released : b.released = outputs step s h.saved
  held : b.released ++ b.held = outputs step s h.live

/-- One event keeps an outbox in step. -/
theorem Outbox.Tracks.apply (hstep : ∀ s i, Inv s → ok i → Inv (step s i).2)
    (hload : ∀ s, Inv s → load (save s) = some s) {s : σ} (hs : Inv s) {h : Surviving ι}
    (hsaved : ∀ i ∈ h.saved, ok i) {b : Outbox σ ο ω} (hb : b.Tracks step save s h)
    (e : Event ι) :
    ∃ b', b.apply step save load e = some b' ∧ b'.Tracks step save s (h.apply e) := by
  have hprocess := Surviving.process_apply hstep hload hs hsaved e
  rw [← hb.process] at hprocess
  refine ⟨b.settle step ((h.apply e).process step save s) e, ?_, ?_⟩
  · rw [Outbox.apply, hprocess, Option.map_some]
  · cases e with
    | input i =>
        have hlive : b.live = final step s h.live := congrArg Process.live hb.process
        refine ⟨rfl, hb.released, ?_⟩
        rw [Outbox.settle, ← List.append_assoc, hb.held, hlive, Surviving.apply, outputs_append]
        rfl
    | save =>
        refine ⟨rfl, hb.held, ?_⟩
        rw [Outbox.settle, List.append_nil]
        exact hb.held
    | crash =>
        refine ⟨rfl, hb.released, ?_⟩
        rw [Outbox.settle, List.append_nil]
        exact hb.released

/-- An outbox that starts empty, with its state written out, lets out exactly the
outputs of the inputs that no crash can take back. -/
theorem Outbox.run_eq_surviving (hstep : ∀ s i, Inv s → ok i → Inv (step s i).2)
    (hload : ∀ s, Inv s → load (save s) = some s) {s : σ} (hs : Inv s)
    {events : List (Event ι)} (hevents : ∀ i, .input i ∈ events → ok i) :
    ∃ b, (⟨⟨s, save s⟩, [], []⟩ : Outbox σ ο ω).run step save load events = some b ∧
      b.Tracks step save s (surviving events) := by
  induction events using List.reverseRecOn with
  | nil => exact ⟨_, rfl, rfl, rfl, rfl⟩
  | append_singleton es e ih =>
      have hearlier : ∀ i, .input i ∈ es → ok i := by
        intro i hi
        exact hevents i (List.mem_append_left _ hi)
      rcases ih hearlier with ⟨b, hrun, hb⟩
      rcases hb.apply hstep hload hs (surviving_ok hearlier).2 e with ⟨b', hb', htracks⟩
      refine ⟨b', ?_, ?_⟩
      · rw [Outbox.run_append, hrun, Option.bind_some, Outbox.run_singleton, hb']
      · rw [surviving_append_singleton]
        exact htracks

/-- What was let out is never taken back. -/
theorem Outbox.released_isPrefix {b b' : Outbox σ ο ω} {events : List (Event ι)}
    (h : b.run step save load events = some b') : b.released <+: b'.released := by
  induction events generalizing b with
  | nil =>
      cases h
      exact List.prefix_rfl
  | cons e es ih =>
      rcases Option.bind_eq_some_iff.mp h with ⟨b₁, hb₁, hrest⟩
      rcases Option.map_eq_some_iff.mp hb₁ with ⟨p, -, rfl⟩
      refine List.IsPrefix.trans ?_ (ih hrest)
      cases e with
      | input i => exact List.prefix_rfl
      | save => exact List.prefix_append _ _
      | crash => exact List.prefix_rfl

end Checkpoint
