import SkPqc.Foundations.Transducer
import Mathlib.Data.List.Induction

/-!
# Saving and restarting

A process takes inputs, writes its state out now and then, and loses its memory
when it crashes; it restarts from what it last wrote.  What such a process has
seen is a matter of bookkeeping alone: the inputs since the last save are lost
with a crash.

Main results:

- Theorem `Process.run_eq_surviving`: where a written state is read back as it
  was, a process is at any time what the surviving inputs make of its first
  state.
-/

namespace Checkpoint

open Transducer

/-- What can happen to a process. -/
inductive Event (ι : Type) where
  | input (i : ι)
  | save
  | crash

/-- The state in memory and what was last written. -/
structure Process (σ ω : Type) where
  live : σ
  saved : ω

section Runs

variable {σ ι ο ω : Type} (step : σ → ι → ο × σ) (save : σ → ω) (load : ω → Option σ)

/-- One event; a process whose written state cannot be read does not restart. -/
def Process.apply (p : Process σ ω) : Event ι → Option (Process σ ω)
  | .input i => some { p with live := (step p.live i).2 }
  | .save => some { p with saved := save p.live }
  | .crash => (load p.saved).map fun s => { p with live := s }

def Process.run (p : Process σ ω) : List (Event ι) → Option (Process σ ω)
  | [] => some p
  | e :: es => (p.apply step save load e).bind fun p' => run p' es

end Runs

/-- Inputs that are not lost: those behind the state in memory and those behind
the written one. -/
structure Surviving (ι : Type) where
  live : List ι
  saved : List ι

variable {σ ι ο ω : Type}

def Surviving.apply (h : Surviving ι) : Event ι → Surviving ι
  | .input i => { h with live := h.live ++ [i] }
  | .save => { h with saved := h.live }
  | .crash => { h with live := h.saved }

/-- The inputs that survive a sequence of events. -/
def surviving (events : List (Event ι)) : Surviving ι :=
  events.foldl Surviving.apply ⟨[], []⟩

theorem surviving_append_singleton (events : List (Event ι)) (e : Event ι) :
    surviving (events ++ [e]) = (surviving events).apply e := by
  simp [surviving]

/-- The process that the surviving inputs make. -/
def Surviving.process (step : σ → ι → ο × σ) (save : σ → ω) (s : σ) (h : Surviving ι) :
    Process σ ω where
  live := final step s h.live
  saved := save (final step s h.saved)

variable {step : σ → ι → ο × σ} {save : σ → ω} {load : ω → Option σ} {Inv : σ → Prop}
  {ok : ι → Prop}

/-- An invariant kept by every admissible input holds after all of them. -/
theorem final_invariant (hstep : ∀ s i, Inv s → ok i → Inv (step s i).2) {s : σ} (hs : Inv s)
    {is : List ι} (his : ∀ i ∈ is, ok i) : Inv (final step s is) := by
  induction is generalizing s with
  | nil => exact hs
  | cons i is ih =>
      apply ih (hstep s i hs (his i List.mem_cons_self))
      intro j hj
      exact his j (List.mem_cons_of_mem _ hj)

theorem Process.run_append (p : Process σ ω) (events later : List (Event ι)) :
    p.run step save load (events ++ later) =
      (p.run step save load events).bind fun p' => p'.run step save load later := by
  induction events generalizing p with
  | nil => rfl
  | cons e es ih =>
      rw [List.cons_append, run, run]
      cases p.apply step save load e with
      | none => rfl
      | some p' => exact ih p'

theorem Process.run_singleton (p : Process σ ω) (e : Event ι) :
    p.run step save load [e] = p.apply step save load e := by
  rw [run]
  cases p.apply step save load e <;> rfl

/-- One event, from a process made of surviving inputs. -/
theorem Surviving.process_apply (hstep : ∀ s i, Inv s → ok i → Inv (step s i).2)
    (hload : ∀ s, Inv s → load (save s) = some s) {s : σ} (hs : Inv s) {h : Surviving ι}
    (hsaved : ∀ i ∈ h.saved, ok i) (e : Event ι) :
    (h.process step save s).apply step save load e =
      some ((h.apply e).process step save s) := by
  cases e with
  | input i => simp [Process.apply, Surviving.process, Surviving.apply, final_append, final]
  | save => rfl
  | crash =>
      have hinv : Inv (final step s h.saved) := final_invariant hstep hs hsaved
      simp [Process.apply, Surviving.process, Surviving.apply, hload _ hinv]

/-- The surviving inputs are among the inputs. -/
theorem Surviving.foldl_ok {events : List (Event ι)} (hevents : ∀ i, .input i ∈ events → ok i)
    {h : Surviving ι} (hlive : ∀ i ∈ h.live, ok i) (hsaved : ∀ i ∈ h.saved, ok i) :
    (∀ i ∈ (events.foldl apply h).live, ok i) ∧ ∀ i ∈ (events.foldl apply h).saved, ok i := by
  induction events generalizing h with
  | nil => exact ⟨hlive, hsaved⟩
  | cons e es ih =>
      have hrest : ∀ i, .input i ∈ es → ok i := by
        intro i hi
        exact hevents i (List.mem_cons_of_mem _ hi)
      cases e with
      | input i =>
          refine ih (h := h.apply (.input i)) hrest ?_ hsaved
          intro j hj
          rcases List.mem_append.mp hj with hold | hnew
          · exact hlive j hold
          · rw [List.mem_singleton.mp hnew]
            exact hevents i List.mem_cons_self
      | save => exact ih hrest hlive hlive
      | crash => exact ih hrest hsaved hsaved

theorem surviving_ok {events : List (Event ι)} (hevents : ∀ i, .input i ∈ events → ok i) :
    (∀ i ∈ (surviving events).live, ok i) ∧ ∀ i ∈ (surviving events).saved, ok i := by
  apply Surviving.foldl_ok hevents <;> simp

/-- No more inputs survive than there were events. -/
theorem surviving_length_le (events : List (Event ι)) :
    (surviving events).live.length ≤ events.length ∧
      (surviving events).saved.length ≤ events.length := by
  induction events using List.reverseRecOn with
  | nil => exact ⟨Nat.le_refl _, Nat.le_refl _⟩
  | append_singleton es e ih =>
      rw [surviving_append_singleton, List.length_append, List.length_singleton]
      cases e with
      | input i =>
          constructor
          · simpa [Surviving.apply] using ih.1
          · exact Nat.le_succ_of_le ih.2
      | save => exact ⟨Nat.le_succ_of_le ih.1, Nat.le_succ_of_le ih.1⟩
      | crash => exact ⟨Nat.le_succ_of_le ih.2, Nat.le_succ_of_le ih.2⟩

/-- A process that starts with its state written out is at any time what the
surviving inputs make of that state. -/
theorem Process.run_eq_surviving (hstep : ∀ s i, Inv s → ok i → Inv (step s i).2)
    (hload : ∀ s, Inv s → load (save s) = some s) {s : σ} (hs : Inv s)
    {events : List (Event ι)} (hevents : ∀ i, .input i ∈ events → ok i) :
    (⟨s, save s⟩ : Process σ ω).run step save load events =
      some ((surviving events).process step save s) := by
  induction events using List.reverseRecOn with
  | nil => rfl
  | append_singleton es e ih =>
      have hearlier : ∀ i, .input i ∈ es → ok i := by
        intro i hi
        exact hevents i (List.mem_append_left _ hi)
      have hsaved := (surviving_ok hearlier).2
      rw [Process.run_append, ih hearlier, Option.bind_some, Process.run_singleton,
        Surviving.process_apply hstep hload hs hsaved, surviving_append_singleton]

/-! ## What a crash loses -/

theorem surviving_inputs (h : Surviving ι) (is : List ι) :
    (is.map Event.input).foldl Surviving.apply h = { h with live := h.live ++ is } := by
  induction is generalizing h with
  | nil => simp
  | cons i is ih =>
      rw [List.map_cons, List.foldl_cons, ih]
      simp [Surviving.apply]

/-- A crash loses the inputs since the last save. -/
theorem surviving_lost (events : List (Event ι)) (lost : List ι) :
    surviving (events ++ .save :: (lost.map Event.input ++ [.crash])) =
      ⟨(surviving events).live, (surviving events).live⟩ := by
  simp [surviving, surviving_inputs, Surviving.apply]

end Checkpoint
