import Mathlib.Tactic.Common

/-!
# State machines and their invariants

A state machine has initial states, and for each state the events it accepts
and the state each of them leads to.  An invariant is proved once from the
initial states and one step; `Reachable.invariant` carries it to every run.

Main results:

- Theorem `Reachable.invariant`: an inductive invariant holds in every
  reachable state.
- Theorem `Reachable.of_restrict`: fewer accepted events reach fewer states.
- Theorem `Reachable.foldl`: a list of accepted events reaches the state after
  them.
- Theorem `Simulation.reachable`: a simulation carries the reachable states of
  one machine to those of another.
- Theorem `Matches.of_simulations`: simulations both ways make the reachable
  states of two machines counterparts of each other.
-/

/-- Initial states, accepted events and the transition function. -/
structure StateMachine (σ ι : Type) where
  init : σ → Prop
  accepts : σ → ι → Prop
  next : σ → ι → σ

namespace StateMachine

variable {σ ι : Type}

/-- States reached from an initial one by accepted events. -/
inductive Reachable (M : StateMachine σ ι) : σ → Prop where
  | init {s : σ} : M.init s → Reachable M s
  | step {s : σ} (i : ι) : Reachable M s → M.accepts s i → Reachable M (M.next s i)

/-- The invariant rule.  The step may use that its state is reachable. -/
theorem Reachable.invariant {M : StateMachine σ ι} (Inv : σ → Prop)
    (hinit : ∀ s, M.init s → Inv s)
    (hstep : ∀ s i, M.Reachable s → Inv s → M.accepts s i → Inv (M.next s i))
    {s : σ} (hs : M.Reachable s) : Inv s := by
  induction hs with
  | init h => exact hinit _ h
  | step i hprev hacc ih => exact hstep _ i hprev ih hacc

/-- The same machine with some of the accepted events left out. -/
def restrict (M : StateMachine σ ι) (p : σ → ι → Prop) : StateMachine σ ι where
  init := M.init
  accepts s i := M.accepts s i ∧ p s i
  next := M.next

/-- Every run of the restricted machine is a run of the machine. -/
theorem Reachable.of_restrict {M : StateMachine σ ι} {p : σ → ι → Prop} {s : σ}
    (hs : (M.restrict p).Reachable s) : M.Reachable s := by
  induction hs with
  | init h => exact .init h
  | step i _ hacc ih => exact .step i ih hacc.1

/-- Accepting more events reaches more states. -/
theorem Reachable.restrict_mono {M : StateMachine σ ι} {p q : σ → ι → Prop}
    (hpq : ∀ s i, p s i → q s i) {s : σ} (hs : (M.restrict p).Reachable s) :
    (M.restrict q).Reachable s := by
  induction hs with
  | init h => exact .init h
  | step i _ hacc ih => exact .step i ih ⟨hacc.1, hpq _ _ hacc.2⟩

/-! ## Lists of events -/

/-- Every event of the list is accepted where it comes. -/
def Accepted (M : StateMachine σ ι) : σ → List ι → Prop
  | _, [] => True
  | s, i :: is => M.accepts s i ∧ M.Accepted (M.next s i) is

instance {M : StateMachine σ ι} {p : σ → ι → Prop} {s : σ} {i : ι} [Decidable (M.accepts s i)]
    [Decidable (p s i)] : Decidable ((M.restrict p).accepts s i) :=
  inferInstanceAs (Decidable (_ ∧ _))

instance decidableAccepted {M : StateMachine σ ι} [∀ s i, Decidable (M.accepts s i)] :
    ∀ (s : σ) (is : List ι), Decidable (M.Accepted s is)
  | _, [] => inferInstanceAs (Decidable True)
  | s, i :: is =>
      have : Decidable (M.Accepted (M.next s i) is) := decidableAccepted (M.next s i) is
      inferInstanceAs (Decidable (_ ∧ _))

theorem Reachable.foldl {M : StateMachine σ ι} {s : σ} (hs : M.Reachable s) {is : List ι}
    (hacc : M.Accepted s is) : M.Reachable (is.foldl M.next s) := by
  induction is generalizing s with
  | nil => exact hs
  | cons i is ih => exact ih (hs.step i hacc.1) hacc.2

/-! ## Simulations -/

/-- Each step of the first machine is matched by one of the second, or by none. -/
structure Simulation {τ κ : Type} (M : StateMachine σ ι) (N : StateMachine τ κ)
    (R : σ → τ → Prop) : Prop where
  init : ∀ s, M.init s → ∃ t, N.init t ∧ R s t
  step : ∀ s t i, M.Reachable s → N.Reachable t → R s t → M.accepts s i →
    R (M.next s i) t ∨ ∃ k, N.accepts t k ∧ R (M.next s i) (N.next t k)

/-- Every reachable state has a reachable counterpart. -/
theorem Simulation.reachable {τ κ : Type} {M : StateMachine σ ι} {N : StateMachine τ κ}
    {R : σ → τ → Prop} (h : Simulation M N R) {s : σ} (hs : M.Reachable s) :
    ∃ t, N.Reachable t ∧ R s t := by
  induction hs with
  | init hinit =>
      rcases h.init _ hinit with ⟨t, ht, hR⟩
      exact ⟨t, .init ht, hR⟩
  | step i hs hacc ih =>
      rcases ih with ⟨t, ht, hR⟩
      rcases h.step _ t i hs ht hR hacc with hstutter | ⟨k, hk, hnext⟩
      · exact ⟨t, ht, hstutter⟩
      · exact ⟨_, ht.step k hk, hnext⟩

/-- Each reachable state of either machine has a counterpart that the other one
reaches. -/
structure Matches {τ κ : Type} (M : StateMachine σ ι) (N : StateMachine τ κ)
    (R : σ → τ → Prop) : Prop where
  forward : ∀ s, M.Reachable s → ∃ t, N.Reachable t ∧ R s t
  backward : ∀ t, N.Reachable t → ∃ s, M.Reachable s ∧ R s t

theorem Matches.of_simulations {τ κ : Type} {M : StateMachine σ ι} {N : StateMachine τ κ}
    {R : σ → τ → Prop} (h : Simulation M N R) (h' : Simulation N M fun t s => R s t) :
    Matches M N R where
  forward _ hs := h.reachable hs
  backward _ ht := h'.reachable ht

end StateMachine
