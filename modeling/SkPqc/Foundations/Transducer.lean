import Mathlib.Data.List.Basic
import Mathlib.Tactic.Common

/-!
# Transducers and idle inputs

A transducer answers every input with an output and moves to a next state.  An
input is idle where its output says that the state stayed as it was; taking the
idle inputs out of a sequence takes their outputs out and nothing else.

Main results:

- Theorem `outputs_dropIdle`: without the idle inputs, the outputs are the
  others, in their order.
- Theorem `final_dropIdle`: the final state is the same.
-/

namespace Transducer

variable {σ ι ο : Type} (step : σ → ι → ο × σ) (idle : ο → Bool)

/-- The outputs along a sequence of inputs. -/
def outputs : σ → List ι → List ο
  | _, [] => []
  | s, i :: is => (step s i).1 :: outputs (step s i).2 is

/-- The state after a sequence of inputs. -/
def final : σ → List ι → σ
  | s, [] => s
  | s, i :: is => final (step s i).2 is

/-- The inputs that are not idle where they come. -/
def dropIdle : σ → List ι → List ι
  | _, [] => []
  | s, i :: is =>
      if idle (step s i).1 then dropIdle (step s i).2 is else i :: dropIdle (step s i).2 is

variable {step idle}

/-! ## Sequences one after the other -/

theorem final_append (s : σ) (is js : List ι) :
    final step s (is ++ js) = final step (final step s is) js := by
  induction is generalizing s with
  | nil => rfl
  | cons i is ih => exact ih (step s i).2

theorem outputs_append (s : σ) (is js : List ι) :
    outputs step s (is ++ js) = outputs step s is ++ outputs step (final step s is) js := by
  induction is generalizing s with
  | nil => rfl
  | cons i is ih => simp [outputs, final, ih]

theorem length_outputs (s : σ) (is : List ι) : (outputs step s is).length = is.length := by
  induction is generalizing s with
  | nil => rfl
  | cons i is ih => exact congrArg Nat.succ (ih (step s i).2)

theorem outputs_take (s : σ) (is : List ι) (n : Nat) :
    outputs step s (is.take n) = (outputs step s is).take n := by
  induction is generalizing s n with
  | nil => simp [outputs]
  | cons i is ih =>
      cases n with
      | zero => rfl
      | succ n => exact congrArg _ (ih (step s i).2 n)

/-- The output at a place is that of the input there, in the state the earlier
inputs lead to. -/
theorem getElem?_outputs (s : σ) (is : List ι) (n : Nat) :
    (outputs step s is)[n]? = is[n]?.map fun i => (step (final step s (is.take n)) i).1 := by
  induction is generalizing s n with
  | nil => rfl
  | cons i is ih =>
      cases n with
      | zero => rfl
      | succ n => exact ih (step s i).2 n

/-! ## Idle inputs -/

/-- Without the idle inputs, the outputs are the others. -/
theorem outputs_dropIdle (h : ∀ s i, idle (step s i).1 → (step s i).2 = s) (s : σ) (is : List ι) :
    outputs step s (dropIdle step idle s is) =
      (outputs step s is).filter fun o => !idle o := by
  induction is generalizing s with
  | nil => rfl
  | cons i is ih =>
      simp only [dropIdle, outputs]
      split
      · rename_i hidle
        rw [List.filter_cons_of_neg (by simp [hidle]), ← ih, h s i hidle]
      · rename_i hactive
        rw [List.filter_cons_of_pos (by simp [hactive]), outputs, ih]

/-- The final state is the same. -/
theorem final_dropIdle (h : ∀ s i, idle (step s i).1 → (step s i).2 = s) (s : σ) (is : List ι) :
    final step s (dropIdle step idle s is) = final step s is := by
  induction is generalizing s with
  | nil => rfl
  | cons i is ih =>
      simp only [dropIdle, final]
      split
      · rename_i hidle
        rw [← ih, h s i hidle]
      · rw [final, ih]

end Transducer
