import SkPqc.Foundations.Outcome

/-!
# Traced index arithmetic

A traced call records the additions of indices and the slices that it makes,
next to its outcome.  Additions wrap at the width of `usize`.  Erasing the
record leaves the call itself; the rules for `InBounds` follow the sequence of
a program.

Main results:

- Theorem `outcome_bind`: erasing commutes with sequencing.
- Theorem `inBounds_bind_iff`: a sequence is in bounds when its first part is,
  and the second part is after every value of the first.
-/

namespace Rust

/-- One operation on indices. -/
inductive IndexOp where
  | add (a b : Nat)
  | slice (start stop len : Nat)
deriving DecidableEq, Repr

/-- The addition does not wrap, the slice lies within its bytes. -/
def IndexOp.InBounds (w : Nat) : IndexOp → Prop
  | add a b => a + b < 2 ^ w
  | slice start stop len => start ≤ stop ∧ stop ≤ len

/-- A call with the operations on indices that it made. -/
structure Traced (ε α : Type) where
  ops : List IndexOp
  outcome : Outcome ε α

namespace Traced

variable {ε α β : Type}

/-- Run two calls in sequence; after an error or a panic the second is not made. -/
def bind (x : Traced ε α) (f : α → Traced ε β) : Traced ε β :=
  match x.outcome with
  | .ok a => ⟨x.ops ++ (f a).ops, (f a).outcome⟩
  | .err e => ⟨x.ops, .err e⟩
  | .panic => ⟨x.ops, .panic⟩

instance : Monad (Traced ε) where
  pure a := ⟨[], .ok a⟩
  bind := bind

/-- A call that does nothing with indices. -/
def lift (x : Outcome ε α) : Traced ε α := ⟨[], x⟩

/-- `a + b`, unchecked. -/
def addIndex (w a b : Nat) : Traced ε Nat := ⟨[.add a b], .ok ((a + b) % 2 ^ w)⟩

/-- `&xs[start..stop]`. -/
def slice (xs : List α) (start stop : Nat) : Traced ε (List α) :=
  ⟨[.slice start stop xs.length], Rust.slice xs start stop⟩

/-! ## Erasing -/

@[simp] theorem outcome_pure (a : α) : (pure a : Traced ε α).outcome = .ok a := rfl

@[simp] theorem outcome_lift (x : Outcome ε α) : (lift x).outcome = x := rfl

@[simp] theorem outcome_addIndex (w a b : Nat) :
    (addIndex w a b : Traced ε Nat).outcome = .ok ((a + b) % 2 ^ w) := rfl

@[simp] theorem outcome_slice (xs : List α) (start stop : Nat) :
    (slice xs start stop : Traced ε (List α)).outcome = Rust.slice xs start stop := rfl

/-- Erasing commutes with sequencing. -/
@[simp] theorem outcome_bind (x : Traced ε α) (f : α → Traced ε β) :
    (x >>= f).outcome = x.outcome >>= fun a => (f a).outcome := by
  change (bind x f).outcome = _
  unfold bind
  cases x.outcome <;> rfl

/-- Sequencing is associative, with the records one after the other. -/
theorem bind_assoc {γ : Type} (x : Traced ε α) (f : α → Traced ε β) (g : β → Traced ε γ) :
    x >>= f >>= g = x >>= fun a => f a >>= g := by
  change bind (bind x f) g = bind x fun a => bind (f a) g
  obtain ⟨ops, outcome⟩ := x
  cases outcome with
  | ok a =>
      simp only [bind]
      cases (f a).outcome with
      | ok b => simp only [List.append_assoc]
      | err e => rfl
      | panic => rfl
  | err e => rfl
  | panic => rfl

@[simp] theorem outcome_ite (c : Prop) [Decidable c] (x y : Traced ε α) :
    (if c then x else y).outcome = if c then x.outcome else y.outcome := by
  split <;> rfl

/-! ## In bounds -/

/-- Every operation is in bounds, and the call does not panic. -/
def InBounds (w : Nat) (x : Traced ε α) : Prop :=
  (∀ op ∈ x.ops, op.InBounds w) ∧ x.outcome ≠ .panic

variable {w : Nat}

theorem inBounds_pure (a : α) : (pure a : Traced ε α).InBounds w := by
  constructor
  · intro op hop
    exact absurd hop List.not_mem_nil
  · simp

theorem inBounds_lift_iff {x : Outcome ε α} : (lift x).InBounds w ↔ x ≠ .panic := by
  unfold InBounds lift
  simp

/-- An error that touches no index. -/
theorem inBounds_lift_err (e : ε) : (lift (.err e) : Traced ε α).InBounds w := by
  rw [inBounds_lift_iff]
  simp

theorem inBounds_addIndex_iff {a b : Nat} :
    (addIndex w a b : Traced ε Nat).InBounds w ↔ a + b < 2 ^ w := by
  simp [InBounds, addIndex, IndexOp.InBounds]

theorem inBounds_slice_iff {xs : List α} {start stop : Nat} :
    (slice xs start stop : Traced ε (List α)).InBounds w ↔ start ≤ stop ∧ stop ≤ xs.length := by
  simp only [InBounds, slice, IndexOp.InBounds, List.mem_singleton, forall_eq, and_iff_left_iff_imp]
  rintro ⟨hstart, hstop⟩
  rw [slice_eq_ok hstart hstop]
  simp

/-- A sequence is in bounds when both of its parts are. -/
theorem inBounds_bind_iff {x : Traced ε α} {f : α → Traced ε β} :
    (x >>= f).InBounds w ↔ x.InBounds w ∧ ∀ a, x.outcome = .ok a → (f a).InBounds w := by
  change (bind x f).InBounds w ↔ _
  unfold bind InBounds
  cases x.outcome with
  | ok a =>
      simp only [List.mem_append, Outcome.ok.injEq, ne_eq, reduceCtorEq, not_false_eq_true,
        and_true, forall_eq']
      constructor
      · rintro ⟨hops, hpanic⟩
        exact ⟨fun op hop => hops op (.inl hop), fun op hop => hops op (.inr hop), hpanic⟩
      · rintro ⟨hfirst, hsecond, hpanic⟩
        exact ⟨fun op hop => hop.elim (hfirst op) (hsecond op), hpanic⟩
  | err e => simp
  | panic => simp

theorem inBounds_ite {c : Prop} [Decidable c] {x y : Traced ε α} :
    (if c then x else y).InBounds w ↔ (c → x.InBounds w) ∧ (¬ c → y.InBounds w) := by
  by_cases h : c
  · simp [h]
  · simp [h]

/-- After a check that refuses, the rest decides. -/
theorem inBounds_guard {c : Prop} [Decidable c] {e : ε} {x : Traced ε α} :
    (if c then lift (.err e) else x).InBounds w ↔ (¬ c → x.InBounds w) := by
  rw [inBounds_ite, and_iff_right]
  intro _
  exact inBounds_lift_err e

/-- After a slice in bounds, the rest decides, whatever the bytes of the slice. -/
theorem inBounds_slice_bind {xs : List α} {start stop : Nat} {f : List α → Traced ε β}
    (hstart : start ≤ stop) (hstop : stop ≤ xs.length)
    (h : ∀ part, part.length = stop - start → (f part).InBounds w) :
    (slice xs start stop >>= f).InBounds w := by
  rw [inBounds_bind_iff, inBounds_slice_iff]
  refine ⟨⟨hstart, hstop⟩, ?_⟩
  intro part hpart
  rw [outcome_slice, slice_eq_ok hstart hstop, Outcome.ok.injEq] at hpart
  apply h
  rw [← hpart, List.length_drop, List.length_take, Nat.min_eq_left hstop]

/-- After an error nothing is left to do. -/
theorem inBounds_lift_err_bind (e : ε) {f : α → Traced ε β} :
    (lift (.err e) >>= f).InBounds w := by
  rw [inBounds_bind_iff]
  refine ⟨inBounds_lift_err e, ?_⟩
  intro a ha
  cases ha

/-- After a call that neither fails nor touches indices, the rest decides. -/
theorem inBounds_lift_ok_bind {a : α} {f : α → Traced ε β} :
    (lift (.ok a) >>= f).InBounds w ↔ (f a).InBounds w := by
  rw [inBounds_bind_iff, inBounds_lift_iff]
  simp

end Traced

end Rust
