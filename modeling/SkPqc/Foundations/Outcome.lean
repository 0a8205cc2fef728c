import Mathlib.Data.Vector.Basic
import Mathlib.Tactic.Common

/-!
# Outcomes of partial calls

A call of a systems language ends in one of three ways: it returns a value, it
returns a typed error, or it panics.  `Outcome` keeps the three apart, so that
"never panics" is a statement about the code and not a property of the model.

Every library call with a precondition that the language checks at run time
(slicing, copying into a fixed-size array, `unwrap`, `expect`) has a
definition here whose violated precondition is `panic`.

Main results:

- Theorem `Outcome.bind_eq_ok_iff`: a sequence returns exactly when both parts
  return.
- Theorem `Outcome.bind_ne_panic_iff`: a sequence panics only where one of its
  parts does.
- Theorems `slice_append_left` and `slice_append_right`: slicing a
  concatenation at its seam.
-/

namespace Rust

/-- How a call ends: a value, a typed error, or a panic. -/
inductive Outcome (ε α : Type) where
  | ok (value : α)
  | err (error : ε)
  | panic
deriving DecidableEq, Repr

namespace Outcome

variable {ε ε' α β : Type}

/-- Sequencing: an error or a panic of the first call ends the whole. -/
protected def bind (x : Outcome ε α) (f : α → Outcome ε β) : Outcome ε β :=
  match x with
  | ok a => f a
  | err e => err e
  | panic => panic

instance : Monad (Outcome ε) where
  pure := ok
  bind := Outcome.bind

@[simp] theorem pure_eq (a : α) : (pure a : Outcome ε α) = ok a := rfl

@[simp] theorem ok_bind (a : α) (f : α → Outcome ε β) : (ok a >>= f) = f a := rfl

@[simp] theorem err_bind (e : ε) (f : α → Outcome ε β) :
    ((err e : Outcome ε α) >>= f) = err e := rfl

@[simp] theorem panic_bind (f : α → Outcome ε β) :
    ((panic : Outcome ε α) >>= f) = panic := rfl

instance : LawfulMonad (Outcome ε) := LawfulMonad.mk' _
  (by intro α x; cases x <;> rfl)
  (by intro α β a f; rfl)
  (by intro α β γ x f g; cases x <;> rfl)

/-- A sequence returns a value exactly when both of its parts do. -/
theorem bind_eq_ok_iff {x : Outcome ε α} {f : α → Outcome ε β} {b : β} :
    (x >>= f) = ok b ↔ ∃ a, x = ok a ∧ f a = ok b := by
  cases x <;> simp

/-- A sequence panics only if the first call does, or the second does on the
value the first returned. -/
theorem bind_ne_panic_iff {x : Outcome ε α} {f : α → Outcome ε β} :
    (x >>= f) ≠ panic ↔ x ≠ panic ∧ ∀ a, x = ok a → f a ≠ panic := by
  cases x <;> simp

/-- A refusing check passes and what follows it returns, or nothing does. -/
theorem guard_eq_ok_iff {c : Prop} [Decidable c] {e : ε} {x : Outcome ε α} {a : α} :
    (if c then err e else x) = ok a ↔ ¬ c ∧ x = ok a := by
  by_cases h : c
  · simp [h]
  · simp [h]

/-- A refusing check does not panic. -/
theorem guard_ne_panic_iff {c : Prop} [Decidable c] {e : ε} {x : Outcome ε α} :
    (if c then err e else x) ≠ panic ↔ (¬ c → x ≠ panic) := by
  by_cases h : c
  · simp [h]
  · simp [h]

/-- Whether a call panics is decidable for values of any type. -/
instance (priority := low) decidableEqPanic (x : Outcome ε α) : Decidable (x = panic) :=
  match x with
  | ok _ => isFalse nofun
  | err _ => isFalse nofun
  | panic => isTrue rfl

/-- Convert the error of a call, as the `?` operator and `map_err` do. -/
def mapErr (f : ε → ε') : Outcome ε α → Outcome ε' α
  | ok a => ok a
  | err e => err (f e)
  | panic => panic

@[simp] theorem mapErr_ok (f : ε → ε') (a : α) :
    (ok a : Outcome ε α).mapErr f = ok a := rfl

@[simp] theorem mapErr_err (f : ε → ε') (e : ε) :
    (err e : Outcome ε α).mapErr f = err (f e) := rfl

@[simp] theorem mapErr_panic (f : ε → ε') :
    (panic : Outcome ε α).mapErr f = panic := rfl

@[simp] theorem mapErr_eq_ok_iff {f : ε → ε'} {x : Outcome ε α} {a : α} :
    x.mapErr f = ok a ↔ x = ok a := by
  cases x <;> simp

@[simp] theorem mapErr_eq_panic_iff {f : ε → ε'} {x : Outcome ε α} :
    x.mapErr f = panic ↔ x = panic := by
  cases x <;> simp

/-- `Option::ok_or`: a missing value is the given error. -/
def okOr (e : ε) : Option α → Outcome ε α
  | some a => ok a
  | none => err e

@[simp] theorem okOr_some (e : ε) (a : α) : okOr e (some a) = ok a := rfl

@[simp] theorem okOr_none (e : ε) : (okOr e none : Outcome ε α) = err e := rfl

@[simp] theorem okOr_eq_ok_iff {e : ε} {o : Option α} {a : α} : okOr e o = ok a ↔ o = some a := by
  cases o <;> simp

theorem okOr_ne_panic (e : ε) (o : Option α) : okOr e o ≠ panic := by
  cases o <;> simp

/-- A call of a library function that returns a `Result`. -/
def ofExcept : Except ε α → Outcome ε α
  | .ok a => ok a
  | .error e => err e

@[simp] theorem ofExcept_ok (a : α) : ofExcept (.ok a : Except ε α) = ok a := rfl

theorem ofExcept_eq_ok_iff {x : Except ε α} {a : α} : ofExcept x = ok a ↔ x = .ok a := by
  cases x <;> simp [ofExcept]

/-- `Option::unwrap` and `Option::expect`: a missing value panics. -/
def unwrap : Option α → Outcome ε α
  | some a => ok a
  | none => panic

@[simp] theorem unwrap_some (a : α) : (unwrap (some a) : Outcome ε α) = ok a := rfl

/-- `Result::unwrap` and `Result::expect`: an error panics. -/
def expect : Outcome ε' α → Outcome ε α
  | ok a => ok a
  | err _ => panic
  | panic => panic

@[simp] theorem expect_ok (a : α) : (expect (ok a : Outcome ε' α) : Outcome ε α) = ok a := rfl

/-- `assert!`: a false condition panics. -/
def assert (c : Bool) : Outcome ε Unit :=
  if c then ok () else panic

@[simp] theorem assert_true : (assert true : Outcome ε Unit) = ok () := rfl

@[simp] theorem assert_false : (assert false : Outcome ε Unit) = panic := rfl

/-! ### Calls that do not panic -/

/-- The call does not panic, and a value it returns satisfies `Q`. -/
def Safe (x : Outcome ε α) (Q : α → Prop) : Prop :=
  x ≠ panic ∧ ∀ a, x = ok a → Q a

theorem Safe.ok {a : α} {Q : α → Prop} (h : Q a) : Safe (ok a : Outcome ε α) Q :=
  ⟨by simp, fun b hb => by cases hb; exact h⟩

theorem Safe.err (e : ε) (Q : α → Prop) : Safe (err e : Outcome ε α) Q :=
  ⟨by simp, fun b hb => by cases hb⟩

/-- The rule of sequencing: the second call may rely on what the first ensures. -/
theorem Safe.bind {x : Outcome ε α} {f : α → Outcome ε β} {Q : α → Prop} {R : β → Prop}
    (hx : Safe x Q) (hf : ∀ a, Q a → Safe (f a) R) : Safe (x >>= f) R := by
  cases x with
  | ok a => exact hf a (hx.2 a rfl)
  | err e => exact Safe.err e R
  | panic => exact absurd rfl hx.1

/-! ### Calls with one kind of error -/

/-- Every error of the call satisfies `E`. -/
def FailsOnly (x : Outcome ε α) (E : ε → Prop) : Prop := ∀ e, x = err e → E e

theorem FailsOnly.ok (a : α) (E : ε → Prop) : FailsOnly (ok a : Outcome ε α) E :=
  fun _ he => by cases he

theorem FailsOnly.panic (E : ε → Prop) : FailsOnly (panic : Outcome ε α) E :=
  fun _ he => by cases he

theorem FailsOnly.err {e : ε} {E : ε → Prop} (h : E e) : FailsOnly (err e : Outcome ε α) E :=
  fun _ he => by cases he; exact h

/-- A sequence fails as one of its parts does. -/
theorem FailsOnly.bind {x : Outcome ε α} {f : α → Outcome ε β} {E : ε → Prop}
    (hx : FailsOnly x E) (hf : ∀ a, FailsOnly (f a) E) : FailsOnly (x >>= f) E := by
  cases x with
  | ok a => exact hf a
  | err e => exact .err (hx e rfl)
  | panic => exact .panic E

end Outcome

/-! ## Slices and fixed-size arrays -/

section Slices

variable {ε α : Type}

/-- `&xs[start..stop]`, which panics unless `start ≤ stop ≤ len`. -/
def slice (xs : List α) (start stop : Nat) : Outcome ε (List α) :=
  if start ≤ stop ∧ stop ≤ xs.length then .ok ((xs.take stop).drop start) else .panic

/-- A slice whose bounds are in order returns the bytes between them. -/
theorem slice_eq_ok {xs : List α} {start stop : Nat}
    (hstart : start ≤ stop) (hstop : stop ≤ xs.length) :
    (slice xs start stop : Outcome ε (List α)) = .ok ((xs.take stop).drop start) := by
  simp [slice, hstart, hstop]

theorem slice_failsOnly (xs : List α) (start stop : Nat) (E : ε → Prop) :
    (slice xs start stop).FailsOnly E := by
  unfold slice
  split
  · exact .ok _ E
  · exact .panic E

/-- The slice before the seam of a concatenation is its left part. -/
theorem slice_append_left {xs ys : List α} {n : Nat} (hn : xs.length = n) :
    (slice (xs ++ ys) 0 n : Outcome ε (List α)) = .ok xs := by
  subst hn
  rw [slice_eq_ok (by omega) (by simp)]
  simp

/-- The slice from the seam to the end of a concatenation is its right part. -/
theorem slice_append_right {xs ys : List α} {n m : Nat}
    (hn : xs.length = n) (hm : n + ys.length = m) :
    (slice (xs ++ ys) n m : Outcome ε (List α)) = .ok ys := by
  subst hn hm
  rw [slice_eq_ok (by omega) (by simp), List.take_of_length_le (by simp)]
  simp

/-- The slice between the two seams of a concatenation is its middle part. -/
theorem slice_append_middle {xs ys zs : List α} {n m : Nat}
    (hn : xs.length = n) (hm : n + ys.length = m) :
    (slice (xs ++ ys ++ zs) n m : Outcome ε (List α)) = .ok ys := by
  have hlen : (xs ++ ys).length = m := by simp [← hm, hn]
  rw [slice_eq_ok (by omega) (by simp at hlen ⊢; omega),
    List.take_append_of_le_length hlen.ge, List.take_of_length_le hlen.le,
    ← hn, List.drop_left]

/-- `xs[i]`, which panics past the end. -/
def index (xs : List α) (i : Nat) : Outcome ε α := Outcome.unwrap xs[i]?

theorem index_failsOnly (xs : List α) (i : Nat) (E : ε → Prop) : (index xs i).FailsOnly E := by
  unfold index
  cases xs[i]? with
  | none => exact .panic E
  | some a => exact .ok a E

/-- `[T; n]`, an array whose length is part of its type. -/
abbrev Block (α : Type) (n : Nat) := List.Vector α n

theorem exists_block {xs : List α} {n : Nat} (h : xs.length = n) :
    ∃ b : Block α n, xs = b.toList :=
  ⟨⟨xs, h⟩, rfl⟩

theorem length_append_blocks {n m : Nat} (a : Block α n) (b : Block α m) :
    (a.toList ++ b.toList).length = n + m := by
  simp

/-- Every list of length `n + m` is an array of `n` elements followed by one of `m`. -/
theorem exists_blocks {xs : List α} {n m : Nat} (h : xs.length = n + m) :
    ∃ (a : Block α n) (b : Block α m), xs = a.toList ++ b.toList := by
  have htake : (xs.take n).length = n := by simp; omega
  have hdrop : (xs.drop n).length = m := by simp; omega
  exact ⟨⟨xs.take n, htake⟩, ⟨xs.drop n, hdrop⟩, (List.take_append_drop n xs).symm⟩

/-- Every list of length `n + m + k` is three arrays, one after the other. -/
theorem exists_three_blocks {xs : List α} {n m k : Nat} (h : xs.length = n + m + k) :
    ∃ (a : Block α n) (b : Block α m) (c : Block α k),
      xs = a.toList ++ b.toList ++ c.toList := by
  obtain ⟨front, c, rfl⟩ := exists_blocks h
  obtain ⟨a, b, hfront⟩ := exists_blocks front.toList_length
  exact ⟨a, b, c, by rw [hfront]⟩

/-- Conversions of a slice to `[T; n]` that panic on any other length:
`copy_from_slice`, `GenericArray::from_slice`, `try_into().unwrap()`. -/
def fromSlice (n : Nat) (xs : List α) : Outcome ε (Block α n) :=
  if h : xs.length = n then .ok ⟨xs, h⟩ else .panic

/-- `try_from` on a slice: an array of exactly `n` elements, or nothing. -/
def tryFromSlice (n : Nat) (xs : List α) : Option (Block α n) :=
  if h : xs.length = n then some ⟨xs, h⟩ else none

theorem fromSlice_of_length {n : Nat} {xs : List α} (h : xs.length = n) :
    (fromSlice n xs : Outcome ε (Block α n)) = .ok ⟨xs, h⟩ := by
  simp [fromSlice, h]

/-- Converting a slice of another length panics. -/
theorem fromSlice_of_length_ne {n : Nat} {xs : List α} (h : xs.length ≠ n) :
    (fromSlice n xs : Outcome ε (Block α n)) = .panic := by
  simp [fromSlice, h]

theorem fromSlice_failsOnly (n : Nat) (xs : List α) (E : ε → Prop) :
    (fromSlice n xs).FailsOnly E := by
  unfold fromSlice
  split
  · exact .ok _ E
  · exact .panic E

@[simp] theorem fromSlice_toList {n : Nat} (b : Block α n) :
    (fromSlice n b.toList : Outcome ε (Block α n)) = .ok b :=
  fromSlice_of_length b.toList_length

theorem fromSlice_eq_ok_iff {n : Nat} {xs : List α} {b : Block α n} :
    (fromSlice n xs : Outcome ε (Block α n)) = .ok b ↔ xs = b.toList := by
  constructor
  · intro h
    unfold fromSlice at h
    split at h
    · cases h
      rfl
    · cases h
  · rintro rfl
    exact fromSlice_toList b

theorem tryFromSlice_of_length {n : Nat} {xs : List α} (h : xs.length = n) :
    tryFromSlice n xs = some ⟨xs, h⟩ := by
  simp [tryFromSlice, h]

@[simp] theorem tryFromSlice_toList {n : Nat} (b : Block α n) :
    tryFromSlice n b.toList = some b :=
  tryFromSlice_of_length b.toList_length

end Slices

end Rust
