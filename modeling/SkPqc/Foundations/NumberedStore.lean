import Mathlib.Logic.Function.Basic
import Mathlib.Tactic.Common

/-!
# Numbered stores with two writers

Two parties number their own values `0, 1, 2, …` and keep each value under its
number.  A party also keeps the values it learned from the other one, under
the same numbers, so each number has one place for two values.  A value of its
own replaces whatever stood there; a learned one only fills a vacant place.

`Agrees s t` is what survives: past its own numbers, `s` holds values of `t`.

Main results:

- Theorems `Agrees.begin_left`, `Agrees.begin_right`, `Agrees.learn_left` and
  `Agrees.learn_right`: every operation of either party keeps the agreement.
-/

namespace NumberedStore

variable {α : Type}

/-- A store whose owner has used the numbers below `next`. -/
structure Store (α : Type) where
  entry : Nat → Option α
  next : Nat
  own : ∀ n < next, (entry n).isSome

namespace Store

/-- The store of a party that has neither begun nor learned. -/
def empty : Store α where
  entry _ := none
  next := 0
  own n hn := absurd hn (Nat.not_lt_zero n)

/-- The owner begins its next number with the value `a`. -/
def begin (s : Store α) (a : α) : Store α where
  entry := Function.update s.entry s.next (some a)
  next := s.next + 1
  own n hn := by
    by_cases h : n = s.next
    · simp [h]
    · rw [Function.update_of_ne h]
      exact s.own n (by omega)

/-- The owner learns the value `a` for the number `n`, if it has none there. -/
def learn (s : Store α) (n : Nat) (a : α) : Store α where
  entry m := if m = n ∧ s.entry n = none then some a else s.entry m
  next := s.next
  own m hm := by
    split
    · rfl
    · exact s.own m hm

theorem entry_begin_of_ne (s : Store α) (a : α) {n : Nat} (h : n ≠ s.next) :
    (s.begin a).entry n = s.entry n :=
  Function.update_of_ne h _ _

end Store

/-- `t` is a later state of the store `s`. -/
structure Extends (s t : Store α) : Prop where
  next : s.next ≤ t.next
  own : ∀ n < s.next, t.entry n = s.entry n
  isSome : ∀ n, (s.entry n).isSome → (t.entry n).isSome

theorem extends_begin (s : Store α) (a : α) : Extends s (s.begin a) where
  next := Nat.le_succ _
  own n hn := s.entry_begin_of_ne a (by omega)
  isSome n hn := by
    by_cases h : n = s.next
    · simp [Store.begin, h]
    · rwa [s.entry_begin_of_ne a h]

theorem extends_learn (s : Store α) (n : Nat) (a : α) : Extends s (s.learn n a) where
  next := Nat.le_refl _
  own m hm := by
    have hsome := s.own m hm
    simp only [Store.learn]
    rw [if_neg]
    rintro ⟨rfl, hvacant⟩
    simp [hvacant] at hsome
  isSome m hm := by
    simp only [Store.learn]
    split
    · rfl
    · exact hm

/-- Past the numbers of its owner, `s` holds values of `t`. -/
def Agrees (s t : Store α) : Prop :=
  ∀ n a, s.next ≤ n → s.entry n = some a → n < t.next ∧ t.entry n = some a

variable {s t : Store α}

theorem Agrees.empty (t : Store α) : Agrees Store.empty t := by
  intro n a _ hentry
  cases hentry

/-- The number the owner begins is its own from then on. -/
theorem Agrees.begin_left (h : Agrees s t) (a : α) : Agrees (s.begin a) t := by
  intro n b hnext hentry
  have hlt : s.next < n := hnext
  have hold : s.entry n = some b := by
    rwa [s.entry_begin_of_ne a (by omega)] at hentry
  exact h n b (by omega) hold

/-- A number the other party begins is past all it has handed over. -/
theorem Agrees.begin_right (h : Agrees s t) (a : α) : Agrees s (t.begin a) := by
  intro n b hnext hentry
  rcases h n b hnext hentry with ⟨hlt, hold⟩
  constructor
  · exact Nat.lt_succ_of_lt hlt
  · rw [t.entry_begin_of_ne a (by omega)]
    exact hold

/-- Learning a value of the other party keeps the agreement with it. -/
theorem Agrees.learn_left (h : Agrees s t) {n : Nat} {a : α} (hlt : n < t.next)
    (hvalue : t.entry n = some a) : Agrees (s.learn n a) t := by
  intro m b hnext hentry
  simp only [Store.learn] at hentry
  split at hentry
  · rename_i hfill
    cases hentry
    rw [hfill.1]
    exact ⟨hlt, hvalue⟩
  · exact h m b hnext hentry

/-- What the other party learns fills no place it has handed over. -/
theorem Agrees.learn_right (h : Agrees s t) (n : Nat) (a : α) : Agrees s (t.learn n a) := by
  intro m b hnext hentry
  rcases h m b hnext hentry with ⟨hlt, hold⟩
  refine ⟨hlt, ?_⟩
  simp only [Store.learn]
  rw [if_neg]
  · exact hold
  · rintro ⟨rfl, hvacant⟩
    rw [hold] at hvacant
    cases hvacant

end NumberedStore
