import Mathlib.Order.Lattice
import Mathlib.Data.List.Nodup
import Mathlib.Tactic.Common

/-!
# Sorting by a key

`sortOn key` sorts a list by a key of its elements.  Where no two elements share
a key the sorted list is strictly increasing, and a strictly increasing list is
determined by its elements: the order in which they came does not show.

Main results:

- Theorem `sortOn_pairwise_lt`: distinct keys sort strictly.
- Theorem `eq_of_perm_of_pairwise_lt`: strictly increasing lists of the same
  elements are equal.
- Theorem `filter_append_filter_not`: where a predicate never comes back once it
  fails, the elements that satisfy it are a prefix.
-/

namespace SortOn

variable {α κ : Type} [LinearOrder κ] {key : α → κ}

/-- A stable sort by a key. -/
def sortOn (key : α → κ) (l : List α) : List α := l.mergeSort fun a b => decide (key a ≤ key b)

theorem sortOn_perm (key : α → κ) (l : List α) : (sortOn key l).Perm l :=
  List.mergeSort_perm l _

theorem mem_sortOn {a : α} {l : List α} : a ∈ sortOn key l ↔ a ∈ l :=
  List.mem_mergeSort

theorem sortOn_pairwise_le (key : α → κ) (l : List α) :
    (sortOn key l).Pairwise fun a b => key a ≤ key b := by
  have hsorted : (sortOn key l).Pairwise fun a b => decide (key a ≤ key b) = true := by
    apply List.pairwise_mergeSort
    · intro a b c hab hbc
      rw [decide_eq_true_eq] at hab hbc ⊢
      exact le_trans hab hbc
    · intro a b
      rw [Bool.or_eq_true, decide_eq_true_eq, decide_eq_true_eq]
      exact le_total _ _
  exact hsorted.imp fun h => of_decide_eq_true h

/-- Distinct keys sort strictly. -/
theorem sortOn_pairwise_lt {l : List α} (h : (l.map key).Nodup) :
    (sortOn key l).Pairwise fun a b => key a < key b := by
  have hdistinct : ((sortOn key l).map key).Nodup :=
    ((sortOn_perm key l).map key).nodup_iff.mpr h
  have hne : (sortOn key l).Pairwise fun a b => key a ≠ key b := List.pairwise_map.mp hdistinct
  exact (sortOn_pairwise_le key l).imp₂ (fun a b hle hne => lt_of_le_of_ne hle hne) hne

/-- Strictly increasing lists of the same elements are equal. -/
theorem eq_of_perm_of_pairwise_lt {l l' : List α} (hl : l.Pairwise fun a b => key a < key b)
    (hl' : l'.Pairwise fun a b => key a < key b) (h : l.Perm l') : l = l' := by
  refine List.Perm.eq_of_pairwise ?_ hl hl' h
  intro a b _ _ hab hba
  exact absurd hab (lt_asymm hba)

/-- Where a predicate does not come back once it fails, what satisfies it is a
prefix. -/
theorem filter_append_filter_not {p : α → Bool} {l : List α}
    (h : l.Pairwise fun a b => p b = true → p a = true) :
    l.filter p ++ l.filter (fun a => !p a) = l := by
  induction l with
  | nil => rfl
  | cons a l ih =>
      rcases List.pairwise_cons.mp h with ⟨ha, hl⟩
      cases hpa : p a with
      | true =>
          rw [List.filter_cons_of_pos hpa, List.filter_cons_of_neg (by simp [hpa]),
            List.cons_append, ih hl]
      | false =>
          have hnone : l.filter p = [] := by
            apply List.filter_eq_nil_iff.mpr
            intro b hb hpb
            rw [ha b hb hpb] at hpa
            cases hpa
          have hrest := ih hl
          rw [hnone, List.nil_append] at hrest
          rw [List.filter_cons_of_neg (by simp [hpa]), List.filter_cons_of_pos (by simp [hpa]),
            hnone, List.nil_append, hrest]

end SortOn
