import Mathlib.Data.Prod.Lex
import Mathlib.Data.List.Chain
import Mathlib.Data.Finset.Card

/-!
# Counters in rounds

A counter in rounds numbers its values by pairs `(round, position)`: the next
value has the next position of the same round, or position 0 of the next
round.  Order and length of a sequence follow from that one-step relation.

Main results:

- Theorem `pairwise_lt_of_isChain`: the values of a run increase
  lexicographically.
- Theorem `length_filter_round_le`: a round whose positions stay below `n` has
  at most `n` values.
-/

namespace RoundCounter

/-- `b` is the value that follows `a`. -/
def Next (a b : Nat × Nat) : Prop :=
  (b.1 = a.1 ∧ b.2 = a.2 + 1) ∨ (b.1 = a.1 + 1 ∧ b.2 = 0)

theorem Next.lt {a b : Nat × Nat} (h : Next a b) : toLex a < toLex b := by
  rw [Prod.Lex.toLex_lt_toLex]
  rcases h with ⟨hround, hpos⟩ | ⟨hround, _⟩
  · right
    constructor <;> omega
  · left
    omega

/-- A run of the counter increases lexicographically. -/
theorem pairwise_lt_of_isChain {l : List (Nat × Nat)} (h : l.IsChain Next) :
    l.Pairwise fun a b => toLex a < toLex b := by
  have hlt : l.IsChain fun a b => toLex a < toLex b := h.imp fun _ _ hab => hab.lt
  have htrans : IsTrans (Nat × Nat) fun a b => toLex a < toLex b := ⟨fun _ _ _ => lt_trans⟩
  exact List.isChain_iff_pairwise.mp hlt

/-- A round whose positions stay below `n` has at most `n` values. -/
theorem length_filter_round_le {l : List (Nat × Nat)} {n : Nat} (r : Nat)
    (hlt : l.Pairwise fun a b => toLex a < toLex b) (hpos : ∀ a ∈ l, a.2 < n) :
    (l.filter (·.1 = r)).length ≤ n := by
  have hmem : ∀ a ∈ l.filter (·.1 = r), a ∈ l ∧ a.1 = r := by
    intro a ha
    simpa using List.mem_filter.mp ha
  have hnodup : ((l.filter (·.1 = r)).map Prod.snd).Nodup := by
    refine List.pairwise_map.mpr ?_
    refine (hlt.filter _).imp_of_mem fun {a b} ha hb hab heq => ?_
    rw [Prod.Lex.toLex_lt_toLex, (hmem a ha).2, (hmem b hb).2, heq] at hab
    rcases hab with hlt' | ⟨_, hlt'⟩ <;> exact lt_irrefl _ hlt'
  have hsub : ((l.filter (·.1 = r)).map Prod.snd).toFinset ⊆ Finset.range n := by
    intro i hi
    rcases List.mem_map.mp (List.mem_toFinset.mp hi) with ⟨a, ha, rfl⟩
    exact Finset.mem_range.mpr (hpos a (hmem a ha).1)
  calc (l.filter (·.1 = r)).length
      = ((l.filter (·.1 = r)).map Prod.snd).toFinset.card := by
        rw [List.toFinset_card_of_nodup hnodup, List.length_map]
    _ ≤ (Finset.range n).card := Finset.card_le_card hsub
    _ = n := Finset.card_range n

end RoundCounter
