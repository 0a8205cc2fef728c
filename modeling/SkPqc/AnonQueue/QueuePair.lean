import SkPqc.AnonQueue.Address
import Mathlib.Algebra.GroupWithZero.Nat
import Mathlib.Logic.Equiv.Basic

/-!
# Queue pairs

This module embeds `new_queue_pair` of `anon_queue.rs`.  The generator is the
list of the ids it will fill in; `new_queue_pair` takes one for the recipient,
and then one after the other until there is one for the sender that differs.

Main results:

- Theorem `newQueuePairs_eq_some_iff`: which draws lead to which pairs; in
  particular the two ids of a pair always differ.
- Theorem `newQueuePair_isSome_iff`: the loop ends with the first draw that
  differs from the recipient id.
- Theorem `queue_pairs_independent`: of the draws of any length, as many lead to
  one sequence of pairs as to any other.
-/

namespace SkPqc
namespace AnonQueue

open Rust

/-! ## Drawing a pair -/

abbrev QueueId : Type := ByteBlock queueIdLen

/-- The sender id: drawn again while it is the recipient id. -/
def drawSenderId (recipientId : QueueId) : List QueueId → Option (QueueId × List QueueId)
  | [] => none
  | senderId :: rng =>
      if senderId = recipientId then drawSenderId recipientId rng else some (senderId, rng)

/-- One queue's recipient id and sender id, and what is left of the draws. -/
def newQueuePair : List QueueId → Option ((QueueId × QueueId) × List QueueId)
  | [] => none
  | recipientId :: rng =>
      (drawSenderId recipientId rng).map fun (senderId, rng) => ((recipientId, senderId), rng)

/-- Any number of pairs from one generator. -/
def newQueuePairs : Nat → List QueueId → Option (List (QueueId × QueueId) × List QueueId)
  | 0, rng => some ([], rng)
  | n + 1, rng => do
      let (pair, rng) ← newQueuePair rng
      let (pairs, rng) ← newQueuePairs n rng
      some (pair :: pairs, rng)

/-! ## The draws behind the pairs -/

theorem drawSenderId_eq_some_iff {recipientId senderId : QueueId} {rng rest : List QueueId} :
    drawSenderId recipientId rng = some (senderId, rest) ↔
      senderId ≠ recipientId ∧
        ∃ redraws, rng = List.replicate redraws recipientId ++ senderId :: rest := by
  induction rng with
  | nil => simp [drawSenderId]
  | cons id rng ih =>
      rw [drawSenderId]
      split
      · rename_i hid
        subst hid
        rw [ih]
        constructor
        · rintro ⟨hne, redraws, rfl⟩
          exact ⟨hne, redraws + 1, rfl⟩
        · rintro ⟨hne, redraws, hrng⟩
          cases redraws with
          | zero => exact absurd (List.cons.inj hrng).1.symm hne
          | succ redraws => exact ⟨hne, redraws, (List.cons.inj hrng).2⟩
      · rename_i hid
        constructor
        · intro h
          cases h
          exact ⟨hid, 0, rfl⟩
        · rintro ⟨_, redraws, hrng⟩
          cases redraws with
          | zero =>
              rcases List.cons.inj hrng with ⟨rfl, rfl⟩
              rfl
          | succ redraws => exact absurd (List.cons.inj hrng).1 hid

/-- The draws of one pair: the recipient id, its repetitions, the sender id. -/
def pairDraws (pair : QueueId × QueueId) (redraws : Nat) : List QueueId :=
  pair.1 :: (List.replicate redraws pair.1 ++ [pair.2])

theorem newQueuePair_eq_some_iff {rng rest : List QueueId} {pair : QueueId × QueueId} :
    newQueuePair rng = some (pair, rest) ↔
      pair.1 ≠ pair.2 ∧ ∃ redraws, rng = pairDraws pair redraws ++ rest := by
  rcases pair with ⟨recipientId, senderId⟩
  cases rng with
  | nil => simp [newQueuePair, pairDraws]
  | cons id rng =>
      simp only [newQueuePair, Option.map_eq_some_iff, Prod.exists, Prod.mk.injEq,
        drawSenderId_eq_some_iff, pairDraws]
      constructor
      · rintro ⟨_, _, ⟨hne, redraws, rfl⟩, ⟨rfl, rfl⟩, rfl⟩
        exact ⟨hne.symm, redraws, by simp⟩
      · rintro ⟨hne, redraws, hrng⟩
        rcases List.cons.inj hrng with ⟨rfl, hrng⟩
        exact ⟨senderId, rest, ⟨hne.symm, redraws, by simpa using hrng⟩, ⟨rfl, rfl⟩, rfl⟩

/-- The loop ends exactly when some later draw differs from the first one. -/
theorem newQueuePair_isSome_iff {recipientId : QueueId} {rng : List QueueId} :
    (newQueuePair (recipientId :: rng)).isSome ↔ ∃ id ∈ rng, id ≠ recipientId := by
  rw [newQueuePair, Option.isSome_map]
  induction rng with
  | nil => simp [drawSenderId]
  | cons id rng ih =>
      rw [drawSenderId]
      split
      · rename_i hid
        rw [ih]
        simp [hid]
      · rename_i hid
        simp [hid]

/-- The draws of a sequence of pairs, with the number of repetitions of each. -/
def queueDraws : List (QueueId × QueueId) → List Nat → List QueueId → List QueueId
  | pair :: pairs, redraws :: counts, rest =>
      pairDraws pair redraws ++ queueDraws pairs counts rest
  | _, _, rest => rest

/-- The pairs that some draws lead to: exactly those of two different ids, where
the draws have their ids in order and repeat only recipient ids. -/
theorem newQueuePairs_eq_some_iff {n : Nat} {rng rest : List QueueId}
    {pairs : List (QueueId × QueueId)} :
    newQueuePairs n rng = some (pairs, rest) ↔
      pairs.length = n ∧ (∀ pair ∈ pairs, pair.1 ≠ pair.2) ∧
        ∃ counts : List Nat, counts.length = n ∧ rng = queueDraws pairs counts rest := by
  induction n generalizing rng pairs with
  | zero =>
      simp only [newQueuePairs, Option.some.injEq, Prod.mk.injEq, List.length_eq_zero_iff]
      constructor
      · rintro ⟨rfl, rfl⟩
        exact ⟨rfl, by simp, [], rfl, rfl⟩
      · rintro ⟨rfl, -, counts, rfl, rfl⟩
        exact ⟨rfl, rfl⟩
  | succ n ih =>
      simp only [newQueuePairs, Option.bind_eq_bind, Option.bind_eq_some_iff, Prod.exists,
        Option.some.injEq, Prod.mk.injEq]
      constructor
      · rintro ⟨r, s, rng', hpair, pairs', rest', hmore, rfl, rfl⟩
        rcases newQueuePair_eq_some_iff.mp hpair with ⟨hne, redraws, rfl⟩
        rcases ih.mp hmore with ⟨hlen, hpairs, counts, hcounts, rfl⟩
        refine ⟨by simp [hlen], ?_, redraws :: counts, by simp [hcounts], rfl⟩
        intro pair hmem
        rcases List.mem_cons.mp hmem with rfl | hmem
        · exact hne
        · exact hpairs pair hmem
      · rintro ⟨hlen, hpairs, counts, hcounts, rfl⟩
        rcases List.exists_cons_of_length_eq_add_one hlen with ⟨⟨r, s⟩, pairs', rfl⟩
        rcases List.exists_cons_of_length_eq_add_one hcounts with ⟨redraws, counts', rfl⟩
        simp only [List.length_cons, Nat.add_right_cancel_iff] at hlen hcounts
        have hpair : newQueuePair (queueDraws ((r, s) :: pairs') (redraws :: counts') rest) =
            some ((r, s), queueDraws pairs' counts' rest) :=
          newQueuePair_eq_some_iff.mpr ⟨hpairs _ List.mem_cons_self, redraws, rfl⟩
        have hmore : newQueuePairs n (queueDraws pairs' counts' rest) = some (pairs', rest) := by
          refine ih.mpr ⟨hlen, ?_, counts', hcounts, rfl⟩
          intro pair hmem
          exact hpairs pair (List.mem_cons_of_mem _ hmem)
        exact ⟨r, s, _, hpair, pairs', rest, hmore, rfl, rfl⟩

/-! ## The pairs tell nothing about each other -/

theorem length_queueDraws {pairs : List (QueueId × QueueId)} {counts : List Nat}
    (hlen : pairs.length = counts.length) (rest : List QueueId) :
    (queueDraws pairs counts rest).length = 2 * counts.length + counts.sum + rest.length := by
  induction counts generalizing pairs with
  | nil => simp [queueDraws]
  | cons redraws counts ih =>
      rcases List.exists_cons_of_length_eq_add_one hlen with ⟨pair, pairs', rfl⟩
      simp only [List.length_cons, Nat.add_right_cancel_iff] at hlen
      simp only [queueDraws, List.length_append, ih hlen, pairDraws, List.length_cons,
        List.length_replicate, List.length_nil, List.sum_cons]
      omega

/-- Where the sender id differs, the number of repetitions can be read off. -/
theorem pairDraws_append_inj {pair : QueueId × QueueId} (hne : pair.1 ≠ pair.2) {k k' : Nat}
    {rest rest' : List QueueId} (h : pairDraws pair k ++ rest = pairDraws pair k' ++ rest') :
    k = k' ∧ rest = rest' := by
  induction k generalizing k' with
  | zero =>
      cases k' with
      | zero => simpa [pairDraws] using h
      | succ k' =>
          have hhead : pair.2 = pair.1 := by
            simp [pairDraws, List.replicate_succ] at h
            exact h.1
          exact absurd hhead.symm hne
  | succ k ih =>
      cases k' with
      | zero =>
          have hhead : pair.1 = pair.2 := by
            simp [pairDraws, List.replicate_succ] at h
            exact h.1
          exact absurd hhead hne
      | succ k' =>
          have htail : pairDraws pair k ++ rest = pairDraws pair k' ++ rest' := (List.cons.inj h).2
          rcases ih htail with ⟨rfl, rfl⟩
          exact ⟨rfl, rfl⟩

theorem queueDraws_inj {pairs : List (QueueId × QueueId)} (hpairs : ∀ pair ∈ pairs, pair.1 ≠ pair.2)
    {counts counts' : List Nat} (hcounts : counts.length = pairs.length)
    (hcounts' : counts'.length = pairs.length) {rest : List QueueId}
    (h : queueDraws pairs counts rest = queueDraws pairs counts' rest) : counts = counts' := by
  induction pairs generalizing counts counts' with
  | nil =>
      rw [List.length_eq_zero_iff.mp hcounts, List.length_eq_zero_iff.mp hcounts']
  | cons pair pairs ih =>
      rcases List.exists_cons_of_length_eq_add_one hcounts with ⟨redraws, rest₁, rfl⟩
      rcases List.exists_cons_of_length_eq_add_one hcounts' with ⟨redraws', rest₂, rfl⟩
      rcases pairDraws_append_inj (hpairs pair List.mem_cons_self) h with ⟨rfl, htail⟩
      simp only [List.length_cons, Nat.add_right_cancel_iff] at hcounts hcounts'
      have hlater : ∀ p ∈ pairs, p.1 ≠ p.2 := by
        intro p hp
        exact hpairs p (List.mem_cons_of_mem _ hp)
      rw [ih hlater hcounts hcounts' htail]

/-- The draws that lead to the given pairs and leave the given rest. -/
abbrev DrawsOf (pairs : List (QueueId × QueueId)) (rest : List QueueId) : Type :=
  { rng : List QueueId // newQueuePairs pairs.length rng = some (pairs, rest) }

/-- The numbers of repetitions, one for each pair. -/
abbrev Redraws (n : Nat) : Type := { counts : List Nat // counts.length = n }

def Redraws.congr {n m : Nat} (h : n = m) : Redraws n ≃ Redraws m :=
  Equiv.subtypeEquivRight fun counts => by rw [h]

section Draws

variable {pairs : List (QueueId × QueueId)} (hpairs : ∀ pair ∈ pairs, pair.1 ≠ pair.2)
  (rest : List QueueId)

/-- The draws with the given numbers of repetitions. -/
def drawsOf (counts : Redraws pairs.length) : DrawsOf pairs rest :=
  ⟨queueDraws pairs counts.1 rest,
    newQueuePairs_eq_some_iff.mpr ⟨rfl, hpairs, counts.1, counts.2, rfl⟩⟩

theorem drawsOf_bijective : Function.Bijective (drawsOf hpairs rest) := by
  constructor
  · rintro ⟨counts, hcounts⟩ ⟨counts', hcounts'⟩ h
    have hsame := queueDraws_inj hpairs hcounts hcounts' (congrArg Subtype.val h)
    exact Subtype.ext hsame
  · rintro ⟨rng, hrng⟩
    rcases newQueuePairs_eq_some_iff.mp hrng with ⟨-, -, counts, hcounts, rfl⟩
    exact ⟨⟨counts, hcounts⟩, rfl⟩

theorem length_drawsOf (counts : Redraws pairs.length) :
    (drawsOf hpairs rest counts).1.length =
      2 * pairs.length + counts.1.sum + rest.length := by
  rw [drawsOf, length_queueDraws counts.2.symm, counts.2]

end Draws

/-- Draws of one sequence of pairs correspond to draws of any other one of the
same length, without a change in the number of draws or in what is left; so a
recipient id says nothing about a sender id, nor one queue about another. -/
theorem queue_pairs_independent {pairs pairs' : List (QueueId × QueueId)}
    (hpairs : ∀ pair ∈ pairs, pair.1 ≠ pair.2) (hpairs' : ∀ pair ∈ pairs', pair.1 ≠ pair.2)
    (hlen : pairs.length = pairs'.length) (rest : List QueueId) :
    ∃ e : DrawsOf pairs rest ≃ DrawsOf pairs' rest, ∀ rng, (e rng).1.length = rng.1.length := by
  let e₁ := Equiv.ofBijective _ (drawsOf_bijective hpairs rest)
  let e₂ := Equiv.ofBijective _ (drawsOf_bijective hpairs' rest)
  refine ⟨e₁.symm.trans ((Redraws.congr hlen).trans e₂), ?_⟩
  intro rng
  rcases e₁.surjective rng with ⟨counts, rfl⟩
  have hsame : (Redraws.congr hlen counts).1 = counts.1 := rfl
  rw [Equiv.trans_apply, Equiv.symm_apply_apply, Equiv.trans_apply]
  change (drawsOf hpairs' rest _).1.length = (drawsOf hpairs rest counts).1.length
  rw [length_drawsOf, length_drawsOf, hsame]
  omega

/-- One queue of the ids 0 and 1, against one of the ids 5 and 0. -/
theorem queue_pairs_independent_sample :
    let a : QueueId := List.Vector.replicate 16 0
    let b : QueueId := List.Vector.replicate 16 1
    let c : QueueId := List.Vector.replicate 16 5
    ∃ e : DrawsOf [(a, b)] [] ≃ DrawsOf [(c, a)] [], ∀ rng, (e rng).1.length = rng.1.length := by
  intro a b c
  have hab : ∀ pair ∈ [(a, b)], pair.1 ≠ pair.2 := by
    intro pair hpair
    rw [List.mem_singleton.mp hpair]
    exact fun heq => absurd (congrArg List.Vector.head heq) (by decide)
  have hca : ∀ pair ∈ [(c, a)], pair.1 ≠ pair.2 := by
    intro pair hpair
    rw [List.mem_singleton.mp hpair]
    exact fun heq => absurd (congrArg List.Vector.head heq) (by decide)
  exact queue_pairs_independent hab hca rfl []

end AnonQueue
end SkPqc
