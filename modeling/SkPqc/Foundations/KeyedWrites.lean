import Mathlib.Data.List.Basic
import Mathlib.Tactic.Common

/-!
# Writes to a keyed store

A keyed store takes two kinds of writes: a `put` replaces what its key holds,
an `offer` fills its key only where that is vacant.  What a key holds after a
sequence of writes is read off the sequence, and for offers that agree the
sequence matters only as a set.

Main results:

- Theorem `run_apply`: a key holds its last put, else what it held, else its
  first offer.
- Theorem `run_eq_of_mem_iff`: two sequences of agreeing offers with the same
  members leave the same store.
-/

/-- A write of a value under a key. -/
inductive KeyedWrite (κ α : Type) where
  | put (key : κ) (value : α)
  | offer (key : κ) (value : α)
deriving DecidableEq

namespace KeyedWrite

variable {κ α : Type} [DecidableEq κ]

/-! ## One write -/

/-- What a write puts under a key. -/
def putAt (k : κ) : KeyedWrite κ α → Option α
  | put key value => if k = key then some value else none
  | offer _ _ => none

/-- What a write offers to a key. -/
def offerAt (k : κ) : KeyedWrite κ α → Option α
  | put _ _ => none
  | offer key value => if k = key then some value else none

/-- The store after a write. -/
def apply (m : κ → Option α) : KeyedWrite κ α → κ → Option α
  | put key value => fun k => if k = key then some value else m k
  | offer key value => fun k => if k = key then (m k).or (some value) else m k

theorem apply_eq (m : κ → Option α) (w : KeyedWrite κ α) (k : κ) :
    w.apply m k = (w.putAt k).or ((m k).or (w.offerAt k)) := by
  cases w with
  | put key value =>
      by_cases hk : k = key
      · simp [apply, putAt, hk]
      · simp [apply, putAt, offerAt, hk]
  | offer key value =>
      by_cases hk : k = key
      · simp [apply, putAt, offerAt, hk]
      · simp [apply, putAt, offerAt, hk]

theorem offerAt_eq_some_iff {w : KeyedWrite κ α} {k : κ} {a : α} :
    w.offerAt k = some a ↔ w = offer k a := by
  cases w with
  | put key value => simp [offerAt]
  | offer key value => simp [offerAt, eq_comm (a := k)]

theorem putAt_eq_some_iff {w : KeyedWrite κ α} {k : κ} {a : α} :
    w.putAt k = some a ↔ w = put k a := by
  cases w with
  | put key value => simp [putAt, eq_comm (a := k)]
  | offer key value => simp [putAt]

/-! ## Sequences of writes -/

/-- The store after a sequence of writes. -/
def run (m : κ → Option α) (ws : List (KeyedWrite κ α)) : κ → Option α := ws.foldl apply m

@[simp] theorem run_nil (m : κ → Option α) : run m [] = m := rfl

@[simp] theorem run_cons (m : κ → Option α) (w : KeyedWrite κ α) (ws : List (KeyedWrite κ α)) :
    run m (w :: ws) = run (w.apply m) ws := rfl

theorem run_append (m : κ → Option α) (ws ws' : List (KeyedWrite κ α)) :
    run m (ws ++ ws') = run (run m ws) ws' :=
  List.foldl_append

/-- The last value put under a key. -/
def lastPut (k : κ) (ws : List (KeyedWrite κ α)) : Option α := ws.reverse.findSome? (putAt k)

/-- The first value offered to a key. -/
def firstOffer (k : κ) (ws : List (KeyedWrite κ α)) : Option α := ws.findSome? (offerAt k)

@[simp] theorem lastPut_cons (k : κ) (w : KeyedWrite κ α) (ws : List (KeyedWrite κ α)) :
    lastPut k (w :: ws) = (lastPut k ws).or (w.putAt k) := by
  simp [lastPut, List.findSome?_append]

@[simp] theorem firstOffer_cons (k : κ) (w : KeyedWrite κ α) (ws : List (KeyedWrite κ α)) :
    firstOffer k (w :: ws) = (w.offerAt k).or (firstOffer k ws) := by
  unfold firstOffer
  rw [List.findSome?_cons]
  cases w.offerAt k with
  | none => rfl
  | some a => rfl

/-- A key holds its last put, else what it held, else its first offer. -/
theorem run_apply (m : κ → Option α) (ws : List (KeyedWrite κ α)) (k : κ) :
    run m ws k = (lastPut k ws).or ((m k).or (firstOffer k ws)) := by
  induction ws generalizing m with
  | nil => simp [lastPut, firstOffer]
  | cons w ws ih =>
      -- The put of the first write is older, its offer is earlier, than those of the rest.
      calc
        run m (w :: ws) k
          = (lastPut k ws).or ((w.apply m k).or (firstOffer k ws)) := ih _
        _ = (lastPut k ws).or
              (((w.putAt k).or ((m k).or (w.offerAt k))).or (firstOffer k ws)) := by
            rw [apply_eq]
        _ = (lastPut k (w :: ws)).or ((m k).or (firstOffer k (w :: ws))) := by
            simp only [lastPut_cons, firstOffer_cons, Option.or_assoc]

/-- The key that a write puts a value under. -/
def putKey : KeyedWrite κ α → Option κ
  | put key _ => some key
  | offer _ _ => none

/-- The keys that a sequence puts values under. -/
def putKeys (ws : List (KeyedWrite κ α)) : List κ := ws.filterMap putKey

theorem lastPut_eq_none {k : κ} {ws : List (KeyedWrite κ α)} (h : k ∉ putKeys ws) :
    lastPut k ws = none := by
  unfold lastPut
  rw [List.findSome?_eq_none_iff]
  intro w hw
  cases hput : w.putAt k with
  | none => rfl
  | some a =>
      have hkey : w = put k a := putAt_eq_some_iff.mp hput
      have hmem : k ∈ putKeys ws :=
        List.mem_filterMap.mpr ⟨w, List.mem_reverse.mp hw, by rw [hkey]; rfl⟩
      exact absurd hmem h

/-- Without a put under it, a key keeps what it holds. -/
theorem run_apply_of_notMem {m : κ → Option α} {ws : List (KeyedWrite κ α)} {k : κ} {a : α}
    (hput : k ∉ putKeys ws) (hm : m k = some a) : run m ws k = some a := by
  rw [run_apply, lastPut_eq_none hput, hm]
  rfl

/-! ## Offers that agree -/

/-- The writes are offers, and those to one key have one value. -/
structure Agreeing (ws : List (KeyedWrite κ α)) : Prop where
  offers : putKeys ws = []
  agree : ∀ k a b, offer k a ∈ ws → offer k b ∈ ws → a = b

/-- The first offer to a key is one of its offers. -/
theorem mem_of_firstOffer {ws : List (KeyedWrite κ α)} {k : κ} {a : α}
    (h : firstOffer k ws = some a) : offer k a ∈ ws := by
  rcases List.exists_of_findSome?_eq_some h with ⟨w, hw, hoffer⟩
  rw [← offerAt_eq_some_iff.mp hoffer]
  exact hw

/-- A key that is offered a value has a first offer. -/
theorem firstOffer_isSome {ws : List (KeyedWrite κ α)} {k : κ} {a : α} (h : offer k a ∈ ws) :
    (firstOffer k ws).isSome := by
  apply List.findSome?_isSome_iff.mpr
  refine ⟨offer k a, h, ?_⟩
  rw [offerAt_eq_some_iff.mpr rfl]
  rfl

/-- Where the offers agree, the first one to a key is the one there is. -/
theorem Agreeing.firstOffer_eq_some_iff {ws : List (KeyedWrite κ α)} (h : Agreeing ws) {k : κ}
    {a : α} : firstOffer k ws = some a ↔ offer k a ∈ ws := by
  constructor
  · exact mem_of_firstOffer
  · intro hmem
    rcases Option.isSome_iff_exists.mp (firstOffer_isSome hmem) with ⟨b, hb⟩
    rw [hb, h.agree k b a (mem_of_firstOffer hb) hmem]

/-- Agreeing offers leave the old value of a key, else the one that is offered. -/
theorem Agreeing.run_apply {ws : List (KeyedWrite κ α)} (h : Agreeing ws) (m : κ → Option α)
    (k : κ) : run m ws k = (m k).or (firstOffer k ws) := by
  have hput : k ∉ putKeys ws := by simp [h.offers]
  rw [KeyedWrite.run_apply, lastPut_eq_none hput]
  rfl

/-- Only the set of agreeing offers matters, not their order or multiplicity. -/
theorem run_eq_of_mem_iff {ws ws' : List (KeyedWrite κ α)} (h : Agreeing ws) (h' : Agreeing ws')
    (hsame : ∀ w, w ∈ ws ↔ w ∈ ws') (m : κ → Option α) : run m ws = run m ws' := by
  funext k
  have hfirst : firstOffer k ws = firstOffer k ws' := by
    ext a
    rw [h.firstOffer_eq_some_iff, h'.firstOffer_eq_some_iff, hsame]
  rw [h.run_apply, h'.run_apply, hfirst]

end KeyedWrite
