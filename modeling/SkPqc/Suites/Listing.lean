import SkPqc.Suites
import SkPqc.Foundations.SortOn
import Mathlib.Data.List.Induction
import Mathlib.Data.Prod.Lex
import Mathlib.Data.String.Basic

/-!
# Listing the registry

The registry is a hash map, whose iteration order is unspecified: it is an
argument of the listing.  Two suites never share an id, and the id is part of
the sort key, so the order of the listing is strict and forgets the iteration.

Main results:

- Theorem `getSuite_registered`: the entry of an id is the last suite
  registered under it.
- Theorem `listing_function_of_contents`: the listing holds these entries in
  strict order, depends on them only, and starts with the active ones.
-/

namespace SkPqc
namespace Registry

open SortOn

/-- One iteration over the values of the map. -/
structure Iteration (r : Registry) where
  values : List CryptoSuite
  perm : values.Perm (r.byId.toList.map Prod.snd)

/-- The sort key `(!active, status.as_str(), suite_id)`, compared as a tuple. -/
def listingKey (s : CryptoSuite) : Bool ×ₗ String ×ₗ String :=
  toLex (!s.active, toLex (s.status.asStr, s.suiteId))

/-- All registered suites in a stable order. -/
def allSuites {r : Registry} (it : Iteration r) : List CryptoSuite := sortOn listingKey it.values

/-- The suites wired into running code, in the same order. -/
def activeSuites {r : Registry} (it : Iteration r) : List CryptoSuite :=
  (allSuites it).filter (·.active)

/-- The registry after a sequence of registrations. -/
def registered (suites : List CryptoSuite) : Registry := suites.foldl register empty

/-- The last suite registered under an id. -/
def lastUnder (suites : List CryptoSuite) (suiteId : String) : Option CryptoSuite :=
  (suites.filter fun s => s.suiteId = suiteId).getLast?

/-! ## Contents -/

/-- The entry of an id is the last suite registered under it. -/
theorem getSuite_registered (suites : List CryptoSuite) (suiteId : String) :
    (registered suites).getSuite suiteId = lastUnder suites suiteId := by
  induction suites using List.reverseRecOn with
  | nil => exact getSuite_empty suiteId
  | append_singleton suites s ih =>
      have hstep : registered (suites ++ [s]) = (registered suites).register s := by
        simp [registered]
      rw [hstep, getSuite_register, lastUnder, List.filter_append]
      by_cases hid : suiteId = s.suiteId
      · rw [if_pos hid, List.filter_cons_of_pos (by simp [hid]), List.filter_nil,
          List.getLast?_concat]
      · rw [if_neg hid, List.filter_cons_of_neg (by simpa using Ne.symm hid), List.filter_nil,
          List.append_nil, ih, lastUnder]

/-- A suite is registered under its own id. -/
theorem suiteId_of_getSuite {suites : List CryptoSuite} {suiteId : String} {s : CryptoSuite}
    (h : (registered suites).getSuite suiteId = some s) : s.suiteId = suiteId := by
  rw [getSuite_registered] at h
  have hmem := List.mem_filter.mp (List.mem_of_getLast? h)
  simpa using hmem.2

variable {suites : List CryptoSuite} (it : Iteration (registered suites))

/-- An iteration meets the entries. -/
theorem mem_values_iff (s : CryptoSuite) :
    s ∈ it.values ↔ (registered suites).getSuite s.suiteId = some s := by
  rw [it.perm.mem_iff, List.mem_map]
  constructor
  · rintro ⟨⟨suiteId, s'⟩, hentry, rfl⟩
    have hget : (registered suites).getSuite suiteId = some s' :=
      Std.ExtTreeMap.mem_toList_iff_getElem?_eq_some.mp hentry
    rwa [suiteId_of_getSuite hget]
  · intro hget
    exact ⟨(s.suiteId, s), Std.ExtTreeMap.mem_toList_iff_getElem?_eq_some.mpr hget, rfl⟩

/-- An iteration meets every id once. -/
theorem nodup_suiteIds : (it.values.map CryptoSuite.suiteId).Nodup := by
  apply ((it.perm.map CryptoSuite.suiteId).nodup_iff).mpr
  have hkeys : (registered suites).byId.toList.Pairwise fun a b => a.2.suiteId ≠ b.2.suiteId := by
    refine Std.ExtTreeMap.distinct_keys_toList.imp_of_mem fun {a b} ha hb hne => ?_
    have ha' := suiteId_of_getSuite (Std.ExtTreeMap.mem_toList_iff_getElem?_eq_some.mp ha)
    have hb' := suiteId_of_getSuite (Std.ExtTreeMap.mem_toList_iff_getElem?_eq_some.mp hb)
    rw [ha', hb']
    exact fun heq => hne (Std.LawfulEqOrd.compare_eq_iff_eq.mpr heq)
  rw [List.map_map]
  exact List.pairwise_map.mpr hkeys

/-! ## Order -/

theorem suiteId_of_listingKey {s t : CryptoSuite} (h : listingKey s = listingKey t) :
    s.suiteId = t.suiteId := by
  have hpair := toLex.injective h
  have hinner := toLex.injective (congrArg Prod.snd hpair)
  exact congrArg Prod.snd hinner

/-- The listing is strictly ordered. -/
theorem allSuites_pairwise_lt : (allSuites it).Pairwise fun s t => listingKey s < listingKey t := by
  apply sortOn_pairwise_lt
  have hids := List.pairwise_map.mp (nodup_suiteIds it)
  exact List.pairwise_map.mpr (hids.imp fun hne heq => hne (suiteId_of_listingKey heq))

/-- In a strict order, no active suite follows an inactive one. -/
theorem active_of_listingKey_lt {s t : CryptoSuite} (h : listingKey s < listingKey t)
    (ht : t.active = true) : s.active = true := by
  rcases Prod.Lex.toLex_lt_toLex.mp h with hlt | ⟨heq, _⟩
  · rw [ht] at hlt
    exact absurd hlt (by simp)
  · simpa [ht] using heq

/-- What a listing shows of a sequence of registrations. -/
structure Lists (suites all active : List CryptoSuite) : Prop where
  /-- No id has two entries. -/
  distinct : (all.map CryptoSuite.suiteId).Nodup
  /-- The entry of an id is the suite registered last under it. -/
  entries : ∀ s, s ∈ all ↔ lastUnder suites s.suiteId = some s
  strict : all.Pairwise fun s t => listingKey s < listingKey t
  /-- The active suites are the prefix before the first inactive one. -/
  active_prefix : ∃ inactive, all = active ++ inactive ∧
    (∀ s ∈ active, s.active = true) ∧ ∀ s ∈ inactive, s.active = false

theorem lists_registered : Lists suites (allSuites it) (activeSuites it) where
  distinct :=
    (((sortOn_perm listingKey it.values).map CryptoSuite.suiteId).nodup_iff).mpr (nodup_suiteIds it)
  entries s := by
    rw [← getSuite_registered]
    exact mem_sortOn.trans (mem_values_iff it s)
  strict := allSuites_pairwise_lt it
  active_prefix := by
    have hsplit := filter_append_filter_not (p := CryptoSuite.active)
      ((allSuites_pairwise_lt it).imp fun hlt hactive => active_of_listingKey_lt hlt hactive)
    refine ⟨(allSuites it).filter (fun s => !s.active), hsplit.symm, ?_, ?_⟩
    · intro s hs
      exact (List.mem_filter.mp hs).2
    · intro s hs
      simpa using (List.mem_filter.mp hs).2

/-- Two listings of the same entries are equal. -/
theorem Lists.unique {suites suites' all all' active active' : List CryptoSuite}
    (h : Lists suites all active) (h' : Lists suites' all' active')
    (hsame : ∀ suiteId, lastUnder suites suiteId = lastUnder suites' suiteId) : all = all' := by
  apply eq_of_perm_of_pairwise_lt h.strict h'.strict
  apply (List.perm_ext_iff_of_nodup h.distinct.of_map h'.distinct.of_map).mpr
  intro s
  rw [h.entries, h'.entries, hsame]

/-- The listing is a function of the final entries, whatever the registrations
before them and the iterations over the map. -/
theorem listing_function_of_contents :
    (∀ suites (it : Iteration (registered suites)),
      Lists suites (allSuites it) (activeSuites it)) ∧
    ∀ suites suites' (it : Iteration (registered suites)) (it' : Iteration (registered suites')),
      (∀ suiteId, lastUnder suites suiteId = lastUnder suites' suiteId) →
        allSuites it = allSuites it' := by
  constructor
  · intro suites it
    exact lists_registered it
  · intro suites suites' it it' hsame
    exact (lists_registered it).unique (lists_registered it') hsame

end Registry
end SkPqc
