import SkPqc.Foundations.JsonParser
import SkPqc.Foundations.SortOn
import Mathlib.Data.String.Basic

/-!
# Members in any order

The members of a JSON object have distinct keys and no order.  `Same` is
equality of values up to that order, and `sorted` puts the members of every
object in key order.

Main results:

- Theorems `Same.symm` and `Same.trans`: `Same` goes both ways and composes.
- Theorem `Formed.eq_of_same`: among the values whose members are in order,
  `Same` is equality.
- Theorems `Keyed.formed_sorted` and `Keyed.sorted_same`: `sorted` is such a
  value, the same as the one it was made from.
-/

namespace Json

open SortOn

variable {φ : Type}

namespace Value

/-- A value whose numbers satisfy `numbers` and whose objects have distinct
keys. -/
inductive Keyed (numbers : Number φ → Prop) : Value φ → Prop
  | null : Keyed numbers .null
  | bool (b : Bool) : Keyed numbers (.bool b)
  | number {n : Number φ} (h : numbers n) : Keyed numbers (.number n)
  | string (s : String) : Keyed numbers (.string s)
  | array {items : List (Value φ)} (h : ∀ v ∈ items, Keyed numbers v) :
      Keyed numbers (.array items)
  | object {members : List (String × Value φ)} (distinct : (members.map Prod.fst).Nodup)
      (h : ∀ m ∈ members, Keyed numbers m.2) : Keyed numbers (.object members)

/-- Equal up to the order of members. -/
inductive Same : Value φ → Value φ → Prop
  | null : Same .null .null
  | bool (b : Bool) : Same (.bool b) (.bool b)
  | number (n : Number φ) : Same (.number n) (.number n)
  | string (s : String) : Same (.string s) (.string s)
  | array {items items' : List (Value φ)} (length : items.length = items'.length)
      (h : ∀ (i : Nat) u v, items[i]? = some u → items'[i]? = some v → Same u v) :
      Same (.array items) (.array items')
  | object {members members' : List (String × Value φ)}
      (keys : ∀ k, k ∈ members.map Prod.fst ↔ k ∈ members'.map Prod.fst)
      (h : ∀ k u v, (k, u) ∈ members → (k, v) ∈ members' → Same u v) :
      Same (.object members) (.object members')

mutual

/-- The members of every object in key order. -/
def sorted : Value φ → Value φ
  | .null => .null
  | .bool b => .bool b
  | .number n => .number n
  | .string s => .string s
  | .array items => .array (sortedItems items)
  | .object members => .object (sortOn Prod.fst (sortedMembers members))

def sortedItems : List (Value φ) → List (Value φ)
  | [] => []
  | v :: rest => v.sorted :: sortedItems rest

def sortedMembers : List (String × Value φ) → List (String × Value φ)
  | [] => []
  | (k, v) :: rest => (k, v.sorted) :: sortedMembers rest

end

theorem sortedItems_eq_map (items : List (Value φ)) : sortedItems items = items.map sorted := by
  induction items with
  | nil => rfl
  | cons v rest ih => rw [sortedItems, ih, List.map_cons]

theorem sortedMembers_eq_map (members : List (String × Value φ)) :
    sortedMembers members = members.map fun m => (m.1, m.2.sorted) := by
  induction members with
  | nil => rfl
  | cons m rest ih => rw [sortedMembers, ih, List.map_cons]

/-! ## Equality up to order -/

section Members

variable {α : Type} {members members' : List (String × α)}

/-- Distinct keys leave no choice of the value under one of them. -/
theorem eq_of_mem_of_mem (distinct : (members.map Prod.fst).Nodup) {k : String} {a b : α}
    (ha : (k, a) ∈ members) (hb : (k, b) ∈ members) : a = b :=
  congrArg Prod.snd (List.inj_on_of_nodup_map distinct ha hb rfl)

theorem nodup_keys_of_sorted (h : members.Pairwise fun a b => a.1 < b.1) :
    (members.map Prod.fst).Nodup :=
  List.pairwise_map.mpr (h.imp fun hlt => ne_of_lt hlt)

end Members

theorem Formed.keyed {numbers : Number φ → Prop} {v : Value φ} (h : v.Formed numbers) :
    v.Keyed numbers := by
  induction h with
  | null => exact .null
  | bool b => exact .bool b
  | number h => exact .number h
  | string s => exact .string s
  | array h ih => exact .array ih
  | object sorted h ih => exact .object (nodup_keys_of_sorted sorted) ih

theorem Same.symm {u v : Value φ} (h : u.Same v) : v.Same u := by
  induction h with
  | null => exact .null
  | bool b => exact .bool b
  | number n => exact .number n
  | string s => exact .string s
  | array length h ih => exact .array length.symm fun i u v hu hv => ih i v u hv hu
  | object keys h ih =>
      exact .object (fun k => (keys k).symm) fun k u v hu hv => ih k v u hv hu

theorem Same.trans {u v w : Value φ} (huv : u.Same v) (hvw : v.Same w) : u.Same w := by
  induction huv generalizing w with
  | null => exact hvw
  | bool b => exact hvw
  | number n => exact hvw
  | string s => exact hvw
  | @array items items' length h ih =>
      cases hvw with
      | @array _ items'' length' h' =>
          apply Same.array (length.trans length')
          intro i u w hu hw
          obtain ⟨hi, -⟩ := List.getElem?_eq_some_iff.mp hu
          have hi' : i < items'.length := lt_of_lt_of_eq hi length
          have hv := List.getElem?_eq_getElem hi'
          exact ih i _ _ hu hv (h' i _ _ hv hw)
  | @object members members' keys h ih =>
      cases hvw with
      | @object _ members'' keys' h' =>
          apply Same.object fun k => (keys k).trans (keys' k)
          intro k u w hu hw
          have hk : k ∈ members'.map Prod.fst := (keys k).mp (List.mem_map.mpr ⟨_, hu, rfl⟩)
          obtain ⟨⟨_, v⟩, hv, rfl⟩ := List.mem_map.mp hk
          exact ih _ _ _ hu hv (h' _ _ _ hv hw)

/-- In key order, the same value is the same list of members. -/
theorem Formed.eq_of_same {numbers : Number φ → Prop} {u v : Value φ} (h : u.Same v)
    (hu : u.Formed numbers) (hv : v.Formed numbers) : u = v := by
  induction h with
  | null => rfl
  | bool b => rfl
  | number n => rfl
  | string s => rfl
  | @array items items' length h ih =>
      cases hu with
      | array hu =>
      cases hv with
      | array hv =>
          congr 1
          apply List.ext_getElem length
          intro i hi hi'
          exact ih i _ _ (List.getElem?_eq_getElem hi) (List.getElem?_eq_getElem hi')
            (hu _ (List.getElem_mem hi)) (hv _ (List.getElem_mem hi'))
  | @object members members' keys h ih =>
      cases hu with
      | object sorted hu =>
      cases hv with
      | object sorted' hv =>
          have hmem : ∀ m, m ∈ members ↔ m ∈ members' := by
            rintro ⟨k, a⟩
            constructor
            · intro ha
              have hk : k ∈ members'.map Prod.fst := (keys k).mp (List.mem_map.mpr ⟨_, ha, rfl⟩)
              obtain ⟨⟨_, b⟩, hb, rfl⟩ := List.mem_map.mp hk
              rw [ih _ _ _ ha hb (hu _ ha) (hv _ hb)]
              exact hb
            · intro hb
              have hk : k ∈ members.map Prod.fst := (keys k).mpr (List.mem_map.mpr ⟨_, hb, rfl⟩)
              obtain ⟨⟨_, b⟩, ha, rfl⟩ := List.mem_map.mp hk
              rw [← ih _ _ _ ha hb (hu _ ha) (hv _ hb)]
              exact ha
          have hperm : members.Perm members' :=
            (List.perm_ext_iff_of_nodup (nodup_keys_of_sorted sorted).of_map
              (nodup_keys_of_sorted sorted').of_map).mpr hmem
          rw [eq_of_perm_of_pairwise_lt sorted sorted' hperm]

/-! ## Sorting -/

/-- Sorting a value puts it in order. -/
theorem Keyed.formed_sorted {numbers : Number φ → Prop} {v : Value φ} (h : v.Keyed numbers) :
    v.sorted.Formed numbers := by
  induction h with
  | null => exact .null
  | bool b => exact .bool b
  | number h => exact .number h
  | string s => exact .string s
  | array h ih =>
      rw [sorted, sortedItems_eq_map]
      apply Formed.array
      intro v hv
      obtain ⟨u, hu, rfl⟩ := List.mem_map.mp hv
      exact ih u hu
  | @object members distinct h ih =>
      rw [sorted, sortedMembers_eq_map]
      apply Formed.object
      · apply sortOn_pairwise_lt
        rw [List.map_map]
        exact distinct
      · intro m hm
        obtain ⟨m', hm', rfl⟩ := List.mem_map.mp (mem_sortOn.mp hm)
        exact ih m' hm'

/-- Sorting a value changes nothing but the order of members. -/
theorem Keyed.sorted_same {numbers : Number φ → Prop} {v : Value φ} (h : v.Keyed numbers) :
    v.sorted.Same v := by
  induction h with
  | null => exact .null
  | bool b => exact .bool b
  | number h => exact .number _
  | string s => exact .string s
  | array h ih =>
      rw [sorted, sortedItems_eq_map]
      apply Same.array (List.length_map _)
      intro i u v hu hv
      rw [List.getElem?_map, hv] at hu
      cases hu
      exact ih v (List.mem_of_getElem? hv)
  | @object members distinct h ih =>
      rw [sorted, sortedMembers_eq_map]
      apply Same.object
      · intro k
        simp only [List.mem_map, mem_sortOn]
        constructor
        · rintro ⟨_, ⟨m, hm, rfl⟩, rfl⟩
          exact ⟨m, hm, rfl⟩
        · rintro ⟨m, hm, rfl⟩
          exact ⟨_, ⟨m, hm, rfl⟩, rfl⟩
      · intro k u v hu hv
        obtain ⟨m, hm, hmu⟩ := List.mem_map.mp (mem_sortOn.mp hu)
        cases hmu
        cases eq_of_mem_of_mem distinct hm hv
        exact ih m hm

/-- Values are the same exactly when sorting makes them equal. -/
theorem Keyed.sorted_eq_sorted_iff {numbers : Number φ → Prop} {u v : Value φ}
    (hu : u.Keyed numbers) (hv : v.Keyed numbers) : u.sorted = v.sorted ↔ u.Same v := by
  constructor
  · intro h
    have hleft := hu.sorted_same.symm
    rw [h] at hleft
    exact hleft.trans hv.sorted_same
  · intro h
    have hsorted := (hu.sorted_same.trans h).trans hv.sorted_same.symm
    exact Formed.eq_of_same hsorted hu.formed_sorted hv.formed_sorted

end Value

end Json
