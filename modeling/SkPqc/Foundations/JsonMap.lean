import SkPqc.Foundations.Json

/-!
# JSON objects as maps

The members of a `serde_json` object form a map that is sorted by key; a later
member replaces an earlier one of the same key.  The accessors read a value as
one of its kinds and return nothing for the others.

Main results:

- Theorem `lookup_insertMember`: an insertion is what a lookup sees of a map.
- Theorem `toMap_of_sorted`: a map that is in order already is the list of its
  members.
- Theorem `mem_toMap_iff`: a map holds what was inserted, as long as no key came
  with two values.
-/

namespace Json

open Rust

section Maps

variable {α : Type}

/-- `Map::insert`: the keys stay in order, and an old value is replaced. -/
def insertMember (key : String) (a : α) : List (String × α) → List (String × α)
  | [] => [(key, a)]
  | (key', a') :: members =>
      if key < key' then (key, a) :: (key', a') :: members
      else if key = key' then (key, a) :: members
      else (key', a') :: insertMember key a members

/-- The map of the members of an object. -/
def toMap (members : List (String × α)) : List (String × α) :=
  members.foldl (fun map member => insertMember member.1 member.2 map) []

theorem lookup_cons_eq (k : String) (m : String × α) (map : List (String × α)) :
    (m :: map).lookup k = if k = m.1 then some m.2 else map.lookup k := by
  rcases m with ⟨key, a⟩
  by_cases hk : k = key
  · rw [List.lookup_cons, beq_iff_eq.mpr hk, if_pos hk]
  · rw [List.lookup_cons, beq_false_of_ne hk, if_neg hk]

/-- An insertion is what a lookup sees of a map. -/
theorem lookup_insertMember (key k : String) (a : α) (map : List (String × α)) :
    (insertMember key a map).lookup k = if k = key then some a else map.lookup k := by
  induction map with
  | nil => rw [insertMember, lookup_cons_eq]
  | cons m map ih =>
      rw [insertMember]
      split
      · rw [lookup_cons_eq]
      · split
        · rename_i hkey
          rw [lookup_cons_eq, lookup_cons_eq, hkey]
          split <;> rfl
        · rename_i hkey
          rw [lookup_cons_eq, lookup_cons_eq, ih]
          by_cases hk : k = m.1
          · have hne : k ≠ key := fun h => hkey (h.symm.trans hk)
            rw [if_pos hk, if_neg hne, if_pos hk]
          · rw [if_neg hk, if_neg hk]

theorem mem_insertMember {key : String} {a : α} {m : String × α} {map : List (String × α)}
    (h : m ∈ insertMember key a map) : m = (key, a) ∨ m ∈ map := by
  induction map with
  | nil => simpa [insertMember] using h
  | cons m' map ih =>
      rw [insertMember] at h
      split at h
      · exact List.mem_cons.mp h
      · split at h
        · rcases List.mem_cons.mp h with h | h
          · exact .inl h
          · exact .inr (List.mem_cons_of_mem _ h)
        · rcases List.mem_cons.mp h with h | h
          · exact .inr (h ▸ List.mem_cons_self)
          · rcases ih h with h | h
            · exact .inl h
            · exact .inr (List.mem_cons_of_mem _ h)

theorem mem_insertMember_self (key : String) (a : α) (map : List (String × α)) :
    (key, a) ∈ insertMember key a map := by
  induction map with
  | nil => simp [insertMember]
  | cons m map ih =>
      rw [insertMember]
      split
      · exact List.mem_cons_self
      · split
        · exact List.mem_cons_self
        · exact List.mem_cons_of_mem _ ih

/-- An insertion replaces members of its own key only. -/
theorem mem_insertMember_of_ne {key : String} {m : String × α} (hne : m.1 ≠ key) (a : α)
    {map : List (String × α)} (h : m ∈ map) : m ∈ insertMember key a map := by
  induction map with
  | nil => cases h
  | cons m' map ih =>
      rw [insertMember]
      split
      · exact List.mem_cons_of_mem _ h
      · rcases List.mem_cons.mp h with rfl | h
        · rw [if_neg (Ne.symm hne)]
          exact List.mem_cons_self
        · split
          · exact List.mem_cons_of_mem _ h
          · exact List.mem_cons_of_mem _ (ih h)

/-- A map holds exactly what was inserted, as long as no key came with two
values. -/
theorem mem_toMap_iff {members : List (String × α)}
    (hunique : ∀ m ∈ members, ∀ m' ∈ members, m.1 = m'.1 → m = m') (m : String × α) :
    m ∈ toMap members ↔ m ∈ members := by
  have hfold : ∀ (rest map : List (String × α)), (∀ x ∈ map, x ∈ members) →
      (∀ x ∈ rest, x ∈ members) →
      (m ∈ rest.foldl (fun map m => insertMember m.1 m.2 map) map ↔ m ∈ map ∨ m ∈ rest) := by
    intro rest
    induction rest with
    | nil => simp
    | cons x rest ih =>
        intro map hmap hrest
        have hx := hrest x List.mem_cons_self
        have hinserted : ∀ y ∈ insertMember x.1 x.2 map, y ∈ members := by
          intro y hy
          rcases mem_insertMember hy with rfl | hy
          · exact hx
          · exact hmap y hy
        rw [List.foldl_cons, ih _ hinserted fun y hy => hrest y (List.mem_cons_of_mem x hy)]
        constructor
        · rintro (h | h)
          · rcases mem_insertMember h with rfl | h
            · exact .inr List.mem_cons_self
            · exact .inl h
          · exact .inr (List.mem_cons_of_mem x h)
        · rintro (h | h)
          · by_cases hkey : m.1 = x.1
            · left
              rw [hunique m (hmap m h) x hx hkey]
              exact mem_insertMember_self x.1 x.2 map
            · exact .inl (mem_insertMember_of_ne hkey x.2 h)
          · rcases List.mem_cons.mp h with rfl | h
            · exact .inl (mem_insertMember_self m.1 m.2 map)
            · exact .inr h
  have hnil := hfold members [] (by simp) fun _ h => h
  simpa [toMap] using hnil

/-- A map that is in order already is the list of its members. -/
theorem toMap_of_sorted {members : List (String × α)}
    (h : members.Pairwise fun a b => a.1 < b.1) : toMap members = members := by
  have hinsert : ∀ (key : String) (a : α) (map : List (String × α)), (∀ m ∈ map, m.1 < key) →
      insertMember key a map = map ++ [(key, a)] := by
    intro key a map
    induction map with
    | nil => simp [insertMember]
    | cons m map ih =>
        intro hmap
        have hm := hmap m List.mem_cons_self
        rw [insertMember, if_neg (String.lt_asymm hm),
          if_neg (String.ne_of_lt hm).symm,
          ih fun m' hm' => hmap m' (List.mem_cons_of_mem m hm')]
        rfl
  have hfold : ∀ (map rest : List (String × α)), (map ++ rest).Pairwise (fun a b => a.1 < b.1) →
      rest.foldl (fun map m => insertMember m.1 m.2 map) map = map ++ rest := by
    intro map rest
    induction rest generalizing map with
    | nil => simp
    | cons m rest ih =>
        intro hsorted
        have hm : ∀ m' ∈ map, m'.1 < m.1 := fun m' hm' =>
          (List.pairwise_append.mp hsorted).2.2 m' hm' m List.mem_cons_self
        rw [List.foldl_cons, hinsert m.1 m.2 map hm, ih _ (by simpa using hsorted),
          List.append_assoc]
        rfl
  exact hfold [] members h

end Maps

/-! ## Accessors -/

namespace Value

variable {φ : Type}

/-- `Value::get` by a key. -/
def get (v : Value φ) (key : String) : Option (Value φ) :=
  match v with
  | .object members => members.lookup key
  | _ => none

def isNull : Value φ → Bool
  | .null => true
  | _ => false

theorem isNull_iff {v : Value φ} : v.isNull = true ↔ v = .null := by
  cases v <;> simp [isNull]

def asStr : Value φ → Option String
  | .string s => some s
  | _ => none

def asObject : Value φ → Option (List (String × Value φ))
  | .object members => some members
  | _ => none

/-- `Value::as_u64`: of the numbers, the non-negative integers. -/
def asU64 : Value φ → Option UInt64
  | .number (.posInt n) => some n
  | _ => none

/-- `Value::as_f64`: any number. -/
def asF64 [JsonF64 φ] : Value φ → Option φ
  | .number (.posInt n) => some (F64.ofU64 n)
  | .number (.negInt n) => some (JsonF64.ofI64 n)
  | .number (.float x) => some x
  | _ => none

/-- `Value::from(f64)`: there are no numbers for infinities and NaN. -/
def ofF64 [JsonF64 φ] (x : φ) : Value φ :=
  if JsonF64.isFinite x then .number (.float x) else .null

end Value

end Json
