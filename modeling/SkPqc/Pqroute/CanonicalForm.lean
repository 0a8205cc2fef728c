import SkPqc.Foundations.JsonOrder
import SkPqc.Foundations.JsonText
import SkPqc.Pqroute.Canonical

/-!
# Canonical form

A map lists its members in some order, and the canonical text has them in key
order.  So the text is a function of the value as JSON understands it, and the
value can be read from it.

Main results:

- Theorem `canonical_sorted`: the encoder writes a value as it writes the
  sorted one.
- Theorem `encodeStringAscii_tight`: a string ends where the encoder ends it.
- Theorem `canonical_faithful`: the canonical text is printable, has sorted keys
  and no white space, decodes to its value, and tells values apart exactly when
  they are not the same.
-/

namespace SkPqc
namespace Pqroute

open Rust Json

/-! ## The order of members -/

/-- Members under distinct keys sort strictly. -/
theorem sortKeys_pairwise_lt {members : List (String × Bytes)}
    (distinct : (members.map Prod.fst).Nodup) :
    (sortKeys members).Pairwise fun a b => a.1 < b.1 := by
  have hperm : (sortKeys members).Perm members := List.perm_insertionSort _ members
  have hle : (sortKeys members).Pairwise fun a b => a.1 ≤ b.1 := List.pairwise_insertionSort _ _
  have hne : (sortKeys members).Pairwise fun a b => a.1 ≠ b.1 :=
    List.pairwise_map.mp ((hperm.map Prod.fst).nodup_iff.mpr distinct)
  exact hle.imp₂ (fun a b hle hne => lt_of_le_of_ne hle hne) hne

/-- The order in which they came does not show. -/
theorem sortKeys_eq_of_perm {members members' : List (String × Bytes)}
    (distinct : (members.map Prod.fst).Nodup) (h : members.Perm members') :
    sortKeys members = sortKeys members' := by
  have distinct' : (members'.map Prod.fst).Nodup := (h.map Prod.fst).nodup_iff.mp distinct
  apply SortOn.eq_of_perm_of_pairwise_lt (sortKeys_pairwise_lt distinct)
    (sortKeys_pairwise_lt distinct')
  exact ((List.perm_insertionSort _ members).trans h).trans
    (List.perm_insertionSort _ members').symm

section Canonical

variable {φ : Type} [F64 φ]

/-- The encoder writes a value as it writes the sorted one. -/
theorem canonical_sorted {numbers : Number φ → Prop} {v : Value φ} (hv : v.Keyed numbers) :
    canonical v.sorted = canonical v := by
  induction hv with
  | null => rfl
  | bool b => rfl
  | number h => rfl
  | string s => rfl
  | array h ih =>
      rw [Value.sorted, canonical, canonical, canonicalItems_eq_map, canonicalItems_eq_map,
        Value.sortedItems_eq_map, List.map_map]
      rw [List.map_congr_left (f := canonical ∘ Value.sorted) (g := canonical) ih]
  | @object members distinct h ih =>
      have htexts : (members.map fun m => (m.1, m.2.sorted)).map (fun m => (m.1, canonical m.2)) =
          members.map fun m => (m.1, canonical m.2) := by
        rw [List.map_map]
        apply List.map_congr_left
        intro m hm
        exact congrArg (Prod.mk m.1) (ih m hm)
      have hperm := (SortOn.sortOn_perm Prod.fst (members.map fun m => (m.1, m.2.sorted))).map
        fun m => (m.1, canonical m.2)
      rw [htexts] at hperm
      have hkeys : ((members.map fun m => (m.1, canonical m.2)).map Prod.fst).Nodup := by
        rw [List.map_map]
        exact distinct
      rw [Value.sorted, canonical, canonical, canonicalMembers_eq_map, canonicalMembers_eq_map,
        Value.sortedMembers_eq_map, sortKeys_eq_of_perm hkeys hperm.symm]

/-- The canonical text is the compact text of the sorted value. -/
theorem canonical_eq_render_sorted {numbers : Number φ → Prop} {v : Value φ}
    (hv : v.Keyed numbers) : canonical v = render encodeStringAscii v.sorted := by
  rw [← canonical_sorted hv, canonical_eq_render hv.formed_sorted]

end Canonical

/-! ## Strings end where they end -/

/-- The digits of an escape are no quotes and no backslashes. -/
theorem pushUEscape_inert (codeUnit : Nat) : Inert (pushUEscape codeUnit) := by
  have hdigit : ∀ i, hex.get i ≠ 34 ∧ hex.get i ≠ 92 := by decide
  have hraw : ∀ i, Inert [hex.get i] := fun i => .raw (hdigit i).1 (hdigit i).2
  have hdigits := (hraw (Fin.ofNat 16 (codeUnit >>> 12))).append
    ((hraw (Fin.ofNat 16 (codeUnit >>> 8))).append
      ((hraw (Fin.ofNat 16 (codeUnit >>> 4))).append (hraw (Fin.ofNat 16 codeUnit))))
  exact (Inert.escape 117).append hdigits

theorem encodeCharAscii_inert (c : Char) : Inert (encodeCharAscii c) := by
  have hcode := encodeCharAscii_charCode c
  generalize encodeCharAscii c = code at hcode
  cases hcode with
  | raw hquote hslash hprintable =>
      have hsmall : c.toNat < 256 := by omega
      exact .raw (toUInt8_ne hsmall hquote rfl) (toUInt8_ne hsmall hslash rfl)
  | letter hb hlookup => exact .escape _
  | basic h => exact pushUEscape_inert _
  | supplementary h => exact (pushUEscape_inert _).append (pushUEscape_inert _)

/-- A string ends where the encoder ends it. -/
theorem encodeStringAscii_tight (s : String) : Tight (encodeStringAscii s) :=
  (Inert.flatMap encodeCharAscii_inert s.toList).tight

/-! ## The canonical text -/

/-- The canonical text of an integer value is printable and has no white space
outside its strings.  The decoder finds the same value in it, with the members
in key order at every level; and two values have the same text exactly when they
are the same. -/
theorem canonical_faithful {φ : Type} [F64 φ] (readFloat : Bytes → Option φ) {v : Value φ}
    (hv : v.Keyed Number.IsInteger) :
    (∀ b ∈ canonical v, 0x20 ≤ b.toNat ∧ b.toNat ≤ 0x7e) ∧
    (∀ b ∈ outsideStrings .outside (canonical v), isSpace b = false) ∧
    (∃ w, decode readFloat (canonical v) = some w ∧ w.Formed Number.IsInteger ∧ w.Same v) ∧
    ∀ u : Value φ, u.Keyed Number.IsInteger → (canonical u = canonical v ↔ u.Same v) := by
  have hsorted := hv.formed_sorted
  rw [canonical_eq_render_sorted hv]
  refine ⟨?_, ?_, ?_, ?_⟩
  · have hprintable : ∀ text : Bytes, (∀ b ∈ text, Plain b) → ∀ b ∈ text, Printable b := by
      intro text htext b hb
      have hbounds := (htext b hb).bounds
      exact ⟨hbounds.1.le, hbounds.2⟩
    have happend : ∀ xs ys : Bytes, (∀ b ∈ xs, Printable b) → (∀ b ∈ ys, Printable b) →
        ∀ b ∈ xs ++ ys, Printable b := by
      intro xs ys hx hy b hb
      exact (List.mem_append.mp hb).elim (hx b) (hy b)
    exact render_closed happend hprintable encodeStringAscii_printable hsorted
  · exact (render_tight encodeStringAscii_tight hsorted).noSpace
  · exact ⟨v.sorted, decode_render readFloat encodeStringAscii_readBack hsorted, hsorted,
      hv.sorted_same⟩
  · intro u hu
    rw [canonical_eq_render_sorted hu, ← hu.sorted_eq_sorted_iff hv]
    constructor
    · exact render_injective encodeStringAscii_readBack hu.formed_sorted hsorted
    · intro h
      rw [h]

namespace Sample

/-- Two members, the keys against the code-point order. -/
def unordered : Value Int := .object [("é", .array [.null]), ("Z", .number (.negInt (-7)))]

def reordered : Value Int := .object [("Z", .number (.negInt (-7))), ("é", .array [.null])]

theorem null_array_formed : (Value.array [.null] : Value Int).Formed Number.IsInteger :=
  .array fun _ hv => by rw [List.mem_singleton.mp hv]; exact .null

theorem negative_formed : (Value.number (.negInt (-7)) : Value Int).Formed Number.IsInteger :=
  .number (show (-7 : Int64).toInt < 0 by decide)

theorem unordered_keyed : unordered.Keyed Number.IsInteger := by
  apply Value.Keyed.object (by decide)
  simp only [List.mem_cons, List.not_mem_nil, or_false, forall_eq_or_imp, forall_eq]
  exact ⟨null_array_formed.keyed, negative_formed.keyed⟩

theorem reordered_formed : reordered.Formed Number.IsInteger := by
  apply Value.Formed.object (by decide)
  simp only [List.mem_cons, List.not_mem_nil, or_false, forall_eq_or_imp, forall_eq]
  exact ⟨negative_formed, null_array_formed⟩

end Sample

theorem canonical_faithful_sample :
    canonical Sample.unordered = byteLit "\x7b\"Z\":-7,\"\\u00e9\":[null]\x7d" ∧
    (∀ b ∈ canonical Sample.unordered, 0x20 ≤ b.toNat ∧ b.toNat ≤ 0x7e) ∧
    (∀ b ∈ outsideStrings .outside (canonical Sample.unordered), isSpace b = false) ∧
    (∃ w, decode (fun _ => none) (canonical Sample.unordered) = some w ∧
      w.Formed Number.IsInteger ∧ w.Same Sample.unordered) ∧
    Sample.reordered.Same Sample.unordered := by
  have h := canonical_faithful (fun _ => none) Sample.unordered_keyed
  exact ⟨by decide +kernel, h.1, h.2.1, h.2.2.1,
    (h.2.2.2 Sample.reordered Sample.reordered_formed.keyed).mp (by decide +kernel)⟩

end Pqroute
end SkPqc
