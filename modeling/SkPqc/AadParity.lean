import SkPqc.Pqdm
import SkPqc.Pqroute.Canonical

/-!
# Two encoders of one AAD

The downgrade-lock AAD is written by the JSON library, the route header by the
canonical encoder of the crate.  Both are meant to be the one text that the
other implementations compute, so an AAD built by either has to be the other's.
They agree on printable ASCII; the library leaves DEL and everything beyond
ASCII unescaped.

Main results:

- Theorem `downgradeLockAad_eq_canonical_iff`: the two texts are equal exactly
  when the three strings stay below DEL.
-/

namespace SkPqc
namespace AadParity

open Rust Json Pqdm Pqroute

/-- The object that both encoders write, with the strings written by `enc`. -/
def objectText (enc : String → Bytes) (t : Transcript) : Bytes :=
  byteLit "\x7b\"negotiated_suite\":" ++ enc t.negotiatedSuite ++
    byteLit ",\"recipient\":" ++ enc t.recipient ++
    byteLit ",\"sender\":" ++ enc t.sender ++ byteLit ",\"v\":1\x7d"

theorem head_eq_objectText (t : Transcript) : t.head = objectText quoted t := rfl

variable {φ : Type} [F64 φ]

/-- The canonical encoder writes the same object. -/
theorem canonical_members (t : Transcript) :
    canonical (.object (t.members : List (String × Value φ))) = objectText encodeStringAscii t := by
  have hsuite : encodeStringAscii "negotiated_suite" = byteLit "\"negotiated_suite\"" := by decide
  have hrecipient : encodeStringAscii "recipient" = byteLit "\"recipient\"" := by decide
  have hsender : encodeStringAscii "sender" = byteLit "\"sender\"" := by decide
  have hv : encodeStringAscii "v" = byteLit "\"v\"" := by decide
  have hone : utf8 (Number.display (.posInt 1 : Number φ)) = byteLit "1" := by
    change utf8 (toString (1 : UInt64)) = byteLit "1"
    decide
  have hsort : sortKeys (canonicalMembers (t.members : List (String × Value φ))) =
      canonicalMembers (t.members : List (String × Value φ)) := by
    have hkeys : ((canonicalMembers (t.members : List (String × Value φ))).map Prod.fst).Pairwise
        (· ≤ ·) := by
      change ["negotiated_suite", "recipient", "sender", "v"].Pairwise (· ≤ ·)
      decide
    exact List.Pairwise.insertionSort_eq (List.pairwise_map.mp hkeys)
  rw [canonical, hsort]
  simp [canonical, canonicalMembers, Transcript.members, objectText, hsuite, hrecipient, hsender,
    hv, hone, byteLit]

/-- Strings below DEL are written alike. -/
theorem objectText_eq (t : Transcript)
    (h : ∀ s ∈ [t.negotiatedSuite, t.sender, t.recipient], ∀ c ∈ s.toList, c.toNat < 0x7f) :
    objectText quoted t = objectText encodeStringAscii t := by
  have hsuite := encodeStringAscii_eq_quoted (h t.negotiatedSuite (by simp))
  have hsender := encodeStringAscii_eq_quoted (h t.sender (by simp))
  have hrecipient := encodeStringAscii_eq_quoted (h t.recipient (by simp))
  rw [objectText, objectText, hsuite, hsender, hrecipient]

/-- A character from DEL on leaves a byte from DEL on in the library's text. -/
theorem exists_mem_quoted {s : String} {c : Char} (hc : c ∈ s.toList) (h : 0x7f ≤ c.toNat) :
    ∃ b ∈ quoted s, 0x7f ≤ b.toNat := by
  have hraw : ¬ Escaped c := by
    rintro (rfl | rfl | hctrl)
    · exact absurd h (by decide)
    · exact absurd h (by decide)
    · omega
  have hb : ∃ b ∈ escape c, 0x7f ≤ b.toNat := by
    rw [escape_of_not_escaped hraw]
    by_cases hdel : c.toNat < 128
    · rw [utf8EncodeChar_of_lt hdel]
      refine ⟨c.toNat.toUInt8, List.mem_singleton_self _, ?_⟩
      simp
      omega
    · rcases List.exists_mem_of_ne_nil _ (@String.utf8EncodeChar_ne_nil c) with ⟨b, hb⟩
      exact ⟨b, hb, le_trans (by decide) (le_of_mem_utf8EncodeChar (by omega) b hb)⟩
  rcases hb with ⟨b, hb, hle⟩
  refine ⟨b, ?_, hle⟩
  rw [quoted, List.mem_append, List.mem_append]
  exact .inl (.inr (List.mem_flatMap.mpr ⟨c, hc, hb⟩))

/-- The canonical text has no byte from DEL on. -/
theorem objectText_printable (t : Transcript) :
    ∀ b ∈ objectText encodeStringAscii t, b.toNat < 0x7f := by
  have hfixed : ∀ b ∈ byteLit "\x7b\"negotiated_suite\":" ++ byteLit ",\"recipient\":" ++
      byteLit ",\"sender\":" ++ byteLit ",\"v\":1\x7d", b.toNat < 0x7f :=
    List.all_iff_forall_prop.mp (by decide)
  simp only [List.mem_append] at hfixed
  intro b hb
  simp only [objectText, List.mem_append] at hb
  rcases hb with (((((hb | hb) | hb) | hb) | hb) | hb) | hb
  · exact hfixed b (.inl (.inl (.inl hb)))
  · exact Nat.lt_succ_of_le (encodeStringAscii_printable _ b hb).2
  · exact hfixed b (.inl (.inl (.inr hb)))
  · exact Nat.lt_succ_of_le (encodeStringAscii_printable _ b hb).2
  · exact hfixed b (.inl (.inr hb))
  · exact Nat.lt_succ_of_le (encodeStringAscii_printable _ b hb).2
  · exact hfixed b (.inr hb)

/-- Where the two texts are equal, the strings stay below DEL. -/
theorem lt_of_objectText_eq {t : Transcript}
    (h : objectText quoted t = objectText encodeStringAscii t) :
    ∀ s ∈ [t.negotiatedSuite, t.sender, t.recipient], ∀ c ∈ s.toList, c.toNat < 0x7f := by
  intro s hs c hc
  by_contra hle
  rcases exists_mem_quoted hc (Nat.le_of_not_lt hle) with ⟨b, hb, hb'⟩
  have hmem : b ∈ objectText quoted t := by
    simp only [List.mem_cons, List.not_mem_nil, or_false] at hs
    rcases hs with rfl | rfl | rfl <;> simp [objectText, hb]
  rw [h] at hmem
  exact absurd (objectText_printable t b hmem) (by omega)

/-- The AAD is the canonical text of its object if and only if every character
of the three strings is below DEL. -/
theorem downgradeLockAad_eq_canonical_iff {S : Serde φ} (serde : S.Laws)
    (suite sender recipient : String) :
    (downgradeLockAad S suite sender recipient none : Outcome PqDmError Bytes) =
        .ok (canonical (.object
          [("negotiated_suite", .string suite), ("recipient", .string recipient),
            ("sender", .string sender), ("v", .number (.posInt 1))] : Value φ)) ↔
      ∀ s ∈ [suite, sender, recipient], ∀ c ∈ s.toList, c.toNat < 0x7f := by
  have haad := downgradeLockAad_none serde PqDmError ⟨suite, sender, recipient⟩
  have hcanonical := @canonical_members φ _ ⟨suite, sender, recipient⟩
  simp only [Transcript.members] at haad hcanonical
  rw [haad, hcanonical, Outcome.ok.injEq, head_eq_objectText]
  constructor
  · exact lt_of_objectText_eq
  · exact objectText_eq ⟨suite, sender, recipient⟩

/-- The two encoders agree on one-letter names. -/
theorem downgradeLockAad_eq_canonical_ascii :
    (downgradeLockAad (Serde.documented Int) hybridSuite "a" "b" none : Outcome PqDmError Bytes) =
      .ok (canonical (.object
        [("negotiated_suite", .string hybridSuite), ("recipient", .string "b"),
          ("sender", .string "a"), ("v", .number (.posInt 1))] : Value Int)) := by
  have hascii : ∀ s ∈ [hybridSuite, "a", "b"], s.toList.all fun c => c.toNat < 0x7f := by decide
  exact (downgradeLockAad_eq_canonical_iff (Serde.documented_laws Int) hybridSuite "a" "b").mpr
    fun s hs => List.all_iff_forall_prop.mp (hascii s hs)

/-- The AAD of a recipient with an accented letter is not the canonical text. -/
theorem accented_recipient_disagrees :
    (downgradeLockAad (Serde.documented Int) hybridSuite "a" "\u00e9" none :
        Outcome PqDmError Bytes) ≠
      .ok (canonical (.object
        [("negotiated_suite", .string hybridSuite), ("recipient", .string "\u00e9"),
          ("sender", .string "a"), ("v", .number (.posInt 1))] : Value Int)) := by
  decide +kernel

end AadParity
end SkPqc
