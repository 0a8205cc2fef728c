import SkPqc.Foundations.Text
import SkPqc.Foundations.Float
import Mathlib.Data.Bool.AllAny

/-!
# JSON values and compact text

JSON values, and the compact text that `serde_json` documents for them: no
white space, members in the order of the map, and a string escape that touches
only the quote, the backslash and the control characters below `U+0020`.

The encoder itself is a parameter, `Serde`; `Serde.Laws` says that it writes
the documented text.

Main results:

- Theorem `escapeCode_isPrefixCode`: the escaped characters and the closing
  quote are a prefix code.
- Theorem `quoted_isPrefixCode`: so are quoted strings.
-/

namespace Json

open Rust PrefixCode

/-- `serde_json::Number`. -/
inductive Number (φ : Type) where
  | posInt (n : UInt64)
  | negInt (n : Int64)
  | float (x : φ)

/-- `serde_json::Value`.  The members of an object have distinct keys. -/
inductive Value (φ : Type) where
  | null
  | bool (b : Bool)
  | number (n : Number φ)
  | string (s : String)
  | array (items : List (Value φ))
  | object (members : List (String × Value φ))

/-- `Number`'s `Display`. -/
def Number.display {φ : Type} [F64 φ] : Number φ → String
  | .posInt n => toString n
  | .negInt n => toString n
  | .float x => F64.display x

/-! ## Strings -/

/-- The lower-case hexadecimal digit of a number below 16. -/
def hexDigit (n : Nat) : UInt8 := UInt8.ofNat (if n < 10 then 48 + n else 87 + n)

/-- `\u` and the four digits of a 16-bit code unit. -/
def unicodeEscape (n : Nat) : Bytes :=
  [92, 117, hexDigit (n / 4096 % 16), hexDigit (n / 256 % 16), hexDigit (n / 16 % 16),
    hexDigit (n % 16)]

/-- The escape of a character inside a string. -/
def escape (c : Char) : Bytes :=
  if c = '"' then [92, 34]
  else if c = '\\' then [92, 92]
  else if c.toNat = 0x08 then [92, 98]
  else if c.toNat = 0x09 then [92, 116]
  else if c.toNat = 0x0a then [92, 110]
  else if c.toNat = 0x0c then [92, 102]
  else if c.toNat = 0x0d then [92, 114]
  else if c.toNat < 0x20 then unicodeEscape c.toNat
  else String.utf8EncodeChar c

/-- A string between quotes. -/
def quoted (s : String) : Bytes := [34] ++ s.toList.flatMap escape ++ [34]

/-! ## Values -/

section Compact

variable {φ : Type} [F64 φ]

mutual

/-- The compact text of a value. -/
def compact : Value φ → Bytes
  | .null => byteLit "null"
  | .bool true => byteLit "true"
  | .bool false => byteLit "false"
  | .number n => utf8 n.display
  | .string s => quoted s
  | .array items => byteLit "[" ++ (byteLit ",").intercalate (compactItems items) ++ byteLit "]"
  | .object members =>
      byteLit "\x7b" ++ (byteLit ",").intercalate (compactMembers members) ++ byteLit "\x7d"

def compactItems : List (Value φ) → List Bytes
  | [] => []
  | v :: rest => compact v :: compactItems rest

def compactMembers : List (String × Value φ) → List Bytes
  | [] => []
  | (k, v) :: rest => (quoted k ++ byteLit ":" ++ compact v) :: compactMembers rest

end

end Compact

/-- `serde_json::to_vec` on a map, by the entries of the map in their order. -/
structure Serde (φ : Type) where
  toVec : List (String × Value φ) → Option Bytes

/-- The encoder writes the documented compact text. -/
structure Serde.Laws {φ : Type} [F64 φ] (S : Serde φ) : Prop where
  toVec_eq : ∀ members, S.toVec members = some (compact (.object members))

/-- The encoder that writes the documented text. -/
def Serde.documented (φ : Type) [F64 φ] : Serde φ where
  toVec members := some (compact (.object members))

theorem Serde.documented_laws (φ : Type) [F64 φ] : (Serde.documented φ).Laws :=
  ⟨fun _ => rfl⟩

/-! ## Escaped strings are a prefix code -/

/-- The characters that are not written raw. -/
def Escaped (c : Char) : Prop := c = '"' ∨ c = '\\' ∨ c.toNat < 0x20

instance : DecidablePred Escaped := fun _ => inferInstanceAs (Decidable (_ ∨ _ ∨ _))

theorem escape_of_not_escaped {c : Char} (h : ¬ Escaped c) :
    escape c = String.utf8EncodeChar c := by
  unfold Escaped at h
  push Not at h
  rcases h with ⟨hquote, hslash, hctrl⟩
  unfold escape
  rw [if_neg hquote, if_neg hslash, if_neg (by omega), if_neg (by omega), if_neg (by omega),
    if_neg (by omega), if_neg (by omega), if_neg (by omega)]

/-- The characters that are escaped. -/
def escapedChars : List Char := ((List.range 0x20).map Char.ofNat) ++ ['"', '\\']

theorem mem_escapedChars {c : Char} (h : Escaped c) : c ∈ escapedChars := by
  rcases h with rfl | rfl | hctrl
  · decide
  · decide
  · refine List.mem_append_left _ (List.mem_map.mpr ⟨c.toNat, ?_, Char.ofNat_toNat c⟩)
    exact List.mem_range.mpr hctrl

/-- An escaped character starts with a backslash. -/
theorem head_escape {c : Char} (h : Escaped c) : ∃ tail, escape c = 92 :: tail := by
  have hall : ∀ c ∈ escapedChars, (escape c).head? = some 92 :=
    List.all_iff_forall_prop.mp (by decide +kernel)
  have hhead := hall c (mem_escapedChars h)
  cases hcode : escape c with
  | nil => simp [hcode] at hhead
  | cons b tail =>
      simp only [hcode, List.head?_cons, Option.some.injEq] at hhead
      exact ⟨tail, by rw [hhead]⟩

/-- A raw character starts with neither a quote nor a backslash. -/
theorem head_raw {c : Char} (h : ¬ Escaped c) :
    ∃ b tail, escape c = b :: tail ∧ b ≠ 34 ∧ b ≠ 92 := by
  rw [escape_of_not_escaped h]
  cases hcode : String.utf8EncodeChar c with
  | nil => exact absurd hcode String.utf8EncodeChar_ne_nil
  | cons b tail =>
      refine ⟨b, tail, rfl, ?_⟩
      by_cases hlt : c.toNat < 128
      · rw [utf8EncodeChar_of_lt hlt, List.cons.injEq] at hcode
        have hb : b.toNat = c.toNat := by
          rw [← hcode.1]
          simp
          omega
        constructor
        · rintro rfl
          exact h (.inl (Char.toNat_inj.mp hb.symm))
        · rintro rfl
          exact h (.inr (.inl (Char.toNat_inj.mp hb.symm)))
      · have hb : 128 ≤ b.toNat := by
          refine le_of_mem_utf8EncodeChar (Nat.le_of_not_lt hlt) b ?_
          rw [hcode]
          exact List.mem_cons_self
        constructor
        · rintro rfl
          exact absurd hb (by decide)
        · rintro rfl
          exact absurd hb (by decide)

/-- The escape of a character, and the closing quote. -/
def escapeCode : Option Char → Bytes
  | some c => escape c
  | none => [34]

/-- No escape of a character is the beginning of that of another. -/
theorem escape_isPrefixCode : IsPrefixCode escape := by
  intro c d h
  by_cases hc : Escaped c
  · by_cases hd : Escaped d
    · have hall : ∀ c ∈ escapedChars,
          escapedChars.all fun d => escape c <+: escape d → c = d :=
        List.all_iff_forall_prop.mp (by decide +kernel)
      exact List.all_iff_forall_prop.mp (hall c (mem_escapedChars hc)) d (mem_escapedChars hd) h
    · rcases head_escape hc with ⟨tail, hcode⟩
      rcases head_raw hd with ⟨b, tail', hcode', -, hb⟩
      rw [hcode, hcode'] at h
      exact absurd (List.cons_prefix_cons.mp h).1.symm hb
  · by_cases hd : Escaped d
    · rcases head_raw hc with ⟨b, tail, hcode, -, hb⟩
      rcases head_escape hd with ⟨tail', hcode'⟩
      rw [hcode, hcode'] at h
      exact absurd (List.cons_prefix_cons.mp h).1 hb
    · rw [escape_of_not_escaped hc, escape_of_not_escaped hd] at h
      exact utf8EncodeChar_isPrefixCode c d h

/-- No escape starts with a quote. -/
theorem head_escape_ne_quote (c : Char) : ∃ b tail, escape c = b :: tail ∧ b ≠ 34 := by
  by_cases hc : Escaped c
  · rcases head_escape hc with ⟨tail, hcode⟩
    exact ⟨92, tail, hcode, by decide⟩
  · rcases head_raw hc with ⟨b, tail, hcode, hb, -⟩
    exact ⟨b, tail, hcode, hb⟩

/-- The escaped characters and the closing quote are a prefix code. -/
theorem escapeCode_isPrefixCode : IsPrefixCode escapeCode := by
  rintro (_ | c) (_ | d) h
  · rfl
  · rcases head_escape_ne_quote d with ⟨b, tail, hcode, hb⟩
    rw [escapeCode, escapeCode, hcode] at h
    exact absurd (List.cons_prefix_cons.mp h).1.symm hb
  · rcases head_escape_ne_quote c with ⟨b, tail, hcode, hb⟩
    rw [escapeCode, escapeCode, hcode] at h
    exact absurd (List.cons_prefix_cons.mp h).1 hb
  · rw [escape_isPrefixCode c d h]

/-- Quoted strings are a prefix code. -/
theorem quoted_isPrefixCode : IsPrefixCode quoted := by
  intro s t h
  have hs : ∀ s : String, quoted s = 34 :: terminated escapeCode s.toList := fun s => rfl
  rw [hs, hs] at h
  exact String.toList_inj.mp (escapeCode_isPrefixCode.terminated _ _ (List.cons_prefix_cons.mp h).2)

end Json
