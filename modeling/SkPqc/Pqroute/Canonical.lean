import SkPqc.Foundations.JsonParser
import Mathlib.Data.List.Sort

/-!
# Canonical JSON

This module embeds the canonical encoder of `pqroute.rs`, which reproduces
`json.dumps` with sorted keys, tight separators and ASCII output.

Main results:

- Theorem `encodeCharAscii_eq_escape`: below DEL the encoder writes what the
  JSON library writes.
- Theorem `encodeCharAscii_charCode`: the four kinds of code that the encoder
  writes for a character.
- Theorem `encodeStringAscii_printable`: whatever the string, the encoder writes
  printable ASCII.
- Theorem `encodeStringAscii_readBack`: a JSON reader reads its strings back.
- Theorem `canonical_eq_render`: on sorted values the encoder writes the compact
  text with these strings.
-/

namespace SkPqc
namespace Pqroute

open Rust Json

/-- `HEX`. -/
def hex : Block UInt8 16 := ⟨byteLit "0123456789abcdef", rfl⟩

/-- A `\u` escape of a 16-bit code unit; the index is masked to four bits. -/
def pushUEscape (codeUnit : Nat) : Bytes :=
  byteLit "\\u" ++
    [hex.get (Fin.ofNat 16 (codeUnit >>> 12)), hex.get (Fin.ofNat 16 (codeUnit >>> 8)),
      hex.get (Fin.ofNat 16 (codeUnit >>> 4)), hex.get (Fin.ofNat 16 codeUnit)]

/-- One character of `encode_string_ascii`. -/
def encodeCharAscii (ch : Char) : Bytes :=
  let c := ch.toNat
  if ch = '"' then byteLit "\\\""
  else if ch = '\\' then byteLit "\\\\"
  else if c = 0x08 then byteLit "\\b"
  else if c = 0x09 then byteLit "\\t"
  else if c = 0x0a then byteLit "\\n"
  else if c = 0x0c then byteLit "\\f"
  else if c = 0x0d then byteLit "\\r"
  else if 0x20 ≤ c ∧ c ≤ 0x7e then [c.toUInt8]
  else if c ≤ 0xFFFF then pushUEscape c
  else
    -- Above the basic plane: a UTF-16 surrogate pair.
    let v := c - 0x10000
    let hi := 0xD800 + (v >>> 10)
    let lo := 0xDC00 + (v &&& 0x3FF)
    pushUEscape hi ++ pushUEscape lo

/-- Encode a string as `py_encode_basestring_ascii` does. -/
def encodeStringAscii (s : String) : Bytes :=
  byteLit "\"" ++ s.toList.flatMap encodeCharAscii ++ byteLit "\""

/-- `keys.sort()`, each key with the text of its value. -/
def sortKeys (members : List (String × Bytes)) : List (String × Bytes) :=
  members.insertionSort fun a b => a.1 ≤ b.1

section Canonical

variable {φ : Type} [F64 φ]

mutual

/-- Canonicalise a value. -/
def canonical : Value φ → Bytes
  | .null => byteLit "null"
  | .bool true => byteLit "true"
  | .bool false => byteLit "false"
  | .number n => utf8 n.display
  | .string s => encodeStringAscii s
  | .array arr => byteLit "[" ++ (byteLit ",").intercalate (canonicalItems arr) ++ byteLit "]"
  | .object map =>
      byteLit "\x7b" ++
        (byteLit ",").intercalate ((sortKeys (canonicalMembers map)).map fun (k, text) =>
          encodeStringAscii k ++ byteLit ":" ++ text) ++
        byteLit "\x7d"

def canonicalItems : List (Value φ) → List Bytes
  | [] => []
  | v :: rest => canonical v :: canonicalItems rest

def canonicalMembers : List (String × Value φ) → List (String × Bytes)
  | [] => []
  | (k, v) :: rest => (k, canonical v) :: canonicalMembers rest

end

end Canonical

/-! ## Against the JSON library -/

/-- The table lookup is the digit of the masked index. -/
theorem hex_get (n : Nat) : hex.get (Fin.ofNat 16 n) = hexDigit (n % 16) := by
  have hall : ∀ i : Fin 16, hex.get i = hexDigit i.val := by decide
  exact hall (Fin.ofNat 16 n)

theorem pushUEscape_eq (codeUnit : Nat) : pushUEscape codeUnit = unicodeEscape codeUnit := by
  simp only [pushUEscape, unicodeEscape, hex_get, Nat.shiftRight_eq_div_pow]
  rfl

/-- Below DEL the two encoders agree on every character. -/
theorem encodeCharAscii_eq_escape {c : Char} (h : c.toNat < 0x7f) :
    encodeCharAscii c = escape c := by
  simp only [encodeCharAscii, escape]
  -- The two tests run in the same order; only what remains after them differs.
  by_cases hctrl : c.toNat < 0x20
  · rw [if_neg (show ¬ (0x20 ≤ c.toNat ∧ c.toNat ≤ 0x7e) by omega),
      if_pos (show c.toNat ≤ 0xFFFF by omega), if_pos hctrl, pushUEscape_eq]
    rfl
  · rw [if_pos (show 0x20 ≤ c.toNat ∧ c.toNat ≤ 0x7e by omega), if_neg hctrl,
      utf8EncodeChar_of_lt (by omega)]
    rfl

/-- So they agree on every string of such characters. -/
theorem encodeStringAscii_eq_quoted {s : String} (h : ∀ c ∈ s.toList, c.toNat < 0x7f) :
    encodeStringAscii s = quoted s := by
  have hchars : s.toList.flatMap encodeCharAscii = s.toList.flatMap escape :=
    List.flatMap_congr fun c hc => encodeCharAscii_eq_escape (h c hc)
  rw [encodeStringAscii, quoted, hchars]
  rfl

/-- Printable ASCII. -/
def Printable (b : UInt8) : Prop := 0x20 ≤ b.toNat ∧ b.toNat ≤ 0x7e

instance : DecidablePred Printable := fun _ => inferInstanceAs (Decidable (_ ∧ _))

/-- What the encoder writes for a character. -/
inductive CharCode (c : Char) : Bytes → Prop
  | raw (hquote : c ≠ '"') (hslash : c ≠ '\\') (hprintable : 0x20 ≤ c.toNat ∧ c.toNat ≤ 0x7e) :
      CharCode c [c.toNat.toUInt8]
  | letter {b : UInt8} (hb : b ∈ byteLit "\"\\btnfr") (hlookup : escapeLetters.lookup b = some c) :
      CharCode c [92, b]
  | basic (h : c.toNat < 0x10000) : CharCode c (pushUEscape c.toNat)
  | supplementary (h : 0x10000 ≤ c.toNat) :
      CharCode c (pushUEscape (0xD800 + (c.toNat - 0x10000) / 0x400) ++
        pushUEscape (0xDC00 + (c.toNat - 0x10000) % 0x400))

theorem encodeCharAscii_charCode (c : Char) : CharCode c (encodeCharAscii c) := by
  have hletter : ∀ (b : UInt8) (n : Nat), b ∈ byteLit "\"\\btnfr" →
      escapeLetters.lookup b = some (Char.ofNat n) → c.toNat = n → CharCode c [92, b] := by
    intro b n hb hlookup hn
    rw [← hn, Char.ofNat_toNat] at hlookup
    exact .letter hb hlookup
  simp only [encodeCharAscii]
  by_cases hquote : c = '"'
  · rw [if_pos hquote]
    exact hletter 34 34 (by decide) rfl (by rw [hquote]; rfl)
  by_cases hslash : c = '\\'
  · rw [if_neg hquote, if_pos hslash]
    exact hletter 92 92 (by decide) rfl (by rw [hslash]; rfl)
  rw [if_neg hquote, if_neg hslash]
  by_cases h08 : c.toNat = 0x08
  · rw [if_pos h08]
    exact hletter 98 8 (by decide) rfl h08
  by_cases h09 : c.toNat = 0x09
  · rw [if_neg h08, if_pos h09]
    exact hletter 116 9 (by decide) rfl h09
  by_cases h0a : c.toNat = 0x0a
  · rw [if_neg h08, if_neg h09, if_pos h0a]
    exact hletter 110 10 (by decide) rfl h0a
  by_cases h0c : c.toNat = 0x0c
  · rw [if_neg h08, if_neg h09, if_neg h0a, if_pos h0c]
    exact hletter 102 12 (by decide) rfl h0c
  by_cases h0d : c.toNat = 0x0d
  · rw [if_neg h08, if_neg h09, if_neg h0a, if_neg h0c, if_pos h0d]
    exact hletter 114 13 (by decide) rfl h0d
  rw [if_neg h08, if_neg h09, if_neg h0a, if_neg h0c, if_neg h0d]
  split
  · rename_i hprintable
    exact .raw hquote hslash hprintable
  · split
    · rename_i hbasic
      exact .basic (by omega)
    · have hmask : (c.toNat - 0x10000) &&& 0x3FF = (c.toNat - 0x10000) % 0x400 :=
        Nat.and_two_pow_sub_one_eq_mod _ 10
      rw [hmask, Nat.shiftRight_eq_div_pow]
      exact .supplementary (by omega)

/-- An escape is printable. -/
theorem pushUEscape_printable (codeUnit : Nat) : ∀ b ∈ pushUEscape codeUnit, Printable b := by
  have hdigit : ∀ i, Printable (hex.get i) := by decide
  have hlead : ∀ b ∈ byteLit "\\u", Printable b := List.all_iff_forall_prop.mp (by decide)
  intro b hb
  rcases List.mem_append.mp hb with hb | hb
  · exact hlead b hb
  · simp only [List.mem_cons, List.not_mem_nil, or_false] at hb
    rcases hb with rfl | rfl | rfl | rfl <;> exact hdigit _

/-- The byte of a printable character is printable. -/
theorem printable_toUInt8 {n : Nat} (h : 0x20 ≤ n ∧ n ≤ 0x7e) : Printable n.toUInt8 := by
  rw [Printable, toNat_toUInt8 (by omega)]
  exact h

theorem encodeCharAscii_printable (c : Char) : ∀ b ∈ encodeCharAscii c, Printable b := by
  have hletter : ∀ b ∈ byteLit "\"\\btnfr", Printable b := List.all_iff_forall_prop.mp (by decide)
  have hcode := encodeCharAscii_charCode c
  intro b hb
  generalize encodeCharAscii c = code at hcode hb
  cases hcode with
  | raw hquote hslash hprintable =>
      rw [List.mem_singleton.mp hb]
      exact printable_toUInt8 hprintable
  | letter hb' hlookup =>
      rw [List.mem_cons, List.mem_singleton] at hb
      rcases hb with rfl | rfl
      · decide
      · exact hletter b hb'
  | basic h => exact pushUEscape_printable _ b hb
  | supplementary h =>
      rcases List.mem_append.mp hb with hb | hb
      · exact pushUEscape_printable _ b hb
      · exact pushUEscape_printable _ b hb

/-- The encoder writes printable bytes only. -/
theorem encodeStringAscii_printable (s : String) : ∀ b ∈ encodeStringAscii s, Printable b := by
  intro b hb
  have hquote : ∀ b ∈ byteLit "\"", Printable b := List.all_iff_forall_prop.mp (by decide)
  unfold encodeStringAscii at hb
  rw [List.mem_append, List.mem_append, List.mem_flatMap] at hb
  rcases hb with (hb | ⟨c, _, hb⟩) | hb
  · exact hquote b hb
  · exact encodeCharAscii_printable c b hb
  · exact hquote b hb

/-! ## Reading back -/

/-- A JSON reader reads back every character the encoder writes. -/
theorem parseChar_encodeCharAscii (c : Char) (rest : Bytes) :
    parseChar (encodeCharAscii c ++ rest) = some (some c, rest) := by
  have hletter : ∀ b ∈ byteLit "\"\\btnfr", b ≠ 117 := List.all_iff_forall_prop.mp (by decide)
  have hcode := encodeCharAscii_charCode c
  generalize encodeCharAscii c = code at hcode
  cases hcode with
  | raw hquote hslash hprintable =>
      exact parseChar_raw hquote hslash hprintable.1 (by omega) rest
  | letter hb hlookup => exact parseChar_letter (hletter _ hb) hlookup rest
  | basic h =>
      rw [pushUEscape_eq]
      exact parseChar_unicodeEscape h rest
  | supplementary h =>
      rw [pushUEscape_eq, pushUEscape_eq]
      exact parseChar_supplementary h rest

/-- A JSON reader reads back every string the encoder writes. -/
theorem encodeStringAscii_readBack : ReadBack encodeStringAscii := by
  intro s
  refine ⟨s.toList.flatMap encodeCharAscii ++ [34], rfl, fun rest => ?_⟩
  rw [List.append_assoc, List.singleton_append]
  exact parseString_append parseChar_encodeCharAscii s rest

section Sorted

variable {φ : Type} [F64 φ]

theorem canonicalItems_eq_map (items : List (Value φ)) :
    canonicalItems items = items.map canonical := by
  induction items with
  | nil => rfl
  | cons v rest ih => rw [canonicalItems, ih, List.map_cons]

theorem canonicalMembers_eq_map (members : List (String × Value φ)) :
    canonicalMembers members = members.map fun m => (m.1, canonical m.2) := by
  induction members with
  | nil => rfl
  | cons m rest ih => rw [canonicalMembers, ih, List.map_cons]

/-- Sorting leaves sorted members in place. -/
theorem sortKeys_of_sorted {members : List (String × Bytes)}
    (h : members.Pairwise fun a b => a.1 < b.1) : sortKeys members = members := by
  refine List.Pairwise.insertionSort_eq (h.imp fun hlt => ?_)
  exact String.lt_asymm hlt

/-- On sorted values the encoder writes the compact text. -/
theorem canonical_eq_render {numbers : Number φ → Prop} {v : Value φ} (h : v.Formed numbers) :
    canonical v = render encodeStringAscii v := by
  induction h with
  | null => rfl
  | bool b => cases b <;> rfl
  | number h => rfl
  | string s => rfl
  | array h ih =>
      rw [canonical, render, canonicalItems_eq_map, renderItems_eq_map, List.map_congr_left ih]
  | @object members sorted h ih =>
      have hsorted : (members.map fun m => (m.1, canonical m.2)).Pairwise fun a b => a.1 < b.1 :=
        List.pairwise_map.mpr sorted
      rw [canonical, render, canonicalMembers_eq_map, sortKeys_of_sorted hsorted,
        renderMembers_eq_map, List.map_map]
      have htexts : ∀ m ∈ members, (fun m : String × Value φ => encodeStringAscii m.1 ++
          byteLit ":" ++ canonical m.2) m = encodeStringAscii m.1 ++ byteLit ":" ++
            render encodeStringAscii m.2 := fun m hm => by rw [← ih m hm]
      rw [← List.map_congr_left htexts]
      rfl

/-- Integer values are told apart by their canonical text. -/
theorem canonical_injective {u v : Value φ} (hu : u.Formed Number.IsInteger)
    (hv : v.Formed Number.IsInteger) (h : canonical u = canonical v) : u = v := by
  rw [canonical_eq_render hu, canonical_eq_render hv] at h
  exact render_injective encodeStringAscii_readBack hu hv h

end Sorted

end Pqroute
end SkPqc
