import SkPqc.Foundations.Text

/-!
# Hexadecimal text

A hexadecimal codec is a parameter: an encoder of byte strings and a decoder of
texts.  `Codec.Laws` is the documented behaviour that results rely on, and
`standard` writes two lower-case digits a byte and reads either case.

Main results:

- Theorem `Codec.Laws.encode_injective`: a text determines its bytes.
- Theorem `standard_laws`: the standard codec obeys the laws.
-/

namespace Hex

open Rust

/-- A hexadecimal codec; decoding either fails or gives the bytes. -/
structure Codec where
  encode : Bytes → String
  decode : String → Option Bytes

/-- Decoding inverts encoding. -/
structure Codec.Laws (H : Codec) : Prop where
  decode_encode : ∀ bs, H.decode (H.encode bs) = some bs

theorem Codec.Laws.encode_injective {H : Codec} (hex : H.Laws) : Function.Injective H.encode := by
  intro as bs h
  have hdecode := hex.decode_encode as
  rw [h, hex.decode_encode] at hdecode
  exact (Option.some.inj hdecode).symm

/-! ## Two digits a byte -/

/-- The value of a hexadecimal digit, of either case. -/
def digitValue (b : UInt8) : Option Nat :=
  if 48 ≤ b ∧ b ≤ 57 then some (b.toNat - 48)
  else if 97 ≤ b ∧ b ≤ 102 then some (b.toNat - 87)
  else if 65 ≤ b ∧ b ≤ 70 then some (b.toNat - 55)
  else none

/-- The two digits of a byte. -/
def encodeByte (b : UInt8) : List Char :=
  [Nat.digitChar (b.toNat / 16), Nat.digitChar (b.toNat % 16)]

/-- Two lower-case digits for each byte. -/
def encode (bs : Bytes) : String := String.ofList (bs.flatMap encodeByte)

def decodeBytes : Bytes → Option Bytes
  | [] => some []
  | [_] => none
  | hi :: lo :: rest => do
      let hi ← digitValue hi
      let lo ← digitValue lo
      let bs ← decodeBytes rest
      some (UInt8.ofNat (hi * 16 + lo) :: bs)

/-- Either case; an odd length and any other character fail. -/
def decode (s : String) : Option Bytes := decodeBytes (utf8 s)

/-- The standard codec. -/
def standard : Codec where
  encode := encode
  decode := decode

/-- The digit of a number below 16 is one byte, and is read as that number. -/
theorem digitChar_spec {n : Nat} (h : n < 16) :
    String.utf8EncodeChar (Nat.digitChar n) = [(Nat.digitChar n).toNat.toUInt8] ∧
      digitValue (Nat.digitChar n).toNat.toUInt8 = some n := by
  have hall : ∀ i : Fin 16, (Nat.digitChar i).toNat < 128 ∧
      digitValue (Nat.digitChar i).toNat.toUInt8 = some i.val := by decide
  have hdigit := hall ⟨n, h⟩
  exact ⟨utf8EncodeChar_of_lt hdigit.1, hdigit.2⟩

/-- The standard decoder inverts the encoder. -/
theorem decode_encode (bs : Bytes) : decode (encode bs) = some bs := by
  unfold decode encode utf8
  rw [String.toList_ofList]
  induction bs with
  | nil => rfl
  | cons b bs ih =>
      have hb := b.toNat_lt
      rcases digitChar_spec (n := b.toNat / 16) (by omega) with ⟨hhi, hhi'⟩
      rcases digitChar_spec (n := b.toNat % 16) (by omega) with ⟨hlo, hlo'⟩
      have hbyte : UInt8.ofNat (b.toNat / 16 * 16 + b.toNat % 16) = b := by
        rw [Nat.div_add_mod', UInt8.ofNat_toNat]
      simp only [List.flatMap_cons, encodeByte, hhi, hlo, List.cons_append, List.nil_append,
        decodeBytes, hhi', hlo', ih, Option.bind_eq_bind, Option.bind_some, hbyte]

theorem standard_laws : standard.Laws where
  decode_encode := decode_encode

end Hex
