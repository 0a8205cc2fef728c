import SkPqc.Foundations.Text

/-!
# Base64

A Base64 engine is a parameter: an encoder to text and a decoder of text bytes.
`Engine.Laws` is the documented behaviour that results rely on, and `standard`
is the padded standard alphabet.

Main results:

- Theorem `decodeBytes_encodeBytes`: the standard decoder inverts the encoder.
- Theorem `encodeBytes_of_decodeBytes`: what decodes is a canonical encoding.
- Theorems `standard_laws` and `standard_exact`: the standard engine obeys the
  laws and accepts canonical encodings only.
- Theorem `standard_padded`: it writes four characters for each three bytes.
-/

namespace Base64

open Rust

/-- A Base64 engine; a decoding error is its display text. -/
structure Engine where
  encode : Bytes → String
  decode : Bytes → Except String Bytes

/-- Decoding inverts encoding and never lengthens its input. -/
structure Engine.Laws (B : Engine) : Prop where
  decode_encode : ∀ bs, B.decode (utf8 (B.encode bs)) = .ok bs
  length_decode : ∀ text bs, B.decode text = .ok bs → bs.length ≤ text.length

/-- Decoding accepts the padded canonical encodings and nothing else. -/
structure Engine.Exact (B : Engine) : Prop where
  decode_eq_ok_iff : ∀ text bs, B.decode text = .ok bs ↔ text = utf8 (B.encode bs)

/-- Each group of three bytes, the last one filled up, is four characters. -/
structure Engine.Padded (B : Engine) : Prop where
  length_encode : ∀ bs, (utf8 (B.encode bs)).length = (bs.length + 2) / 3 * 4

/-! ## The standard alphabet -/

/-- The symbol of a six-bit value. -/
def symbol (v : Nat) : UInt8 :=
  UInt8.ofNat
    (if v < 26 then 65 + v
    else if v < 52 then 71 + v
    else if v < 62 then v - 4
    else if v = 62 then 43 else 47)

/-- The six-bit value of a symbol. -/
def value (c : UInt8) : Option Nat :=
  if 65 ≤ c.toNat ∧ c.toNat ≤ 90 then some (c.toNat - 65)
  else if 97 ≤ c.toNat ∧ c.toNat ≤ 122 then some (c.toNat - 71)
  else if 48 ≤ c.toNat ∧ c.toNat ≤ 57 then some (c.toNat + 4)
  else if c.toNat = 43 then some 62
  else if c.toNat = 47 then some 63 else none

/-- The padding symbol `=`. -/
def pad : UInt8 := 61

def encodeBytes : Bytes → Bytes
  | [] => []
  | [a] => [symbol (a.toNat / 4), symbol (a.toNat % 4 * 16), pad, pad]
  | [a, b] =>
      [symbol (a.toNat / 4), symbol (a.toNat % 4 * 16 + b.toNat / 16),
        symbol (b.toNat % 16 * 4), pad]
  | a :: b :: c :: rest =>
      symbol (a.toNat / 4) :: symbol (a.toNat % 4 * 16 + b.toNat / 16) ::
        symbol (b.toNat % 16 * 4 + c.toNat / 64) :: symbol (c.toNat % 64) :: encodeBytes rest

/-- The last group: one or two pads, whose bits have to be zero. -/
def decodeLast (w x y z : UInt8) : Option Bytes := do
  let w ← value w
  let x ← value x
  if y = pad ∧ z = pad then
    if x % 16 = 0 then some [UInt8.ofNat (w * 4 + x / 16)] else none
  else
    let y ← value y
    if z = pad ∧ y % 4 = 0 then
      some [UInt8.ofNat (w * 4 + x / 16), UInt8.ofNat (x % 16 * 16 + y / 4)]
    else none

/-- A group without padding. -/
def decodeGroup (w x y z : UInt8) : Option Bytes := do
  let w ← value w
  let x ← value x
  let y ← value y
  let z ← value z
  some [UInt8.ofNat (w * 4 + x / 16), UInt8.ofNat (x % 16 * 16 + y / 4),
    UInt8.ofNat (y % 4 * 64 + z)]

def decodeBytes : Bytes → Option Bytes
  | [] => some []
  | w :: x :: y :: z :: rest =>
      if rest = [] ∧ z = pad then decodeLast w x y z
      else do
        let group ← decodeGroup w x y z
        let tail ← decodeBytes rest
        some (group ++ tail)
  | _ => none

/-- The standard engine of padded Base64. -/
def standard : Engine where
  encode bs := String.ofList ((encodeBytes bs).map fun b => Char.ofNat b.toNat)
  decode text :=
    match decodeBytes text with
    | some bs => .ok bs
    | none => .error "Invalid input"

/-! ## Round trip -/

theorem value_symbol {v : Nat} (h : v < 64) : value (symbol v) = some v := by
  have hall : ∀ v < 64, value (symbol v) = some v := by decide
  exact hall v h

theorem symbol_ne_pad {v : Nat} (h : v < 64) : symbol v ≠ pad := by
  have hall : ∀ v < 64, symbol v ≠ pad := by decide
  exact hall v h

theorem symbol_lt {v : Nat} (h : v < 64) : (symbol v).toNat < 128 := by
  have hall : ∀ v < 64, (symbol v).toNat < 128 := by decide
  exact hall v h

theorem ofNat_eq {a : UInt8} {n : Nat} (h : n = a.toNat) : UInt8.ofNat n = a := by
  rw [h]
  exact UInt8.ofNat_toNat

/-- A full group decodes to its three bytes. -/
theorem decodeGroup_symbols (a b c : UInt8) :
    decodeGroup (symbol (a.toNat / 4)) (symbol (a.toNat % 4 * 16 + b.toNat / 16))
      (symbol (b.toNat % 16 * 4 + c.toNat / 64)) (symbol (c.toNat % 64)) = some [a, b, c] := by
  have ha : a.toNat < 256 := a.toNat_lt
  have hb : b.toNat < 256 := b.toNat_lt
  have hc : c.toNat < 256 := c.toNat_lt
  unfold decodeGroup
  rw [value_symbol (by omega), value_symbol (by omega), value_symbol (by omega),
    value_symbol (by omega)]
  simp only [Option.bind_eq_bind, Option.bind_some]
  rw [ofNat_eq (show _ = a.toNat by omega), ofNat_eq (show _ = b.toNat by omega),
    ofNat_eq (show _ = c.toNat by omega)]

/-- A last group of two bytes. -/
theorem decodeLast_two (a b : UInt8) :
    decodeLast (symbol (a.toNat / 4)) (symbol (a.toNat % 4 * 16 + b.toNat / 16))
      (symbol (b.toNat % 16 * 4)) pad = some [a, b] := by
  have ha : a.toNat < 256 := a.toNat_lt
  have hb : b.toNat < 256 := b.toNat_lt
  have hpad : symbol (b.toNat % 16 * 4) ≠ pad := symbol_ne_pad (by omega)
  unfold decodeLast
  rw [value_symbol (by omega), value_symbol (by omega), value_symbol (by omega)]
  simp only [Option.bind_eq_bind, Option.bind_some, hpad, false_and, if_false]
  rw [if_pos ⟨trivial, by omega⟩, ofNat_eq (show _ = a.toNat by omega),
    ofNat_eq (show _ = b.toNat by omega)]

/-- A last group of one byte. -/
theorem decodeLast_one (a : UInt8) :
    decodeLast (symbol (a.toNat / 4)) (symbol (a.toNat % 4 * 16)) pad pad = some [a] := by
  have ha : a.toNat < 256 := a.toNat_lt
  unfold decodeLast
  rw [value_symbol (by omega), value_symbol (by omega)]
  simp only [Option.bind_eq_bind, Option.bind_some, and_self, if_true]
  rw [if_pos (by omega), ofNat_eq (show _ = a.toNat by omega)]

/-- The standard decoder inverts the encoder. -/
theorem decodeBytes_encodeBytes (bs : Bytes) : decodeBytes (encodeBytes bs) = some bs := by
  fun_induction encodeBytes bs with
  | case1 => rfl
  | case2 a =>
      rw [decodeBytes, if_pos ⟨rfl, rfl⟩]
      exact decodeLast_one a
  | case3 a b =>
      rw [decodeBytes, if_pos ⟨rfl, rfl⟩]
      exact decodeLast_two a b
  | case4 a b c rest ih =>
      have hpad : symbol (c.toNat % 64) ≠ pad := symbol_ne_pad (Nat.mod_lt _ (by decide))
      rw [decodeBytes, if_neg (fun h => hpad h.2), decodeGroup_symbols, ih]
      rfl

/-! ## Canonicity -/

/-- Only its symbol has a value. -/
theorem symbol_of_value {c : UInt8} {v : Nat} (h : value c = some v) : symbol v = c ∧ v < 64 := by
  have hc : c.toNat < 256 := c.toNat_lt
  unfold value at h
  split at h
  · cases h
    refine ⟨ofNat_eq ?_, by omega⟩
    rw [if_pos (by omega)]
    omega
  · split at h
    · cases h
      refine ⟨ofNat_eq ?_, by omega⟩
      rw [if_neg (by omega), if_pos (by omega)]
      omega
    · split at h
      · cases h
        refine ⟨ofNat_eq ?_, by omega⟩
        rw [if_neg (by omega), if_neg (by omega), if_pos (by omega)]
        omega
      · split at h
        · rename_i hplus
          cases h
          exact ⟨ofNat_eq hplus.symm, by decide⟩
        · split at h
          · rename_i hslash
            cases h
            exact ⟨ofNat_eq hslash.symm, by decide⟩
          · cases h

/-! The bytes that 6-bit values make up, and the first two values in them. -/

section Sextets

variable {v u t r : Nat}

theorem toNat_firstByte (hv : v < 64) (hu : u < 64) :
    (UInt8.ofNat (v * 4 + u / 16)).toNat = v * 4 + u / 16 := by
  simp
  omega

theorem toNat_secondByte (ht : t < 64) :
    (UInt8.ofNat (u % 16 * 16 + t / 4)).toNat = u % 16 * 16 + t / 4 := by
  simp
  omega

theorem toNat_thirdByte (hr : r < 64) :
    (UInt8.ofNat (t % 4 * 64 + r)).toNat = t % 4 * 64 + r := by
  simp
  omega

theorem firstSextet_eq (hu : u < 64) : (v * 4 + u / 16) / 4 = v := by omega

theorem secondSextet_eq (hu : u < 64) (ht : t < 64) :
    (v * 4 + u / 16) % 4 * 16 + (u % 16 * 16 + t / 4) / 16 = u := by omega

end Sextets

/-- A last group that decodes is the encoding of its bytes. -/
theorem encodeBytes_of_decodeLast {w x y z : UInt8} {bs : Bytes}
    (h : decodeLast w x y z = some bs) : encodeBytes bs = [w, x, y, z] := by
  unfold decodeLast at h
  simp only [Option.bind_eq_bind, Option.bind_eq_some_iff] at h
  rcases h with ⟨v, hv, u, hu, h⟩
  rcases symbol_of_value hv with ⟨rfl, hv64⟩
  rcases symbol_of_value hu with ⟨rfl, hu64⟩
  split at h
  · rename_i hpad
    rcases hpad with ⟨rfl, rfl⟩
    split at h
    · cases h
      have hsecond : (v * 4 + u / 16) % 4 * 16 = u := by omega
      rw [encodeBytes, toNat_firstByte hv64 hu64, firstSextet_eq hu64, hsecond]
    · cases h
  · rcases Option.bind_eq_some_iff.mp h with ⟨t, ht, hlast⟩
    rcases symbol_of_value ht with ⟨rfl, ht64⟩
    split at hlast
    · rename_i hbits
      rcases hbits with ⟨rfl, hbits⟩
      cases hlast
      have hthird : (u % 16 * 16 + t / 4) % 16 * 4 = t := by omega
      rw [encodeBytes, toNat_firstByte hv64 hu64, toNat_secondByte ht64, firstSextet_eq hu64,
        secondSextet_eq hu64 ht64, hthird]
    · cases hlast

/-- A full group that decodes is the encoding of its bytes, before any rest. -/
theorem encodeBytes_of_decodeGroup {w x y z : UInt8} {group : Bytes}
    (h : decodeGroup w x y z = some group) (tail : Bytes) :
    encodeBytes (group ++ tail) = w :: x :: y :: z :: encodeBytes tail := by
  unfold decodeGroup at h
  simp only [Option.bind_eq_bind, Option.bind_eq_some_iff] at h
  rcases h with ⟨v, hv, u, hu, t, ht, r, hr, h⟩
  rcases symbol_of_value hv with ⟨rfl, hv64⟩
  rcases symbol_of_value hu with ⟨rfl, hu64⟩
  rcases symbol_of_value ht with ⟨rfl, ht64⟩
  rcases symbol_of_value hr with ⟨rfl, hr64⟩
  cases h
  have hthird : (u % 16 * 16 + t / 4) % 16 * 4 + (t % 4 * 64 + r) / 64 = t := by omega
  have hfourth : (t % 4 * 64 + r) % 64 = r := by omega
  simp only [List.cons_append, List.nil_append]
  rw [encodeBytes, toNat_firstByte hv64 hu64, toNat_secondByte ht64, toNat_thirdByte hr64,
    firstSextet_eq hu64, secondSextet_eq hu64 ht64, hthird, hfourth]

/-- What decodes is the encoding of the decoded bytes. -/
theorem encodeBytes_of_decodeBytes {text bs : Bytes} (h : decodeBytes text = some bs) :
    encodeBytes bs = text := by
  fun_induction decodeBytes text generalizing bs with
  | case1 =>
      cases h
      rfl
  | case2 w x y z rest hlast =>
      rw [encodeBytes_of_decodeLast h, hlast.1]
  | case3 w x y z rest _ ih =>
      simp only [Option.bind_eq_bind, Option.bind_eq_some_iff] at h
      rcases h with ⟨group, hgroup, tail, htail, h⟩
      cases h
      rw [encodeBytes_of_decodeGroup hgroup, ih htail]
  | case4 => cases h

/-! ## The standard engine -/

/-- Every encoded byte is an ASCII character. -/
theorem encodeBytes_lt (bs : Bytes) : ∀ b ∈ encodeBytes bs, b.toNat < 128 := by
  have hpad : pad.toNat < 128 := by decide
  fun_induction encodeBytes bs with
  | case1 => simp
  | case2 a =>
      have ha : a.toNat < 256 := a.toNat_lt
      have hw := symbol_lt (show a.toNat / 4 < 64 by omega)
      have hx := symbol_lt (show a.toNat % 4 * 16 < 64 by omega)
      simp [hw, hx, hpad]
  | case3 a b =>
      have ha : a.toNat < 256 := a.toNat_lt
      have hb : b.toNat < 256 := b.toNat_lt
      have hw := symbol_lt (show a.toNat / 4 < 64 by omega)
      have hx := symbol_lt (show a.toNat % 4 * 16 + b.toNat / 16 < 64 by omega)
      have hy := symbol_lt (show b.toNat % 16 * 4 < 64 by omega)
      simp [hw, hx, hy, hpad]
  | case4 a b c rest ih =>
      have ha : a.toNat < 256 := a.toNat_lt
      have hb : b.toNat < 256 := b.toNat_lt
      have hc : c.toNat < 256 := c.toNat_lt
      have hw := symbol_lt (show a.toNat / 4 < 64 by omega)
      have hx := symbol_lt (show a.toNat % 4 * 16 + b.toNat / 16 < 64 by omega)
      have hy := symbol_lt (show b.toNat % 16 * 4 + c.toNat / 64 < 64 by omega)
      have hz := symbol_lt (show c.toNat % 64 < 64 by omega)
      simp only [List.mem_cons, forall_eq_or_imp]
      exact ⟨hw, hx, hy, hz, ih⟩

theorem length_of_decodeLast {w x y z : UInt8} {bs : Bytes} (h : decodeLast w x y z = some bs) :
    bs.length ≤ 2 := by
  unfold decodeLast at h
  simp only [Option.bind_eq_bind, Option.bind_eq_some_iff] at h
  rcases h with ⟨_, _, _, _, h⟩
  split at h
  · split at h
    · cases h
      simp
    · cases h
  · rcases Option.bind_eq_some_iff.mp h with ⟨_, _, h⟩
    split at h
    · cases h
      simp
    · cases h

theorem length_of_decodeGroup {w x y z : UInt8} {bs : Bytes} (h : decodeGroup w x y z = some bs) :
    bs.length = 3 := by
  unfold decodeGroup at h
  simp only [Option.bind_eq_bind, Option.bind_eq_some_iff] at h
  rcases h with ⟨_, _, _, _, _, _, _, _, h⟩
  cases h
  rfl

/-- Decoding never lengthens its input. -/
theorem length_of_decodeBytes {text bs : Bytes} (h : decodeBytes text = some bs) :
    bs.length ≤ text.length := by
  fun_induction decodeBytes text generalizing bs with
  | case1 =>
      cases h
      simp
  | case2 w x y z rest _ =>
      have hlen := length_of_decodeLast h
      simp only [List.length_cons]
      omega
  | case3 w x y z rest _ ih =>
      simp only [Option.bind_eq_bind, Option.bind_eq_some_iff] at h
      rcases h with ⟨group, hgroup, tail, htail, h⟩
      cases h
      have hlen := length_of_decodeGroup hgroup
      have hrest := ih htail
      simp only [List.length_append, List.length_cons]
      omega
  | case4 => cases h

/-- The text bytes of an encoding are the encoded bytes. -/
theorem utf8_standard_encode (bs : Bytes) : utf8 (standard.encode bs) = encodeBytes bs :=
  utf8_ofList_map (encodeBytes_lt bs)

theorem standard_laws : standard.Laws where
  decode_encode bs := by
    rw [utf8_standard_encode]
    simp [standard, decodeBytes_encodeBytes]
  length_decode text bs h := by
    simp only [standard] at h
    split at h
    · rename_i out hout
      cases h
      exact length_of_decodeBytes hout
    · cases h

theorem standard_exact : standard.Exact where
  decode_eq_ok_iff text bs := by
    rw [utf8_standard_encode]
    constructor
    · intro h
      simp only [standard] at h
      split at h
      · rename_i out hout
        cases h
        exact (encodeBytes_of_decodeBytes hout).symm
      · cases h
    · rintro rfl
      simp [standard, decodeBytes_encodeBytes]

theorem length_encodeBytes (bs : Bytes) : (encodeBytes bs).length = (bs.length + 2) / 3 * 4 := by
  fun_induction encodeBytes bs with
  | case1 => rfl
  | case2 a => simp
  | case3 a b => simp
  | case4 a b c rest ih =>
      simp only [List.length_cons, ih]
      omega

theorem standard_padded : standard.Padded where
  length_encode bs := by
    rw [utf8_standard_encode, length_encodeBytes]

end Base64
