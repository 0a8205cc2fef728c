import SkPqc.Foundations.Text

/-!
# Decimal numerals

Unsigned integers print as ASCII digits without a leading zero.  A reader that
takes the longest run of digits gets the number back, whatever follows the
numeral, as long as that does not start with a digit itself.

Main results:

- Theorem `takeWhile_decimal_append`: the run of digits at the head of a text
  that starts with a numeral is the numeral.
- Theorem `ofDecimal_decimal`: a numeral denotes the number it was printed from.
- Theorem `head?_decimal_eq_zero_iff`: only zero starts with the digit zero.
- Theorem `parseU64_toString`: a printed 64-bit integer is parsed back.
-/

namespace Rust

/-- An ASCII digit. -/
def isDigit (b : UInt8) : Bool := 48 ≤ b && b ≤ 57

/-- The number that a string of digits denotes. -/
def ofDecimal (ds : Bytes) : Nat := ds.foldl (fun n b => n * 10 + (b.toNat - 48)) 0

/-- The numeral that `Display` prints for an unsigned integer. -/
def decimal (n : Nat) : Bytes := utf8 (toString n)

/-- A digit is one byte. -/
theorem utf8EncodeChar_of_isDigit {c : Char} (h : c.isDigit) :
    String.utf8EncodeChar c = [c.toNat.toUInt8] ∧ 48 ≤ c.toNat ∧ c.toNat ≤ 57 := by
  have hbounds : 48 ≤ c.toNat ∧ c.toNat ≤ 57 := by
    simpa [Char.isDigit, UInt32.le_iff_toNat_le] using h
  exact ⟨utf8EncodeChar_of_lt (by omega), hbounds⟩

theorem decimal_eq_map (n : Nat) :
    decimal n = (Nat.toDigits 10 n).map fun c => c.toNat.toUInt8 := by
  have hdigits : ∀ c ∈ Nat.toDigits 10 n, String.utf8EncodeChar c = [c.toNat.toUInt8] :=
    fun c hc => (utf8EncodeChar_of_isDigit
      (Nat.isDigit_of_mem_toDigits (by decide) (by decide) hc)).1
  rw [decimal, utf8, Nat.toString_eq_repr, Nat.toList_repr, List.flatMap_congr hdigits,
    List.map_eq_flatMap]

theorem decimal_ne_nil (n : Nat) : decimal n ≠ [] := by
  simp [decimal_eq_map]

theorem isDigit_of_mem_decimal {n : Nat} : ∀ b ∈ decimal n, isDigit b := by
  intro b hb
  rw [decimal_eq_map, List.mem_map] at hb
  rcases hb with ⟨c, hc, rfl⟩
  rcases utf8EncodeChar_of_isDigit (Nat.isDigit_of_mem_toDigits (by decide) (by decide) hc)
    with ⟨-, hlow, hhigh⟩
  simp only [isDigit, Bool.and_eq_true, decide_eq_true_eq, UInt8.le_iff_toNat_le]
  simp
  omega

/-- A numeral denotes the number it was printed from. -/
theorem ofDecimal_decimal (n : Nat) : ofDecimal (decimal n) = n := by
  have hfold : ∀ (cs : List Char) (init : Nat), (∀ c ∈ cs, c.isDigit) →
      (cs.map fun c => c.toNat.toUInt8).foldl (fun n b => n * 10 + (b.toNat - 48)) init =
        Nat.ofDigitChars 10 cs init := by
    intro cs
    induction cs with
    | nil => simp
    | cons c cs ih =>
        intro init hcs
        have hc := utf8EncodeChar_of_isDigit (hcs c List.mem_cons_self)
        have hbyte : c.toNat.toUInt8.toNat = c.toNat := by
          simp
          omega
        rw [List.map_cons, List.foldl_cons, ih _ fun d hd => hcs d (List.mem_cons_of_mem c hd),
          Nat.ofDigitChars_cons, hbyte, Nat.mul_comm]
        rfl
  rw [decimal_eq_map, ofDecimal,
    hfold _ _ fun c hc => Nat.isDigit_of_mem_toDigits (by decide) (by decide) hc,
    Nat.ofDigitChars_ten_toDigits]

/-- Only zero starts with the digit zero. -/
theorem head?_decimal_eq_zero_iff (n : Nat) : (decimal n).head? = some 48 ↔ n = 0 := by
  have hchars : (Nat.toDigits 10 n).head? = some '0' ↔ n = 0 := by
    induction n using Nat.base_induction 10 (by decide) with
    | single m hm => simp [Nat.toDigits_of_lt_base hm]
    | digit m k hk hm ih =>
        rw [← Nat.toDigits_append_toDigits (by decide) hm hk, List.head?_append_of_ne_nil _
          Nat.toDigits_ne_nil, ih]
        omega
  rw [← hchars, decimal_eq_map, List.head?_map]
  cases hhead : (Nat.toDigits 10 n).head? with
  | none => simp
  | some c =>
      have hc := utf8EncodeChar_of_isDigit
        (Nat.isDigit_of_mem_toDigits (by decide) (by decide) (List.mem_of_mem_head? hhead))
      simp only [Option.map_some, Option.some.injEq]
      constructor
      · intro h
        have hnat := congrArg UInt8.toNat h
        simp at hnat
        exact Char.toNat_inj.mp (by simp; omega)
      · rintro rfl
        rfl

/-! ## Reading a numeral -/

/-- A text does not go on with a digit. -/
def NoDigit (text : Bytes) : Prop := ∀ b ∈ text.head?, isDigit b = false

theorem takeWhile_decimal_append {n : Nat} {rest : Bytes} (h : NoDigit rest) :
    (decimal n ++ rest).takeWhile isDigit = decimal n := by
  rw [List.takeWhile_append_of_pos isDigit_of_mem_decimal]
  cases rest with
  | nil => simp
  | cons b rest => simp [h b rfl]

theorem dropWhile_decimal_append {n : Nat} {rest : Bytes} (h : NoDigit rest) :
    (decimal n ++ rest).dropWhile isDigit = rest := by
  rw [List.dropWhile_append_of_pos isDigit_of_mem_decimal]
  cases rest with
  | nil => simp
  | cons b rest => simp [h b rfl]

/-! ## Parsing a whole text -/

/-- `str::parse::<u64>`: digits behind an optional plus sign. -/
def parseU64 (s : String) : Option UInt64 :=
  let digits := match utf8 s with
    | 43 :: rest => rest
    | bytes => bytes
  if digits ≠ [] ∧ digits.all isDigit ∧ ofDecimal digits < 2 ^ 64 then
    some (UInt64.ofNat (ofDecimal digits))
  else
    none

theorem head_decimal (n : Nat) : ∃ b tail, decimal n = b :: tail ∧ isDigit b := by
  cases hdigits : decimal n with
  | nil => exact absurd hdigits (decimal_ne_nil n)
  | cons b tail =>
      refine ⟨b, tail, rfl, isDigit_of_mem_decimal (n := n) b ?_⟩
      rw [hdigits]
      exact List.mem_cons_self

/-- A printed 64-bit integer is parsed back. -/
theorem parseU64_toString (n : UInt64) : parseU64 (toString n) = some n := by
  have htext : utf8 (toString n) = decimal n.toNat := rfl
  have hdigits : (match utf8 (toString n) with
      | 43 :: rest => rest
      | bytes => bytes) = decimal n.toNat := by
    rw [htext]
    rcases head_decimal n.toNat with ⟨b, tail, hcons, hb⟩
    rw [hcons]
    split
    · rename_i hplus
      cases hplus
      cases hb
    · rfl
  have hfits : ofDecimal (decimal n.toNat) < 2 ^ 64 := by
    rw [ofDecimal_decimal]
    exact n.toNat_lt
  unfold parseU64
  rw [hdigits]
  dsimp only
  rw [if_pos ⟨decimal_ne_nil _, List.all_eq_true.mpr isDigit_of_mem_decimal, hfits⟩,
    ofDecimal_decimal, UInt64.ofNat_toNat]

/-- Different 64-bit integers print differently. -/
theorem toString_u64_injective : Function.Injective fun n : UInt64 => toString n := by
  intro n m h
  have hparse := parseU64_toString n
  rw [show toString n = toString m from h, parseU64_toString] at hparse
  exact (Option.some.inj hparse).symm

end Rust
