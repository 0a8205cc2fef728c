import SkPqc.Foundations.JsonMap
import SkPqc.Foundations.Decimal
import SkPqc.Foundations.Hex

/-!
# Reading JSON

A reader of RFC 8259 texts, as `serde_json::from_slice` documents it: integers
that fit 64 bits stay integers, later members of an object replace earlier ones
of the same key, and arrays and objects may nest below a limit only.

The parser itself is a parameter, `Parser`; `Parser.Laws` says that it accepts
the texts that the reader accepts, with the same values.

Main results:

- Theorem `parseValue_render`: the reader returns a value from its compact text
  exactly when the value nests below the limit.
- Theorem `parse_render`: so it does from a whole text.
- Theorem `render_injective`: values that are read back are told apart by their
  texts.
-/

namespace Json

open Rust PrefixCode

/-! ## Strings -/

/-- The four digits of a code unit. -/
def parseHex : Bytes → Option (Nat × Bytes)
  | a :: b :: c :: d :: rest => do
      let a ← Hex.digitValue a
      let b ← Hex.digitValue b
      let c ← Hex.digitValue c
      let d ← Hex.digitValue d
      some (a * 4096 + b * 256 + c * 16 + d, rest)
  | _ => none

/-- The character of a `\u` escape, after the `u`: a code unit of the basic
plane, or a surrogate pair. -/
def parseUnicode (text : Bytes) : Option (Char × Bytes) := do
  let (hi, rest) ← parseHex text
  if hi < 0xD800 ∨ 0xE000 ≤ hi then
    some (Char.ofNat hi, rest)
  else if 0xDC00 ≤ hi then
    none
  else
    match rest with
    | 92 :: 117 :: rest => do
        let (lo, rest) ← parseHex rest
        if 0xDC00 ≤ lo ∧ lo < 0xE000 then
          some (Char.ofNat (0x10000 + (hi - 0xD800) * 0x400 + (lo - 0xDC00)), rest)
        else
          none
    | _ => none

/-- The escapes of one letter. -/
def escapeLetters : List (UInt8 × Char) :=
  [(34, '"'), (92, '\\'), (47, '/'), (98, Char.ofNat 8), (102, Char.ofNat 12),
    (110, Char.ofNat 10), (114, Char.ofNat 13), (116, Char.ofNat 9)]

/-- The character of an escape, after the backslash. -/
def parseEscape : Bytes → Option (Char × Bytes)
  | [] => none
  | b :: rest =>
      if b = 117 then parseUnicode rest
      else (escapeLetters.lookup b).map fun c => (c, rest)

/-- One character of a string, or its closing quote. -/
def parseChar : Bytes → Option (Option Char × Bytes)
  | [] => none
  | b :: rest =>
      if b = 34 then some (none, rest)
      else if b = 92 then (parseEscape rest).map fun (c, rest) => (some c, rest)
      else if b < 0x20 then none
      else if b < 0x80 then some (some (Char.ofNat b.toNat), rest)
      else ((b :: rest).toByteArray.utf8DecodeChar? 0).map fun c =>
        (some c, (b :: rest).drop (String.utf8EncodeChar c).length)

/-- A string, after its opening quote. -/
def parseString (text : Bytes) : Option (String × Bytes) :=
  (readTerminated parseChar (text.length + 1) text).map fun (cs, rest) => (String.ofList cs, rest)

/-! ## Numbers -/

/-- The fraction of a numeral with its point, if there is one. -/
def parseFraction : Bytes → Option (Bytes × Bytes)
  | 46 :: rest =>
      if rest.takeWhile isDigit = [] then none
      else some (46 :: rest.takeWhile isDigit, rest.dropWhile isDigit)
  | text => some ([], text)

/-- The sign of an exponent, if there is one. -/
def parseSign : Bytes → Bytes × Bytes
  | 43 :: rest => ([43], rest)
  | 45 :: rest => ([45], rest)
  | text => ([], text)

/-- The exponent of a numeral with its letter, if there is one. -/
def parseExponent : Bytes → Option (Bytes × Bytes)
  | [] => some ([], [])
  | b :: rest =>
      if b = 101 ∨ b = 69 then
        let (sign, rest) := parseSign rest
        if rest.takeWhile isDigit = [] then none
        else some (b :: sign ++ rest.takeWhile isDigit, rest.dropWhile isDigit)
      else
        some ([], b :: rest)

section Reader

variable {φ : Type}

/-- The 64-bit integer of a sign and an absolute value.  There is no negative
zero among the integers. -/
def ofInteger (negative : Bool) (n : Nat) : Option (Number φ) :=
  if negative then
    if 0 < n ∧ n ≤ 2 ^ 63 then some (.negInt (Int64.ofInt (-n))) else none
  else
    if n < 2 ^ 64 then some (.posInt (UInt64.ofNat n)) else none

/-- The number of a numeral without its sign; `readFloat` reads the numerals
that are not 64-bit integers. -/
def parseUnsigned (readFloat : Bytes → Option φ) (sign text : Bytes) :
    Option (Number φ × Bytes) :=
  let digits := text.takeWhile isDigit
  if digits = [] ∨ digits.head? = some 48 ∧ digits ≠ [48] then
    none
  else do
    let (fraction, rest) ← parseFraction (text.dropWhile isDigit)
    let (exponent, rest) ← parseExponent rest
    let float := (readFloat (sign ++ digits ++ fraction ++ exponent)).map Number.float
    if fraction = [] ∧ exponent = [] then
      let n ← (ofInteger (sign ≠ []) (ofDecimal digits)).or float
      some (n, rest)
    else
      let n ← float
      some (n, rest)

def parseNumber (readFloat : Bytes → Option φ) : Bytes → Option (Number φ × Bytes)
  | 45 :: rest => parseUnsigned readFloat [45] rest
  | text => parseUnsigned readFloat [] text

/-! ## Arrays and objects -/

/-- The white space of JSON. -/
def isSpace (b : UInt8) : Bool := b = 0x20 || b = 0x09 || b = 0x0a || b = 0x0d

def skipSpace (text : Bytes) : Bytes := text.dropWhile isSpace

section Sequences

variable {α : Type} (element : Bytes → Option (α × Bytes)) (close : UInt8)

/-- One element or more, separated by commas, up to the closing bracket. -/
def parseElements : Nat → Bytes → Option (List α × Bytes)
  | 0, _ => none
  | fuel + 1, text => do
      let (a, rest) ← element (skipSpace text)
      match skipSpace rest with
      | [] => none
      | b :: rest =>
          if b = close then
            some ([a], rest)
          else if b = 44 then do
            let (as, rest) ← parseElements fuel rest
            some (a :: as, rest)
          else
            none

/-- The elements of an array or an object, after the opening bracket. -/
def parseSequence (text : Bytes) : Option (List α × Bytes) :=
  match skipSpace text with
  | [] => none
  | b :: rest =>
      if b = close then some ([], rest) else parseElements element close (text.length + 1) text

/-- A key and its element. -/
def parseMember : Bytes → Option ((String × α) × Bytes)
  | 34 :: rest => do
      let (key, rest) ← parseString rest
      match skipSpace rest with
      | 58 :: rest => do
          let (a, rest) ← element (skipSpace rest)
          some ((key, a), rest)
      | _ => none
  | _ => none

end Sequences

/-! ## Values -/

/-- A value without a bracket. -/
def parseScalar (readFloat : Bytes → Option φ) (text : Bytes) : Option (Value φ × Bytes) :=
  if byteLit "null" <+: text then some (.null, text.drop 4)
  else if byteLit "true" <+: text then some (.bool true, text.drop 4)
  else if byteLit "false" <+: text then some (.bool false, text.drop 5)
  else if byteLit "\"" <+: text then
    (parseString (text.drop 1)).map fun (s, rest) => (.string s, rest)
  else
    (parseNumber readFloat text).map fun (n, rest) => (.number n, rest)

/-- A value that nests below `limit`. -/
def parseValue (readFloat : Bytes → Option φ) : Nat → Bytes → Option (Value φ × Bytes)
  | 0, _ => none
  | limit + 1, text =>
      if byteLit "[" <+: text then
        if limit = 0 then none
        else (parseSequence (parseValue readFloat limit) 93 (text.drop 1)).map
          fun (items, rest) => (.array items, rest)
      else if byteLit "\x7b" <+: text then
        if limit = 0 then none
        else (parseSequence (parseMember (parseValue readFloat limit)) 125 (text.drop 1)).map
          fun (members, rest) => (.object (toMap members), rest)
      else
        parseScalar readFloat text

/-- A whole text: one value, and white space around it. -/
def parse (readFloat : Bytes → Option φ) (limit : Nat) (text : Bytes) : Option (Value φ) := do
  let (v, rest) ← parseValue readFloat limit (skipSpace text)
  if skipSpace rest = [] then some v else none

end Reader

/-- The nesting at which `serde_json` gives up. -/
def recursionLimit : Nat := 128

/-- `serde_json::from_slice` to a `Value`, its error by the text it prints. -/
structure Parser (φ : Type) where
  fromSlice : Bytes → Except String (Value φ)
  /-- How it reads a numeral that is not a 64-bit integer. -/
  readFloat : Bytes → Option φ

/-- The parser returns what the reader returns. -/
structure Parser.Laws {φ : Type} (J : Parser φ) : Prop where
  fromSlice_eq : ∀ text, (J.fromSlice text).toOption = parse J.readFloat recursionLimit text

/-- The parser that runs the reader. -/
def Parser.documented {φ : Type} (readFloat : Bytes → Option φ) : Parser φ where
  fromSlice text :=
    match parse readFloat recursionLimit text with
    | some v => .ok v
    | none => .error "invalid JSON"
  readFloat := readFloat

theorem Parser.documented_laws {φ : Type} (readFloat : Bytes → Option φ) :
    (Parser.documented readFloat).Laws where
  fromSlice_eq text := by
    simp only [Parser.documented]
    cases parse readFloat recursionLimit text <;> rfl

/-! ## Strings are read back -/

theorem digitValue_hexDigit {n : Nat} (h : n < 16) : Hex.digitValue (hexDigit n) = some n := by
  have hall : ∀ i : Fin 16, Hex.digitValue (hexDigit i.val) = some i.val := by decide
  exact hall ⟨n, h⟩

/-- The four digits of a code unit are read back. -/
theorem parseHex_digits {n : Nat} (h : n < 0x10000) (rest : Bytes) :
    parseHex (hexDigit (n / 4096 % 16) :: hexDigit (n / 256 % 16) :: hexDigit (n / 16 % 16) ::
      hexDigit (n % 16) :: rest) = some (n, rest) := by
  have hsum : n / 4096 % 16 * 4096 + n / 256 % 16 * 256 + n / 16 % 16 * 16 + n % 16 = n := by
    omega
  simp only [parseHex, digitValue_hexDigit (Nat.mod_lt _ (by decide : 0 < 16)), Option.bind_eq_bind,
    Option.bind_some, hsum]

theorem parseChar_unicode (text : Bytes) :
    parseChar (92 :: 117 :: text) = (parseUnicode text).map fun (c, rest) => (some c, rest) := rfl

/-- A character of the basic plane from its escape. -/
theorem parseChar_unicodeEscape {c : Char} (h : c.toNat < 0x10000) (rest : Bytes) :
    parseChar (unicodeEscape c.toNat ++ rest) = some (some c, rest) := by
  have hvalid : c.toNat < 0xD800 ∨ 0xE000 ≤ c.toNat := by
    rcases c.valid with hlow | hhigh
    · exact .inl hlow
    · exact .inr hhigh.1
  simp only [unicodeEscape, List.cons_append, List.nil_append, parseChar_unicode, parseUnicode,
    parseHex_digits h, Option.bind_eq_bind, Option.bind_some, if_pos hvalid, Char.ofNat_toNat,
    Option.map_some]

/-- The escapes of a surrogate pair. -/
theorem parseChar_surrogates {hi lo : Nat} (hhi : 0xD800 ≤ hi ∧ hi < 0xDC00)
    (hlo : 0xDC00 ≤ lo ∧ lo < 0xE000) (rest : Bytes) :
    parseChar (unicodeEscape hi ++ unicodeEscape lo ++ rest) =
      some (some (Char.ofNat (0x10000 + (hi - 0xD800) * 0x400 + (lo - 0xDC00))), rest) := by
  have hhex := parseHex_digits (n := hi) (by omega)
  have hhex' := parseHex_digits (n := lo) (by omega)
  simp only [unicodeEscape, List.cons_append, List.nil_append, parseChar_unicode, parseUnicode,
    hhex, Option.bind_eq_bind, Option.bind_some]
  rw [if_neg (by omega), if_neg (by omega), hhex', Option.bind_some, if_pos hlo, Option.map_some]

/-- A character above the basic plane from the escapes of its surrogates. -/
theorem parseChar_supplementary {c : Char} (h : 0x10000 ≤ c.toNat) (rest : Bytes) :
    parseChar (unicodeEscape (0xD800 + (c.toNat - 0x10000) / 0x400) ++
      unicodeEscape (0xDC00 + (c.toNat - 0x10000) % 0x400) ++ rest) = some (some c, rest) := by
  have hmax : c.toNat < 0x110000 := by
    rcases c.valid with hlow | hhigh
    · exact Nat.lt_trans hlow (by decide)
    · exact hhigh.2
  rw [parseChar_surrogates (by omega) (by omega)]
  have hsum : 0x10000 + (0xD800 + (c.toNat - 0x10000) / 0x400 - 0xD800) * 0x400 +
      (0xDC00 + (c.toNat - 0x10000) % 0x400 - 0xDC00) = c.toNat := by omega
  rw [hsum, Char.ofNat_toNat]

/-- A printable character, other than the quote and the backslash, stands for itself. -/
theorem parseChar_raw {c : Char} (hquote : c ≠ '"') (hslash : c ≠ '\\') (hlow : 0x20 ≤ c.toNat)
    (hhigh : c.toNat < 0x80) (rest : Bytes) :
    parseChar (c.toNat.toUInt8 :: rest) = some (some c, rest) := by
  have hbyte : c.toNat.toUInt8.toNat = c.toNat := toNat_toUInt8 (by omega)
  have hquote' := toUInt8_ne (b := 34) (by omega) hquote rfl
  have hslash' := toUInt8_ne (b := 92) (by omega) hslash rfl
  have hctrl : ¬ c.toNat.toUInt8 < 0x20 := by
    rw [UInt8.lt_iff_toNat_lt, hbyte]
    exact Nat.not_lt.mpr hlow
  have hascii : c.toNat.toUInt8 < 0x80 := by
    rw [UInt8.lt_iff_toNat_lt, hbyte]
    exact hhigh
  rw [parseChar, if_neg hquote', if_neg hslash', if_neg hctrl, if_pos hascii, hbyte,
    Char.ofNat_toNat]

/-- An escape of one letter. -/
theorem parseChar_letter {b : UInt8} {c : Char} (hb : b ≠ 117)
    (h : escapeLetters.lookup b = some c) (rest : Bytes) :
    parseChar (92 :: b :: rest) = some (some c, rest) := by
  rw [parseChar, if_neg (by decide), if_pos rfl, parseEscape, if_neg hb, h]
  rfl

/-- Reading the characters one by one reads the string. -/
theorem parseString_append {enc : Char → Bytes}
    (hread : ∀ c rest, parseChar (enc c ++ rest) = some (some c, rest)) (s : String)
    (rest : Bytes) :
    parseString (s.toList.flatMap enc ++ 34 :: rest) = some (s, rest) := by
  let code : Option Char → Bytes := fun c => c.elim [34] enc
  have hcode : ∀ c rest, parseChar (code c ++ rest) = some (c, rest) := by
    rintro (_ | c) rest
    · rfl
    · exact hread c rest
  have hne : ∀ c, code c ≠ [] := by
    intro c hnil
    have hnone := hcode c []
    rw [hnil] at hnone
    cases hnone
  have htext : s.toList.flatMap enc ++ 34 :: rest = terminated code s.toList ++ rest := by
    simp [terminated, code]
  have hfuel : s.toList.length < (terminated code s.toList ++ rest).length + 1 := by
    have hlen := length_lt_length_terminated hne s.toList
    rw [List.length_append]
    omega
  rw [htext, parseString, readTerminated_append hcode _ _ hfuel, Option.map_some]
  simp only [String.ofList_toList]

section Render

variable {φ : Type}

/-! ## Numbers are read back -/

/-- The numbers without a fraction or an exponent. -/
def Number.IsInteger : Number φ → Prop
  | .posInt _ => True
  | .negInt n => n.toInt < 0
  | .float _ => False

/-- No numeral goes on at the head of the text. -/
def EndsNumeral (text : Bytes) : Prop :=
  ∀ b ∈ text.head?, isDigit b = false ∧ b ≠ 46 ∧ b ≠ 101 ∧ b ≠ 69

theorem EndsNumeral.cons {b : UInt8} (h : b = 44 ∨ b = 93 ∨ b = 125) (rest : Bytes) :
    EndsNumeral (b :: rest) := by
  rintro b' ⟨rfl⟩
  rcases h with rfl | rfl | rfl
  · decide
  · decide
  · decide

theorem EndsNumeral.nil : EndsNumeral [] := fun _ h => by cases h

theorem EndsNumeral.noDigit {text : Bytes} (h : EndsNumeral text) : NoDigit text :=
  fun b hb => (h b hb).1

theorem EndsNumeral.parseFraction {text : Bytes} (h : EndsNumeral text) :
    parseFraction text = some ([], text) := by
  cases text with
  | nil => rfl
  | cons b rest => simp [Json.parseFraction, (h b rfl).2.1]

theorem EndsNumeral.parseExponent {text : Bytes} (h : EndsNumeral text) :
    parseExponent text = some ([], text) := by
  cases text with
  | nil => rfl
  | cons b rest => simp [Json.parseExponent, (h b rfl).2.2]

/-- A numeral of a 64-bit integer is read as that integer. -/
theorem parseUnsigned_decimal (readFloat : Bytes → Option φ) {sign : Bytes} {n : Nat}
    {m : Number φ} (h : ofInteger (sign ≠ []) n = some m) {rest : Bytes}
    (hrest : EndsNumeral rest) :
    parseUnsigned readFloat sign (decimal n ++ rest) = some (m, rest) := by
  have hzero : ¬ (decimal n = [] ∨ (decimal n).head? = some 48 ∧ decimal n ≠ [48]) := by
    rintro (hnil | ⟨hhead, hne⟩)
    · exact decimal_ne_nil n hnil
    · rw [(head?_decimal_eq_zero_iff n).mp hhead] at hne
      exact hne (by decide)
  simp only [parseUnsigned, takeWhile_decimal_append hrest.noDigit,
    dropWhile_decimal_append hrest.noDigit]
  rw [if_neg hzero, hrest.parseFraction]
  simp only [Option.bind_eq_bind, Option.bind_some, hrest.parseExponent, ofDecimal_decimal, h,
    and_self, if_true, Option.some_or]

/-- The numeral of a negative integer is the sign and its absolute value. -/
theorem utf8_display_negInt [F64 φ] {n : Int64} (h : n.toInt < 0) :
    utf8 (Number.display (.negInt n : Number φ)) = 45 :: decimal (-n.toInt).toNat := by
  have htext : Number.display (.negInt n : Number φ) = "-" ++ toString (-n.toInt).toNat := by
    change toString n.toInt = _
    rw [Int.toString_eq_repr, Int.repr_eq_if, if_neg (by omega), Nat.toString_eq_repr]
  rw [htext, utf8_append]
  rfl

theorem parseNumber_of_ne (readFloat : Bytes → Option φ) {b : UInt8} (h : b ≠ 45) (rest : Bytes) :
    parseNumber readFloat (b :: rest) = parseUnsigned readFloat [] (b :: rest) := by
  simp [parseNumber, h]

/-- A printed integer is read back. -/
theorem parseNumber_display [F64 φ] (readFloat : Bytes → Option φ) {n : Number φ}
    (h : n.IsInteger) {rest : Bytes} (hrest : EndsNumeral rest) :
    parseNumber readFloat (utf8 n.display ++ rest) = some (n, rest) := by
  cases n with
  | posInt n =>
      have hn : ofInteger (([] : Bytes) ≠ []) n.toNat = some (.posInt n : Number φ) := by
        simp [ofInteger, n.toNat_lt]
      have hnumeral := parseUnsigned_decimal readFloat hn hrest
      rcases head_decimal n.toNat with ⟨b, tail, hdigits, hb⟩
      have hb' : b ≠ 45 := by
        rintro rfl
        exact absurd hb (by decide)
      change parseNumber readFloat (decimal n.toNat ++ rest) = _
      rw [hdigits, List.cons_append] at hnumeral ⊢
      rw [parseNumber_of_ne readFloat hb', hnumeral]
  | negInt n =>
      have hneg : n.toInt < 0 := h
      have hlow := n.le_toInt
      have hbounds : 0 < (-n.toInt).toNat ∧ (-n.toInt).toNat ≤ 2 ^ 63 := by omega
      have hback : -((-n.toInt).toNat : Int) = n.toInt := by omega
      have hn : ofInteger (([45] : Bytes) ≠ []) (-n.toInt).toNat = some (.negInt n : Number φ) := by
        rw [ofInteger, if_pos (by decide), if_pos hbounds, hback, Int64.ofInt_toInt]
      rw [utf8_display_negInt hneg, List.cons_append, parseNumber]
      exact parseUnsigned_decimal readFloat hn hrest
  | float x => exact absurd h id

end Render

/-! ## Arrays and objects are read back -/

section Sequences

variable {α : Type}

/-- The text starts with neither white space nor a closing bracket. -/
def StartsElement (text : Bytes) : Prop :=
  ∃ b tail, text = b :: tail ∧ isSpace b = false ∧ b ≠ 93 ∧ b ≠ 125

theorem StartsElement.append {text : Bytes} (h : StartsElement text) (rest : Bytes) :
    StartsElement (text ++ rest) := by
  rcases h with ⟨b, tail, rfl, hb⟩
  exact ⟨b, tail ++ rest, rfl, hb⟩

theorem StartsElement.skipSpace {text : Bytes} (h : StartsElement text) :
    skipSpace text = text := by
  rcases h with ⟨b, tail, rfl, hspace, -⟩
  simp [Json.skipSpace, hspace]

theorem skipSpace_cons {b : UInt8} (h : b = 44 ∨ b = 58 ∨ b = 93 ∨ b = 125) (rest : Bytes) :
    skipSpace (b :: rest) = b :: rest := by
  rcases h with rfl | rfl | rfl | rfl <;> rfl

/-- Elements between commas are read one by one, and the first that is not
readable stops the reader. -/
theorem parseElements_intercalate {element : Bytes → Option (α × Bytes)} {close : UInt8}
    (hclose : close = 93 ∨ close = 125) {enc : α → Bytes} {good : α → Bool} {as : List α}
    (hne : as ≠ []) (hstart : ∀ a ∈ as, StartsElement (enc a))
    (helement : ∀ a ∈ as, ∀ rest, EndsNumeral rest →
      element (enc a ++ rest) = if good a then some (a, rest) else none)
    (rest : Bytes) {fuel : Nat} (hfuel : as.length ≤ fuel) :
    parseElements element close fuel ((byteLit ",").intercalate (as.map enc) ++ close :: rest) =
      if as.all good then some (as, rest) else none := by
  induction as generalizing fuel with
  | nil => exact absurd rfl hne
  | cons a as ih =>
      have hstart' := hstart a List.mem_cons_self
      have helement' := helement a List.mem_cons_self
      cases fuel with
      | zero => simp at hfuel
      | succ fuel =>
          cases as with
          | nil =>
              have hskip := skipSpace_cons (b := close) (.inr (.inr hclose)) rest
              rw [List.map_cons, List.map_nil, List.intercalate_singleton, parseElements,
                (hstart'.append _).skipSpace, helement' _ (.cons (.inr hclose) rest)]
              cases hgood : good a with
              | true => simp [hskip, hgood]
              | false => simp [hgood]
          | cons a' as =>
              have hfuel' : (a' :: as).length ≤ fuel := by simpa using hfuel
              have htail := ih (List.cons_ne_nil a' as)
                (fun x hx => hstart x (List.mem_cons_of_mem a hx))
                (fun x hx => helement x (List.mem_cons_of_mem a hx)) hfuel'
              have hcomma : byteLit "," = [44] := rfl
              have hskip : ∀ text, skipSpace (44 :: text) = 44 :: text := fun _ => rfl
              have hne' : (44 : UInt8) ≠ close := by
                rcases hclose with rfl | rfl <;> decide
              rw [List.map_cons, List.map_cons, List.intercalate_cons_cons, ← List.map_cons,
                List.append_assoc, List.append_assoc, hcomma, List.singleton_append, parseElements,
                (hstart'.append _).skipSpace, helement' _ (.cons (.inl rfl) _)]
              rw [hcomma] at htail
              cases hgood : good a with
              | true =>
                  have hall : (a :: a' :: as).all good = (a' :: as).all good := by
                    rw [List.all_cons, hgood, Bool.true_and]
                  simp only [hskip, hne', if_true, if_false, Option.bind_eq_bind, Option.bind_some,
                    htail, hall]
                  cases (a' :: as).all good <;> rfl
              | false => simp [hgood]

theorem intercalate_startsElement {enc : α → Bytes} {a : α} {as : List α}
    (hstart : ∀ x ∈ a :: as, StartsElement (enc x)) :
    StartsElement ((byteLit ",").intercalate ((a :: as).map enc)) := by
  have ha := hstart a List.mem_cons_self
  cases as with
  | nil =>
      rw [List.map_cons, List.map_nil, List.intercalate_singleton]
      exact ha
  | cons a' as =>
      rw [List.map_cons, List.map_cons, List.intercalate_cons_cons, List.append_assoc]
      exact ha.append _

/-- Every element takes at least one byte. -/
theorem length_le_length_intercalate {enc : α → Bytes} {as : List α}
    (hstart : ∀ a ∈ as, StartsElement (enc a)) (rest : Bytes) :
    as.length ≤ ((byteLit ",").intercalate (as.map enc) ++ rest).length := by
  induction as with
  | nil => simp
  | cons a as ih =>
      have htail := ih fun x hx => hstart x (List.mem_cons_of_mem a hx)
      rcases hstart a List.mem_cons_self with ⟨b, tail, hcode, -⟩
      cases as with
      | nil => simp [hcode]
      | cons a' as =>
          rw [List.map_cons, List.map_cons, List.intercalate_cons_cons, ← List.map_cons, hcode]
          simp only [List.length_append, List.length_cons] at htail ⊢
          omega

/-- The same for the whole sequence, which may be empty. -/
theorem parseSequence_intercalate {element : Bytes → Option (α × Bytes)} {close : UInt8}
    (hclose : close = 93 ∨ close = 125) {enc : α → Bytes} {good : α → Bool} {as : List α}
    (hstart : ∀ a ∈ as, StartsElement (enc a))
    (helement : ∀ a ∈ as, ∀ rest, EndsNumeral rest →
      element (enc a ++ rest) = if good a then some (a, rest) else none) (rest : Bytes) :
    parseSequence element close ((byteLit ",").intercalate (as.map enc) ++ close :: rest) =
      if as.all good then some (as, rest) else none := by
  cases as with
  | nil =>
      have hskip := skipSpace_cons (b := close) (.inr (.inr hclose)) rest
      simp [parseSequence, hskip]
  | cons a as =>
      have helements := parseElements_intercalate hclose (List.cons_ne_nil a as) hstart helement
        rest (Nat.le_succ_of_le (length_le_length_intercalate hstart (close :: rest)))
      have hfirst := intercalate_startsElement hstart
      rcases hfirst with ⟨b, tail, htext, hspace, hb, hb'⟩
      have hne : b ≠ close := by
        rcases hclose with rfl | rfl
        · exact hb
        · exact hb'
      rw [parseSequence, (StartsElement.append ⟨b, tail, htext, hspace, hb, hb'⟩ _).skipSpace]
      rw [htext, List.cons_append] at helements ⊢
      simp only [if_neg hne]
      exact helements

end Sequences

/-! ## Values are read back -/

section Values

variable {φ : Type}

/-- A value whose numbers satisfy `numbers` and whose objects list their
members by key, as a sorted map does. -/
inductive Value.Formed (numbers : Number φ → Prop) : Value φ → Prop
  | null : Formed numbers .null
  | bool (b : Bool) : Formed numbers (.bool b)
  | number {n : Number φ} (h : numbers n) : Formed numbers (.number n)
  | string (s : String) : Formed numbers (.string s)
  | array {items : List (Value φ)} (h : ∀ v ∈ items, Formed numbers v) :
      Formed numbers (.array items)
  | object {members : List (String × Value φ)} (sorted : members.Pairwise fun a b => a.1 < b.1)
      (h : ∀ m ∈ members, Formed numbers m.2) : Formed numbers (.object members)

mutual

/-- How deep arrays and objects nest in a value. -/
def Value.depth : Value φ → Nat
  | .null => 0
  | .bool _ => 0
  | .number _ => 0
  | .string _ => 0
  | .array items => depthItems items + 1
  | .object members => depthMembers members + 1

def depthItems : List (Value φ) → Nat
  | [] => 0
  | v :: rest => max v.depth (depthItems rest)

def depthMembers : List (String × Value φ) → Nat
  | [] => 0
  | (_, v) :: rest => max v.depth (depthMembers rest)

end

theorem depthItems_lt_iff {limit : Nat} (h : 0 < limit) (items : List (Value φ)) :
    depthItems items < limit ↔ items.all fun v => v.depth < limit := by
  induction items with
  | nil => simpa [depthItems] using h
  | cons v rest ih => simp [depthItems, ih]

theorem depthMembers_lt_iff {limit : Nat} (h : 0 < limit) (members : List (String × Value φ)) :
    depthMembers members < limit ↔ members.all fun m => m.2.depth < limit := by
  induction members with
  | nil => simpa [depthMembers] using h
  | cons m rest ih => simp [depthMembers, ih]

theorem depth_lt_of_mem_array {limit : Nat} {items : List (Value φ)}
    (h : (Value.array items).depth < limit + 1) : ∀ v ∈ items, v.depth < limit := by
  rw [Value.depth, Nat.succ_lt_succ_iff] at h
  have hall := (depthItems_lt_iff (Nat.pos_of_ne_zero (by omega)) items).mp h
  simpa using hall

theorem depth_lt_of_mem_object {limit : Nat} {members : List (String × Value φ)}
    (h : (Value.object members).depth < limit + 1) : ∀ m ∈ members, m.2.depth < limit := by
  rw [Value.depth, Nat.succ_lt_succ_iff] at h
  have hall := (depthMembers_lt_iff (Nat.pos_of_ne_zero (by omega)) members).mp h
  simpa using hall

/-- A value that nests is an array or an object. -/
theorem Value.Formed.nested {numbers : Number φ → Prop} {v : Value φ} (hv : v.Formed numbers)
    (hflat : v.depth ≠ 0) :
    (∃ items, v = .array items ∧ ∀ u ∈ items, u.Formed numbers) ∨
      ∃ members, v = .object members ∧ (members.Pairwise fun a b => a.1 < b.1) ∧
        ∀ m ∈ members, m.2.Formed numbers := by
  cases hv with
  | null => exact absurd rfl hflat
  | bool b => exact absurd rfl hflat
  | number h => exact absurd rfl hflat
  | string s => exact absurd rfl hflat
  | array h => exact Or.inl ⟨_, rfl, h⟩
  | object sorted h => exact Or.inr ⟨_, rfl, sorted, h⟩

variable [F64 φ]

mutual

/-- The compact text of a value, by the encoder of its strings and keys. -/
def render (str : String → Bytes) : Value φ → Bytes
  | .null => byteLit "null"
  | .bool true => byteLit "true"
  | .bool false => byteLit "false"
  | .number n => utf8 n.display
  | .string s => str s
  | .array items =>
      byteLit "[" ++ (byteLit ",").intercalate (renderItems str items) ++ byteLit "]"
  | .object members =>
      byteLit "\x7b" ++ (byteLit ",").intercalate (renderMembers str members) ++ byteLit "\x7d"

def renderItems (str : String → Bytes) : List (Value φ) → List Bytes
  | [] => []
  | v :: rest => render str v :: renderItems str rest

def renderMembers (str : String → Bytes) : List (String × Value φ) → List Bytes
  | [] => []
  | (k, v) :: rest => (str k ++ byteLit ":" ++ render str v) :: renderMembers str rest

end

theorem renderItems_eq_map (str : String → Bytes) (items : List (Value φ)) :
    renderItems str items = items.map (render str) := by
  induction items with
  | nil => rfl
  | cons v rest ih => rw [renderItems, ih, List.map_cons]

theorem renderMembers_eq_map (str : String → Bytes) (members : List (String × Value φ)) :
    renderMembers str members =
      members.map fun m => str m.1 ++ byteLit ":" ++ render str m.2 := by
  induction members with
  | nil => rfl
  | cons m rest ih => rw [renderMembers, ih, List.map_cons]

/-- Strings are written between quotes, in a form that the reader reads back. -/
def ReadBack (str : String → Bytes) : Prop :=
  ∀ s, ∃ tail, str s = 34 :: tail ∧ ∀ rest, parseString (tail ++ rest) = some (s, rest)

/-- A numeral starts with a digit or the sign. -/
theorem head_display {n : Number φ} (h : n.IsInteger) :
    ∃ b tail, utf8 n.display = b :: tail ∧ (isDigit b ∨ b = 45) := by
  cases n with
  | posInt n =>
      rcases head_decimal n.toNat with ⟨b, tail, htext, hb⟩
      exact ⟨b, tail, htext, .inl hb⟩
  | negInt n => exact ⟨45, _, utf8_display_negInt h, .inr rfl⟩
  | float x => exact absurd h id

/-- So it starts like no other token. -/
theorem ne_of_numeral {b c : UInt8} (hb : isDigit b ∨ b = 45) (hc : isDigit c = false ∧ c ≠ 45) :
    b ≠ c := by
  rintro rfl
  rcases hb with hb | hb
  · rw [hc.1] at hb
    cases hb
  · exact hc.2 hb

/-- The text of a value starts with a character of its own. -/
theorem render_startsElement {str : String → Bytes} (hstr : ReadBack str) {v : Value φ}
    (hv : v.Formed Number.IsInteger) : StartsElement (render str v) := by
  cases hv with
  | null => exact ⟨110, _, rfl, by decide⟩
  | bool b =>
      cases b with
      | false => exact ⟨102, _, rfl, by decide⟩
      | true => exact ⟨116, _, rfl, by decide⟩
  | @number n h =>
      rcases head_display h with ⟨b, tail, htext, hb⟩
      have hspace : isSpace b = false := by
        simp [isSpace, ne_of_numeral hb (c := 0x20) (by decide),
          ne_of_numeral hb (c := 0x09) (by decide), ne_of_numeral hb (c := 0x0a) (by decide),
          ne_of_numeral hb (c := 0x0d) (by decide)]
      exact ⟨b, tail, htext, hspace, ne_of_numeral hb (by decide), ne_of_numeral hb (by decide)⟩
  | string s =>
      rcases hstr s with ⟨tail, htext, -⟩
      exact ⟨34, tail, htext, by decide⟩
  | array h => exact ⟨91, _, rfl, by decide⟩
  | object sorted h => exact ⟨123, _, rfl, by decide⟩

/-- A word does not stand at the head of a text that starts with another byte. -/
theorem not_prefix_of_ne {word : Bytes} (a : UInt8) (hword : word.head? = some a) {b : UInt8}
    (h : b ≠ a) (tail : Bytes) : ¬ word <+: b :: tail := by
  intro hprefix
  cases word with
  | nil => cases hword
  | cons a' word =>
      cases hword
      exact h (List.cons_prefix_cons.mp hprefix).1.symm

omit [F64 φ] in
/-- A text that starts with no bracket is that of a scalar. -/
theorem parseValue_scalar (readFloat : Bytes → Option φ) {b : UInt8} (harray : b ≠ 91)
    (hobject : b ≠ 123) (limit : Nat) (tail : Bytes) :
    parseValue readFloat (limit + 1) (b :: tail) = parseScalar readFloat (b :: tail) := by
  rw [parseValue, if_neg (not_prefix_of_ne 91 rfl harray tail),
    if_neg (not_prefix_of_ne 123 rfl hobject tail)]

omit [F64 φ] in
theorem parseScalar_string (readFloat : Bytes → Option φ) {s : String} {text rest : Bytes}
    (h : parseString text = some (s, rest)) :
    parseScalar readFloat (34 :: text) = some (.string s, rest) := by
  rw [parseScalar, if_neg (not_prefix_of_ne 110 rfl (by decide) text),
    if_neg (not_prefix_of_ne 116 rfl (by decide) text),
    if_neg (not_prefix_of_ne 102 rfl (by decide) text),
    if_pos ⟨text, rfl⟩, List.drop_one, List.tail_cons, h]
  rfl

theorem parseScalar_number (readFloat : Bytes → Option φ) {n : Number φ} (h : n.IsInteger)
    {rest : Bytes} (hrest : EndsNumeral rest) :
    parseScalar readFloat (utf8 n.display ++ rest) = some (.number n, rest) := by
  have hnumber := parseNumber_display readFloat h hrest
  rcases head_display h with ⟨b, tail, htext, hb⟩
  rw [htext, List.cons_append] at hnumber ⊢
  rw [parseScalar, if_neg (not_prefix_of_ne 110 rfl (ne_of_numeral hb (by decide)) _),
    if_neg (not_prefix_of_ne 116 rfl (ne_of_numeral hb (by decide)) _),
    if_neg (not_prefix_of_ne 102 rfl (ne_of_numeral hb (by decide)) _),
    if_neg (not_prefix_of_ne 34 rfl (ne_of_numeral hb (by decide)) _), hnumber]
  rfl

theorem member_startsElement {str : String → Bytes} (hstr : ReadBack str) (m : String × Value φ) :
    StartsElement (str m.1 ++ byteLit ":" ++ render str m.2) := by
  rcases hstr m.1 with ⟨tail, htext, -⟩
  exact ⟨34, tail ++ byteLit ":" ++ render str m.2, by rw [htext]; rfl, by decide⟩

/-- A member is read back when its value is. -/
theorem parseMember_append {str : String → Bytes} (hstr : ReadBack str)
    {element : Bytes → Option (Value φ × Bytes)} (key : String) {v : Value φ}
    (hv : v.Formed Number.IsInteger) (rest : Bytes) :
    parseMember element (str key ++ byteLit ":" ++ render str v ++ rest) =
      (element (render str v ++ rest)).map fun (v, rest) => ((key, v), rest) := by
  rcases hstr key with ⟨tail, htext, hkey⟩
  have hskip : skipSpace (byteLit ":" ++ (render str v ++ rest)) = 58 :: (render str v ++ rest) :=
    skipSpace_cons (.inr (.inl rfl)) _
  rw [htext, List.append_assoc, List.append_assoc, List.cons_append, parseMember, hkey]
  simp only [Option.bind_eq_bind, Option.bind_some, hskip,
    ((render_startsElement hstr hv).append rest).skipSpace]
  cases element (render str v ++ rest) <;> rfl

/-- An array starts with its bracket. -/
theorem render_array_opens (str : String → Bytes) (items : List (Value φ)) (rest : Bytes) :
    byteLit "[" <+: render str (.array items) ++ rest := by
  rw [render, List.append_assoc, List.append_assoc]
  exact List.prefix_append _ _

/-- An object starts with its brace. -/
theorem render_object_opens (str : String → Bytes) (members : List (String × Value φ))
    (rest : Bytes) :
    ¬ byteLit "[" <+: render str (.object members) ++ rest ∧
      byteLit "\x7b" <+: render str (.object members) ++ rest := by
  rw [render, List.append_assoc, List.append_assoc]
  exact ⟨not_prefix_of_ne 91 rfl (by decide) _, List.prefix_append _ _⟩

/-- The items of an array are read back when each of them is. -/
theorem parseItems_render {str : String → Bytes} (hstr : ReadBack str)
    {element : Bytes → Option (Value φ × Bytes)} {good : Value φ → Bool} {items : List (Value φ)}
    (h : ∀ v ∈ items, v.Formed Number.IsInteger)
    (hread : ∀ v ∈ items, ∀ rest, EndsNumeral rest →
      element (render str v ++ rest) = if good v then some (v, rest) else none) (rest : Bytes) :
    parseSequence element 93 ((render str (.array items) ++ rest).drop 1) =
      if items.all good then some (items, rest) else none := by
  have hitems := parseSequence_intercalate (.inl rfl)
    (fun v hv => render_startsElement hstr (h v hv)) hread rest
  rw [render, renderItems_eq_map, List.append_assoc, List.append_assoc]
  exact hitems

/-- So are the members of an object. -/
theorem parseMembers_render {str : String → Bytes} (hstr : ReadBack str)
    {element : Bytes → Option (Value φ × Bytes)} {good : String × Value φ → Bool}
    {members : List (String × Value φ)} (h : ∀ m ∈ members, m.2.Formed Number.IsInteger)
    (hread : ∀ m ∈ members, ∀ rest, EndsNumeral rest →
      element (render str m.2 ++ rest) = if good m then some (m.2, rest) else none)
    (rest : Bytes) :
    parseSequence (parseMember element) 125 ((render str (.object members) ++ rest).drop 1) =
      if members.all good then some (members, rest) else none := by
  have hmember : ∀ m ∈ members, ∀ rest, EndsNumeral rest →
      parseMember element (str m.1 ++ byteLit ":" ++ render str m.2 ++ rest) =
        if good m then some (m, rest) else none := by
    intro m hm rest hrest
    rw [parseMember_append hstr m.1 (h m hm), hread m hm rest hrest]
    split <;> rfl
  have hmembers := parseSequence_intercalate (.inr rfl)
    (fun m _ => member_startsElement hstr m) hmember rest
  rw [render, renderMembers_eq_map, List.append_assoc, List.append_assoc]
  exact hmembers

/-- The reader with this limit returns the values that nest below it. -/
def ReadsBelow (readFloat : Bytes → Option φ) (str : String → Bytes) (limit : Nat) : Prop :=
  ∀ {v : Value φ}, v.Formed Number.IsInteger → ∀ {rest : Bytes}, EndsNumeral rest →
    parseValue readFloat limit (render str v ++ rest) =
      if v.depth < limit then some (v, rest) else none

/-- An array is read one level further down. -/
theorem ReadsBelow.array {readFloat : Bytes → Option φ} {str : String → Bytes} {limit : Nat}
    (ih : ReadsBelow readFloat str limit) (hstr : ReadBack str) {items : List (Value φ)}
    (h : ∀ v ∈ items, v.Formed Number.IsInteger) (rest : Bytes) :
    parseValue readFloat (limit + 1) (render str (.array items) ++ rest) =
      if (Value.array items).depth < limit + 1 then some (.array items, rest) else none := by
  rw [Value.depth, parseValue, if_pos (render_array_opens str items rest)]
  by_cases hlimit : limit = 0
  · rw [if_pos hlimit, if_neg (by omega)]
  · have hread : ∀ v ∈ items, ∀ rest, EndsNumeral rest →
        parseValue readFloat limit (render str v ++ rest) =
          if decide (v.depth < limit) then some (v, rest) else none :=
      fun v hv rest hrest => by simpa using ih (h v hv) hrest
    have hdepth : depthItems items + 1 < limit + 1 ↔ items.all fun v => v.depth < limit := by
      rw [Nat.succ_lt_succ_iff]
      exact depthItems_lt_iff (Nat.pos_of_ne_zero hlimit) items
    rw [if_neg hlimit, parseItems_render hstr h hread, if_congr hdepth rfl rfl]
    split <;> rfl

/-- So is an object; its members are sorted already. -/
theorem ReadsBelow.object {readFloat : Bytes → Option φ} {str : String → Bytes} {limit : Nat}
    (ih : ReadsBelow readFloat str limit) (hstr : ReadBack str)
    {members : List (String × Value φ)} (sorted : members.Pairwise fun a b => a.1 < b.1)
    (h : ∀ m ∈ members, m.2.Formed Number.IsInteger) (rest : Bytes) :
    parseValue readFloat (limit + 1) (render str (.object members) ++ rest) =
      if (Value.object members).depth < limit + 1 then some (.object members, rest) else none := by
  obtain ⟨hbracket, hbrace⟩ := render_object_opens str members rest
  rw [Value.depth, parseValue, if_neg hbracket, if_pos hbrace]
  by_cases hlimit : limit = 0
  · rw [if_pos hlimit, if_neg (by omega)]
  · have hread : ∀ m ∈ members, ∀ rest, EndsNumeral rest →
        parseValue readFloat limit (render str m.2 ++ rest) =
          if decide (m.2.depth < limit) then some (m.2, rest) else none :=
      fun m hm rest hrest => by simpa using ih (h m hm) hrest
    have hdepth : depthMembers members + 1 < limit + 1 ↔
        members.all fun m => m.2.depth < limit := by
      rw [Nat.succ_lt_succ_iff]
      exact depthMembers_lt_iff (Nat.pos_of_ne_zero hlimit) members
    have hmembers := parseMembers_render hstr h hread rest
    rw [if_neg hlimit, hmembers, if_congr hdepth rfl rfl]
    split
    · simp only [Option.map_some, toMap_of_sorted sorted]
    · rfl

/-- A value without a bracket is read back. -/
theorem parseScalar_render (readFloat : Bytes → Option φ) {str : String → Bytes}
    (hstr : ReadBack str) {v : Value φ} (hv : v.Formed Number.IsInteger) (hflat : v.depth = 0)
    {rest : Bytes} (hrest : EndsNumeral rest) :
    (∃ b tail, render str v ++ rest = b :: tail ∧ b ≠ 91 ∧ b ≠ 123) ∧
      parseScalar readFloat (render str v ++ rest) = some (v, rest) := by
  cases hv with
  | null => exact ⟨⟨110, _, rfl, by decide⟩, rfl⟩
  | bool b =>
      cases b with
      | false => exact ⟨⟨102, _, rfl, by decide⟩, rfl⟩
      | true => exact ⟨⟨116, _, rfl, by decide⟩, rfl⟩
  | @number n h =>
      obtain ⟨b, tail, htext, hb⟩ := head_display h
      refine ⟨⟨b, tail ++ rest, ?_, ne_of_numeral hb (by decide), ne_of_numeral hb (by decide)⟩,
        parseScalar_number readFloat h hrest⟩
      rw [render, htext, List.cons_append]
  | string s =>
      obtain ⟨tail, htext, hread⟩ := hstr s
      rw [render, htext, List.cons_append]
      exact ⟨⟨34, _, rfl, by decide⟩, parseScalar_string readFloat (hread rest)⟩
  | array h => cases hflat
  | object sorted h => cases hflat

/-- The reader returns a value from its text exactly when the value nests below
the limit. -/
theorem parseValue_render (readFloat : Bytes → Option φ) {str : String → Bytes}
    (hstr : ReadBack str) (limit : Nat) : ReadsBelow readFloat str limit := by
  induction limit with
  | zero =>
      intro v _ rest _
      rfl
  | succ limit ih =>
      intro v hv rest hrest
      by_cases hflat : v.depth = 0
      · obtain ⟨⟨b, tail, htext, harray, hobject⟩, hscalar⟩ :=
          parseScalar_render readFloat hstr hv hflat hrest
        rw [hflat, if_pos (Nat.succ_pos limit), htext,
          parseValue_scalar readFloat harray hobject, ← htext, hscalar]
      · rcases hv.nested hflat with ⟨items, rfl, h⟩ | ⟨members, rfl, sorted, h⟩
        · exact ih.array hstr h rest
        · exact ih.object hstr sorted h rest

/-- So does the reader of whole texts. -/
theorem parse_render (readFloat : Bytes → Option φ) {str : String → Bytes} (hstr : ReadBack str)
    {v : Value φ} (hv : v.Formed Number.IsInteger) (limit : Nat) :
    parse readFloat limit (render str v) = if v.depth < limit then some v else none := by
  have hvalue := parseValue_render readFloat hstr limit hv .nil
  rw [List.append_nil] at hvalue
  rw [parse, (render_startsElement hstr hv).skipSpace, hvalue]
  split <;> rfl

/-- A value that nests below the limit of the parser is read back, and no other is. -/
theorem Parser.Laws.fromSlice_render {J : Parser φ} (laws : J.Laws) {str : String → Bytes}
    (hstr : ReadBack str) {v : Value φ} (hv : v.Formed Number.IsInteger) :
    (v.depth < recursionLimit → J.fromSlice (render str v) = .ok v) ∧
      (¬ v.depth < recursionLimit → ∃ e, J.fromSlice (render str v) = .error e) := by
  have hparse := laws.fromSlice_eq (render str v)
  rw [parse_render J.readFloat hstr hv] at hparse
  cases hslice : J.fromSlice (render str v) with
  | error e =>
      rw [hslice] at hparse
      refine ⟨fun hdepth => ?_, fun _ => ⟨e, rfl⟩⟩
      rw [if_pos hdepth] at hparse
      cases hparse
  | ok u =>
      rw [hslice] at hparse
      constructor
      · intro hdepth
        rw [if_pos hdepth] at hparse
        cases hparse
        rfl
      · intro hdepth
        rw [if_neg hdepth] at hparse
        cases hparse

/-- Values that are read back are told apart by their texts. -/
theorem render_injective {str : String → Bytes} (hstr : ReadBack str) {u v : Value φ}
    (hu : u.Formed Number.IsInteger) (hv : v.Formed Number.IsInteger)
    (h : render str u = render str v) : u = v := by
  -- A limit above both depths returns both values from the one text.
  let limit := max u.depth v.depth + 1
  have hread : ∀ w : Value φ, w.Formed Number.IsInteger → w.depth < limit →
      parse (fun _ => none) limit (render str w) = some w := by
    intro w hw hdepth
    rw [parse_render _ hstr hw, if_pos hdepth]
  have hleft := hread u hu (Nat.lt_succ_of_le (Nat.le_max_left _ _))
  have hright := hread v hv (Nat.lt_succ_of_le (Nat.le_max_right _ _))
  rw [h, hright] at hleft
  exact (Option.some.inj hleft).symm

end Values

end Json
