import SkPqc.Foundations.JsonOrder
import SkPqc.Foundations.Words

/-!
# Indented texts

`serde_json` prints a value with every element of an array and every member of
an object on a line of its own, two blanks further in than the brackets; empty
brackets stay together.  The text is written over any symbols, given the form
of the fixed tokens and that of the strings.

Main results:

- Theorem `parseSequence_spaced`: a sequence is read element by element, also
  with white space between the elements.
- Theorem `parse_pretty`: the reader returns the value of an indented text, the
  members of its objects in key order.
- Theorem `Parser.Laws.fromSlice_pretty`: so does the parser.
- Theorem `avoids_pretty_iff`: words that no fixed token has a part in occur in
  the text exactly when they occur in one of its strings.
-/

namespace Json

open Rust SortOn

/-! ## Strings -/

/-- An escaped character is written with a letter of the table, or as a code
unit. -/
theorem escape_cases {c : Char} (h : Escaped c) :
    (∃ b, b ≠ 117 ∧ escapeLetters.lookup b = some c ∧ escape c = [92, b]) ∨
      escape c = unicodeEscape c.toNat ∧ c.toNat < 0x10000 := by
  have hall : ∀ c ∈ escapedChars, (∃ b ∈ escapeLetters.map Prod.fst, b ≠ 117 ∧
      escapeLetters.lookup b = some c ∧ escape c = [92, b]) ∨
        escape c = unicodeEscape c.toNat ∧ c.toNat < 0x10000 :=
    List.all_iff_forall_prop.mp (by decide +kernel)
  rcases hall c (mem_escapedChars h) with ⟨b, -, hb⟩ | hunit
  · exact .inl ⟨b, hb⟩
  · exact .inr hunit

theorem head_utf8EncodeChar {c : Char} (h : 0x80 ≤ c.toNat) :
    ∃ b tail, String.utf8EncodeChar c = b :: tail ∧ 0x80 ≤ b.toNat := by
  cases hcode : String.utf8EncodeChar c with
  | nil => exact absurd hcode String.utf8EncodeChar_ne_nil
  | cons b tail =>
      have hbytes := le_of_mem_utf8EncodeChar h
      rw [hcode] at hbytes
      exact ⟨b, tail, rfl, hbytes b List.mem_cons_self⟩

/-- A character outside ASCII from its UTF-8 form. -/
theorem parseChar_multibyte {c : Char} (h : 0x80 ≤ c.toNat) (rest : Bytes) :
    parseChar (String.utf8EncodeChar c ++ rest) = some (some c, rest) := by
  have hdecode : ((String.utf8EncodeChar c ++ rest).toByteArray.utf8DecodeChar? 0) = some c := by
    rw [List.toByteArray_append]
    exact ByteArray.utf8DecodeChar?_utf8EncodeChar_append
  have hdrop : (String.utf8EncodeChar c ++ rest).drop (String.utf8EncodeChar c).length = rest :=
    List.drop_left
  rcases head_utf8EncodeChar h with ⟨b, tail, hcode, hb⟩
  have hne : ∀ d : UInt8, d.toNat < 0x80 → b ≠ d := by
    rintro d hd rfl
    omega
  have hlow : ∀ d : UInt8, d.toNat ≤ 0x80 → ¬ b < d := by
    intro d hd
    rw [UInt8.lt_iff_toNat_lt]
    omega
  have hhead : String.utf8EncodeChar c ++ rest = b :: (tail ++ rest) := by
    rw [hcode, List.cons_append]
  rw [hhead] at hdecode hdrop ⊢
  rw [parseChar, if_neg (hne 34 (by decide)), if_neg (hne 92 (by decide)),
    if_neg (hlow 0x20 (by decide)), if_neg (hlow 0x80 (by decide)), hdecode, Option.map_some,
    hdrop]

theorem parseChar_escape (c : Char) (rest : Bytes) :
    parseChar (escape c ++ rest) = some (some c, rest) := by
  by_cases hescaped : Escaped c
  · rcases escape_cases hescaped with ⟨b, hb, hlookup, hcode⟩ | ⟨hcode, hbasic⟩
    · rw [hcode]
      exact parseChar_letter hb hlookup rest
    · rw [hcode]
      exact parseChar_unicodeEscape hbasic rest
  · rw [escape_of_not_escaped hescaped]
    by_cases hascii : c.toNat < 0x80
    · rw [utf8EncodeChar_of_lt hascii, List.singleton_append]
      apply parseChar_raw
      · exact fun hc => hescaped (.inl hc)
      · exact fun hc => hescaped (.inr (.inl hc))
      · exact Nat.not_lt.mp fun hlow => hescaped (.inr (.inr hlow))
      · exact hascii
    · exact parseChar_multibyte (Nat.not_lt.mp hascii) rest

/-- The strings of compact texts are read back. -/
theorem quoted_readBack : ReadBack quoted := by
  intro s
  refine ⟨s.toList.flatMap escape ++ [34], rfl, fun rest => ?_⟩
  rw [List.append_assoc, List.singleton_append]
  exact parseString_append parseChar_escape s rest

/-- The escape of a character, as text. -/
def escapeText (c : Char) : List Char :=
  if Escaped c then (escape c).map fun b => Char.ofNat b.toNat else [c]

/-- A string between quotes, as text. -/
def quotedText (s : String) : List Char := ['"'] ++ s.toList.flatMap escapeText ++ ['"']

theorem utf8_escapeText (c : Char) :
    (escapeText c).flatMap String.utf8EncodeChar = escape c := by
  have hall : ∀ c ∈ escapedChars,
      ((escape c).map fun b => Char.ofNat b.toNat).flatMap String.utf8EncodeChar = escape c :=
    List.all_iff_forall_prop.mp (by decide +kernel)
  unfold escapeText
  by_cases hescaped : Escaped c
  · rw [if_pos hescaped]
    exact hall c (mem_escapedChars hescaped)
  · rw [if_neg hescaped, List.flatMap_singleton, escape_of_not_escaped hescaped]

/-- The bytes of a quoted text. -/
theorem utf8_quotedText (s : String) :
    (quotedText s).flatMap String.utf8EncodeChar = quoted s := by
  have hchars : (s.toList.flatMap escapeText).flatMap String.utf8EncodeChar =
      s.toList.flatMap escape := by
    rw [List.flatMap_assoc]
    congr 1
    funext c
    exact utf8_escapeText c
  have hquote : ['"'].flatMap String.utf8EncodeChar = [34] := rfl
  rw [quotedText, List.flatMap_append, List.flatMap_append, hchars, hquote, quoted]

/-! ## Indented texts -/

section Printer

variable {φ β : Type} [F64 φ] (lit : String → List β) (str : String → List β)

/-- A line break and the indentation of a line. -/
def newline (indent : Nat) : List β := lit "\n" ++ (List.replicate indent (lit "  ")).flatten

/-- What stands between the brackets, one level further in than these. -/
def block (indent : Nat) : List (List β) → List β
  | [] => []
  | text :: texts =>
      newline lit (indent + 1) ++
        (lit "," ++ newline lit (indent + 1)).intercalate (text :: texts) ++ newline lit indent

mutual

/-- `serde_json::to_string_pretty`, from a given indentation on. -/
def pretty : Nat → Value φ → List β
  | _, .null => lit "null"
  | _, .bool true => lit "true"
  | _, .bool false => lit "false"
  | _, .number n => lit n.display
  | _, .string s => str s
  | indent, .array items => lit "[" ++ block lit indent (prettyItems (indent + 1) items) ++ lit "]"
  | indent, .object members =>
      lit "\x7b" ++ block lit indent (prettyMembers (indent + 1) members) ++ lit "\x7d"

def prettyItems (indent : Nat) : List (Value φ) → List (List β)
  | [] => []
  | v :: rest => pretty indent v :: prettyItems indent rest

def prettyMembers (indent : Nat) : List (String × Value φ) → List (List β)
  | [] => []
  | (k, v) :: rest => (str k ++ lit ": " ++ pretty indent v) :: prettyMembers indent rest

end

theorem prettyItems_eq_map (indent : Nat) (items : List (Value φ)) :
    prettyItems lit str indent items = items.map (pretty lit str indent) := by
  induction items with
  | nil => rfl
  | cons v rest ih => rw [prettyItems, ih, List.map_cons]

theorem prettyMembers_eq_map (indent : Nat) (members : List (String × Value φ)) :
    prettyMembers lit str indent members =
      members.map fun m => str m.1 ++ lit ": " ++ pretty lit str indent m.2 := by
  induction members with
  | nil => rfl
  | cons m rest ih => rw [prettyMembers, ih, List.map_cons]

end Printer

/-! ## Sequences with white space -/

section Spaces

/-- Bytes of white space only. -/
def Blank (space : Bytes) : Prop := ∀ b ∈ space, isSpace b = true

theorem Blank.skipSpace_append {space : Bytes} (h : Blank space) (text : Bytes) :
    skipSpace (space ++ text) = skipSpace text := by
  induction space with
  | nil => rfl
  | cons b space ih =>
      have hb := h b List.mem_cons_self
      have hrest := ih fun b' hb' => h b' (List.mem_cons_of_mem _ hb')
      rw [List.cons_append, skipSpace, List.dropWhile_cons, if_pos hb]
      exact hrest

/-- White space ends a numeral. -/
theorem Blank.endsNumeral_append {space : Bytes} (h : Blank space) {text : Bytes}
    (htext : EndsNumeral text) : EndsNumeral (space ++ text) := by
  cases space with
  | nil => exact htext
  | cons b space =>
      rintro b' ⟨rfl⟩
      have hb := h b List.mem_cons_self
      simp only [isSpace, Bool.or_eq_true, decide_eq_true_eq] at hb
      rcases hb with ((rfl | rfl) | rfl) | rfl <;> decide

theorem blank_newline (indent : Nat) : Blank (newline utf8 indent) := by
  intro b hb
  rw [newline, List.mem_append] at hb
  rcases hb with hb | hb
  · have hline : utf8 "\n" = [10] := rfl
    rw [hline] at hb
    rw [List.mem_singleton.mp hb]
    rfl
  · rcases List.mem_flatten.mp hb with ⟨blanks, hblanks, hb⟩
    have hspaces : utf8 "  " = List.replicate 2 32 := rfl
    rw [List.eq_of_mem_replicate hblanks, hspaces] at hb
    rw [List.eq_of_mem_replicate hb]
    rfl

end Spaces

section Sequences

variable {α γ : Type} {element : Bytes → Option (γ × Bytes)} {close : UInt8} {enc : α → Bytes}
  {val : α → γ} {space : Bytes}

/-- Elements with white space around them are read one by one. -/
theorem parseElements_spaced (hclose : close = 93 ∨ close = 125) (hspace : Blank space)
    {as : List α} (hne : as ≠ []) (hstart : ∀ a ∈ as, StartsElement (enc a))
    (helement : ∀ a ∈ as, ∀ rest, EndsNumeral rest →
      element (enc a ++ rest) = some (val a, rest))
    {space' : Bytes} (hspace' : Blank space') (rest : Bytes) {fuel : Nat}
    (hfuel : as.length ≤ fuel) :
    parseElements element close fuel (space ++ (byteLit "," ++ space).intercalate (as.map enc) ++
        (space' ++ close :: rest)) = some (as.map val, rest) := by
  induction as generalizing fuel with
  | nil => exact absurd rfl hne
  | cons a as ih =>
      have hstart' := hstart a List.mem_cons_self
      have helement' := helement a List.mem_cons_self
      cases fuel with
      | zero => simp at hfuel
      | succ fuel =>
          cases as with
          | nil =>
              have hends : EndsNumeral (space' ++ close :: rest) :=
                hspace'.endsNumeral_append (.cons (.inr hclose) rest)
              have hskip : skipSpace (space' ++ close :: rest) = close :: rest := by
                rw [hspace'.skipSpace_append, skipSpace_cons (.inr (.inr hclose))]
              rw [List.map_cons, List.map_nil, List.intercalate_singleton, parseElements,
                List.append_assoc, hspace.skipSpace_append, (hstart'.append _).skipSpace,
                helement' _ hends]
              simp [hskip]
          | cons a' as =>
              have hfuel' : (a' :: as).length ≤ fuel := by simpa using hfuel
              have htail := ih (List.cons_ne_nil a' as)
                (fun x hx => hstart x (List.mem_cons_of_mem a hx))
                (fun x hx => helement x (List.mem_cons_of_mem a hx)) hfuel'
              have hskip : ∀ text, skipSpace (44 :: text) = 44 :: text := fun _ => rfl
              have hne' : (44 : UInt8) ≠ close := by
                rcases hclose with rfl | rfl <;> decide
              have htext : space ++ (byteLit "," ++ space).intercalate ((a :: a' :: as).map enc) ++
                  (space' ++ close :: rest) =
                  space ++ (enc a ++ 44 :: (space ++
                    (byteLit "," ++ space).intercalate ((a' :: as).map enc) ++
                    (space' ++ close :: rest))) := by
                have hcomma : byteLit "," = [44] := rfl
                rw [List.map_cons, List.map_cons, List.intercalate_cons_cons, hcomma]
                simp only [List.append_assoc, List.cons_append, List.nil_append]
              rw [htext, parseElements, hspace.skipSpace_append, (hstart'.append _).skipSpace,
                helement' _ (.cons (.inl rfl) _)]
              simp only [hskip, hne', if_true, if_false, Option.bind_eq_bind, Option.bind_some,
                htail]
              rfl

/-- The text of the first element comes first. -/
theorem intercalate_startsElement_spaced {a : α} (as : List α) (hstart : StartsElement (enc a))
    (sep : Bytes) : StartsElement (sep.intercalate ((a :: as).map enc)) := by
  cases as with
  | nil =>
      rw [List.map_cons, List.map_nil, List.intercalate_singleton]
      exact hstart
  | cons a' as =>
      rw [List.map_cons, List.map_cons, List.intercalate_cons_cons, List.append_assoc]
      exact hstart.append _

/-- Every element takes at least one byte. -/
theorem length_le_length_spaced {as : List α} (hstart : ∀ a ∈ as, StartsElement (enc a))
    (sep : Bytes) : as.length ≤ (sep.intercalate (as.map enc)).length := by
  induction as with
  | nil => simp
  | cons a as ih =>
      have htail := ih fun x hx => hstart x (List.mem_cons_of_mem a hx)
      rcases hstart a List.mem_cons_self with ⟨b, tail, hcode, -⟩
      cases as with
      | nil => simp [hcode]
      | cons a' as =>
          rw [List.map_cons, List.map_cons, List.intercalate_cons_cons, ← List.map_cons, hcode]
          simp only [List.length_append, List.length_cons] at htail ⊢
          omega

/-- What stands between the brackets of an indented text is read back. -/
theorem parseSequence_block (hclose : close = 93 ∨ close = 125) (indent : Nat) {as : List α}
    (hstart : ∀ a ∈ as, StartsElement (enc a))
    (helement : ∀ a ∈ as, ∀ rest, EndsNumeral rest →
      element (enc a ++ rest) = some (val a, rest)) (rest : Bytes) :
    parseSequence element close (block utf8 indent (as.map enc) ++ close :: rest) =
      some (as.map val, rest) := by
  cases as with
  | nil =>
      have hskip := skipSpace_cons (b := close) (.inr (.inr hclose)) rest
      simp [parseSequence, block, hskip]
  | cons a as =>
      have hspace := blank_newline (indent + 1)
      let sep := byteLit "," ++ newline utf8 (indent + 1)
      have htext : block utf8 indent ((a :: as).map enc) ++ close :: rest =
          newline utf8 (indent + 1) ++ sep.intercalate ((a :: as).map enc) ++
            (newline utf8 indent ++ close :: rest) := by
        rw [List.map_cons, block, List.append_assoc]
        rfl
      have hfuel : (a :: as).length ≤ (newline utf8 (indent + 1) ++
          sep.intercalate ((a :: as).map enc) ++ (newline utf8 indent ++ close :: rest)).length +
            1 := by
        have hlen := length_le_length_spaced hstart sep
        simp only [List.length_append] at hlen ⊢
        omega
      have helements := parseElements_spaced hclose hspace (List.cons_ne_nil a as) hstart helement
        (blank_newline indent) rest hfuel
      rcases intercalate_startsElement_spaced as (hstart a List.mem_cons_self) sep with
        ⟨b, tail, hhead, hb, hbracket, hbrace⟩
      have hne : b ≠ close := by
        rcases hclose with rfl | rfl
        · exact hbracket
        · exact hbrace
      have hskip : skipSpace (newline utf8 (indent + 1) ++ sep.intercalate ((a :: as).map enc) ++
          (newline utf8 indent ++ close :: rest)) =
          b :: (tail ++ (newline utf8 indent ++ close :: rest)) := by
        rw [List.append_assoc, hspace.skipSpace_append, hhead, List.cons_append]
        simp [skipSpace, hb]
      rw [htext, parseSequence, hskip]
      simp only [if_neg hne]
      exact helements

end Sequences

/-! ## Maps in key order -/

section Maps

variable {α : Type}

theorem insertMember_pairwise_lt {key : String} {a : α} {map : List (String × α)}
    (h : map.Pairwise fun x y => x.1 < y.1) :
    (insertMember key a map).Pairwise fun x y => x.1 < y.1 := by
  induction map with
  | nil => exact List.pairwise_singleton _ _
  | cons m map ih =>
      rcases List.pairwise_cons.mp h with ⟨hm, hmap⟩
      rw [insertMember]
      split
      · rename_i hlt
        apply List.pairwise_cons.mpr
        refine ⟨?_, h⟩
        intro x hx
        rcases List.mem_cons.mp hx with rfl | hx
        · exact hlt
        · exact lt_trans hlt (hm x hx)
      · rename_i hge
        split
        · rename_i heq
          subst heq
          exact List.pairwise_cons.mpr ⟨hm, hmap⟩
        · rename_i hne
          apply List.pairwise_cons.mpr
          refine ⟨?_, ih hmap⟩
          intro x hx
          rcases mem_insertMember hx with rfl | hx
          · exact lt_of_le_of_ne (not_lt.mp hge) (Ne.symm hne)
          · exact hm x hx

theorem toMap_pairwise_lt (members : List (String × α)) :
    (toMap members).Pairwise fun x y => x.1 < y.1 := by
  have hfold : ∀ (rest map : List (String × α)), (map.Pairwise fun x y => x.1 < y.1) →
      (rest.foldl (fun map m => insertMember m.1 m.2 map) map).Pairwise
        fun x y => x.1 < y.1 := by
    intro rest
    induction rest with
    | nil => exact fun map h => h
    | cons m rest ih =>
        intro map h
        exact ih _ (insertMember_pairwise_lt h)
  exact hfold members [] List.Pairwise.nil

/-- The map of members with distinct keys is their sorted list. -/
theorem toMap_eq_sortOn {members : List (String × α)}
    (distinct : (members.map Prod.fst).Nodup) : toMap members = sortOn Prod.fst members := by
  have hunique : ∀ m ∈ members, ∀ m' ∈ members, m.1 = m'.1 → m = m' := by
    intro m hm m' hm' hkey
    exact List.inj_on_of_nodup_map distinct hm hm' hkey
  have hmem : ∀ m, m ∈ toMap members ↔ m ∈ sortOn Prod.fst members := by
    intro m
    rw [mem_toMap_iff hunique, mem_sortOn]
  have hsorted := sortOn_pairwise_lt distinct
  have hperm : (toMap members).Perm (sortOn Prod.fst members) :=
    (List.perm_ext_iff_of_nodup (Value.nodup_keys_of_sorted (toMap_pairwise_lt members)).of_map
      (Value.nodup_keys_of_sorted hsorted).of_map).mpr hmem
  exact eq_of_perm_of_pairwise_lt (toMap_pairwise_lt members) hsorted hperm

end Maps

/-! ## Values are read back -/

section Values

variable {φ : Type} [F64 φ] {str : String → Bytes}

/-- A value without a bracket is written as in a compact text. -/
theorem pretty_eq_render {indent : Nat} {v : Value φ} (hflat : v.depth = 0) :
    pretty utf8 str indent v = render str v := by
  cases v with
  | null => rfl
  | bool b => cases b <;> rfl
  | number n => rfl
  | string s => rfl
  | array items => cases hflat
  | object members => cases hflat

omit [F64 φ] in
theorem Value.Keyed.formed_of_flat {numbers : Number φ → Prop} {v : Value φ}
    (h : v.Keyed numbers) (hflat : v.depth = 0) : v.Formed numbers ∧ v.sorted = v := by
  cases h with
  | null => exact ⟨.null, rfl⟩
  | bool b => exact ⟨.bool b, rfl⟩
  | number h => exact ⟨.number h, rfl⟩
  | string s => exact ⟨.string s, rfl⟩
  | array h => cases hflat
  | object distinct h => cases hflat

/-- The text of a value starts with a character of its own. -/
theorem pretty_startsElement (hstr : ReadBack str) (indent : Nat) {v : Value φ}
    (hv : v.Keyed Number.IsInteger) : StartsElement (pretty utf8 str indent v) := by
  by_cases hflat : v.depth = 0
  · rw [pretty_eq_render hflat]
    exact render_startsElement hstr (hv.formed_of_flat hflat).1
  · cases hv with
    | null => exact absurd rfl hflat
    | bool b => exact absurd rfl hflat
    | number h => exact absurd rfl hflat
    | string s => exact absurd rfl hflat
    | array h => exact ⟨91, _, rfl, by decide⟩
    | object distinct h => exact ⟨123, _, rfl, by decide⟩

/-- A member is read back when its value is. -/
theorem parseMember_pretty (hstr : ReadBack str) {element : Bytes → Option (Value φ × Bytes)}
    (key : String) {indent : Nat} {v u : Value φ} (hv : v.Keyed Number.IsInteger) {rest : Bytes}
    (hread : element (pretty utf8 str indent v ++ rest) = some (u, rest)) :
    parseMember element (str key ++ utf8 ": " ++ pretty utf8 str indent v ++ rest) =
      some ((key, u), rest) := by
  rcases hstr key with ⟨tail, htext, hkey⟩
  have hcolon : utf8 ": " = [58, 32] := rfl
  have hstart := (pretty_startsElement hstr indent hv).append rest
  have hskip : skipSpace (32 :: (pretty utf8 str indent v ++ rest)) =
      pretty utf8 str indent v ++ rest := by
    have hblank : Blank [32] := by simp [Blank, isSpace]
    exact (hblank.skipSpace_append _).trans hstart.skipSpace
  have hskip' : ∀ text, skipSpace (58 :: text) = 58 :: text := fun _ => rfl
  rw [htext, hcolon, List.append_assoc, List.append_assoc, List.cons_append, parseMember, hkey]
  simp only [List.cons_append, List.nil_append, Option.bind_eq_bind, Option.bind_some, hskip',
    hskip, hread]

/-- The reader with this limit returns the values that nest below it. -/
def ReadsPretty (readFloat : Bytes → Option φ) (str : String → Bytes) (limit : Nat) : Prop :=
  ∀ {v : Value φ}, v.depth < limit → v.Keyed Number.IsInteger → ∀ (indent : Nat) {rest : Bytes},
    EndsNumeral rest →
      parseValue readFloat limit (pretty utf8 str indent v ++ rest) = some (v.sorted, rest)

/-- An array is read one level further down. -/
theorem ReadsPretty.array {readFloat : Bytes → Option φ} {limit : Nat}
    (ih : ReadsPretty readFloat str limit) (hstr : ReadBack str) {items : List (Value φ)}
    (h : ∀ v ∈ items, v.Keyed Number.IsInteger) (hdepth : (Value.array items).depth < limit + 1)
    (indent : Nat) (rest : Bytes) :
    parseValue readFloat (limit + 1) (pretty utf8 str indent (.array items) ++ rest) =
      some ((Value.array items).sorted, rest) := by
  have hlimit : limit ≠ 0 := by
    rw [Value.depth] at hdepth
    omega
  have hread : ∀ v ∈ items, ∀ rest, EndsNumeral rest →
      parseValue readFloat limit (pretty utf8 str (indent + 1) v ++ rest) =
        some (v.sorted, rest) := by
    intro v hv rest hrest
    exact ih (depth_lt_of_mem_array hdepth v hv) (h v hv) (indent + 1) hrest
  have hitems := parseSequence_block (.inl rfl) indent
    (fun v hv => pretty_startsElement hstr (indent + 1) (h v hv)) hread rest
  have htext : pretty utf8 str indent (.array items) ++ rest =
      91 :: (block utf8 indent (items.map (pretty utf8 str (indent + 1))) ++ 93 :: rest) := by
    rw [pretty, prettyItems_eq_map, List.append_assoc, List.append_assoc]
    rfl
  rw [htext, parseValue, if_pos ⟨_, rfl⟩, if_neg hlimit, List.drop_one, List.tail_cons, hitems,
    Value.sorted, Value.sortedItems_eq_map]
  rfl

/-- So is an object; its members come in key order. -/
theorem ReadsPretty.object {readFloat : Bytes → Option φ} {limit : Nat}
    (ih : ReadsPretty readFloat str limit) (hstr : ReadBack str)
    {members : List (String × Value φ)} (distinct : (members.map Prod.fst).Nodup)
    (h : ∀ m ∈ members, m.2.Keyed Number.IsInteger)
    (hdepth : (Value.object members).depth < limit + 1) (indent : Nat) (rest : Bytes) :
    parseValue readFloat (limit + 1) (pretty utf8 str indent (.object members) ++ rest) =
      some ((Value.object members).sorted, rest) := by
  have hlimit : limit ≠ 0 := by
    rw [Value.depth] at hdepth
    omega
  have hread : ∀ m ∈ members, ∀ rest, EndsNumeral rest →
      parseMember (parseValue readFloat limit)
        (str m.1 ++ utf8 ": " ++ pretty utf8 str (indent + 1) m.2 ++ rest) =
        some ((m.1, m.2.sorted), rest) := by
    intro m hm rest hrest
    exact parseMember_pretty hstr m.1 (h m hm)
      (ih (depth_lt_of_mem_object hdepth m hm) (h m hm) (indent + 1) hrest)
  have hstart : ∀ m ∈ members,
      StartsElement (str m.1 ++ utf8 ": " ++ pretty utf8 str (indent + 1) m.2) := by
    intro m _
    rcases hstr m.1 with ⟨tail, htext, -⟩
    rw [htext]
    exact ⟨34, _, rfl, by decide⟩
  have hmembers := parseSequence_block (.inr rfl) indent hstart hread rest
  have htext : pretty utf8 str indent (.object members) ++ rest =
      123 :: (block utf8 indent (members.map fun m =>
        str m.1 ++ utf8 ": " ++ pretty utf8 str (indent + 1) m.2) ++ 125 :: rest) := by
    rw [pretty, prettyMembers_eq_map, List.append_assoc, List.append_assoc]
    rfl
  have hbracket : ¬ byteLit "[" <+: 123 :: (block utf8 indent (members.map fun m =>
      str m.1 ++ utf8 ": " ++ pretty utf8 str (indent + 1) m.2) ++ 125 :: rest) :=
    not_prefix_of_ne 91 rfl (by decide) _
  have hdistinct : ((members.map fun m => (m.1, m.2.sorted)).map Prod.fst).Nodup := by
    rw [List.map_map]
    exact distinct
  rw [htext, parseValue, if_neg hbracket, if_pos ⟨_, rfl⟩, if_neg hlimit, List.drop_one,
    List.tail_cons, hmembers, Value.sorted, Value.sortedMembers_eq_map,
    ← toMap_eq_sortOn hdistinct]
  rfl

/-- The reader with a limit returns the values that nest below it. -/
theorem parseValue_pretty (readFloat : Bytes → Option φ) (hstr : ReadBack str) (limit : Nat) :
    ReadsPretty readFloat str limit := by
  induction limit with
  | zero =>
      intro v hdepth
      exact absurd hdepth (Nat.not_lt_zero _)
  | succ limit ih =>
      intro v hdepth hv indent rest hrest
      by_cases hflat : v.depth = 0
      · rcases hv.formed_of_flat hflat with ⟨hformed, hsorted⟩
        have hread := parseValue_render readFloat hstr (limit + 1) hformed hrest
        rw [pretty_eq_render hflat, hread, if_pos hdepth, hsorted]
      · cases hv with
        | null => exact absurd rfl hflat
        | bool b => exact absurd rfl hflat
        | number h => exact absurd rfl hflat
        | string s => exact absurd rfl hflat
        | @array items h => exact ih.array hstr h hdepth indent rest
        | @object members distinct h => exact ih.object hstr distinct h hdepth indent rest

/-- So does the reader of whole texts. -/
theorem parse_pretty (readFloat : Bytes → Option φ) (hstr : ReadBack str) {limit : Nat}
    {v : Value φ} (hv : v.Keyed Number.IsInteger) (hdepth : v.depth < limit) :
    parse readFloat limit (pretty utf8 str 0 v) = some v.sorted := by
  have hvalue := parseValue_pretty readFloat hstr limit hdepth hv 0 .nil
  rw [List.append_nil] at hvalue
  rw [parse, (pretty_startsElement hstr 0 hv).skipSpace, hvalue]
  rfl

/-- A value that nests below the limit of the parser is read back, its members
in key order. -/
theorem Parser.Laws.fromSlice_pretty {J : Parser φ} (laws : J.Laws) (hstr : ReadBack str)
    {v : Value φ} (hv : v.Keyed Number.IsInteger) (hdepth : v.depth < recursionLimit) :
    J.fromSlice (pretty utf8 str 0 v) = .ok v.sorted := by
  have hparse := laws.fromSlice_eq (pretty utf8 str 0 v)
  rw [parse_pretty J.readFloat hstr hv hdepth] at hparse
  cases hslice : J.fromSlice (pretty utf8 str 0 v) with
  | error e =>
      rw [hslice] at hparse
      cases hparse
  | ok u =>
      rw [hslice] at hparse
      cases hparse
      rfl

end Values

/-! ## Other symbols -/

section Symbols

variable {φ β γ : Type} [F64 φ] {lit : String → List β} {str : String → List β}

/-- A map of symbols goes through the printer. -/
theorem map_newline (f : β → List γ) (indent : Nat) :
    (newline lit indent).flatMap f = newline (fun t => (lit t).flatMap f) indent := by
  rw [newline, newline, List.flatMap_append]
  congr 1
  induction indent with
  | zero => rfl
  | succ indent ih =>
      rw [List.replicate_succ, List.replicate_succ, List.flatten_cons, List.flatten_cons,
        List.flatMap_append, ih]

theorem flatMap_intercalate (f : β → List γ) (sep : List β) (texts : List (List β)) :
    (sep.intercalate texts).flatMap f =
      (sep.flatMap f).intercalate (texts.map fun t => t.flatMap f) := by
  induction texts with
  | nil => rfl
  | cons text texts ih =>
      cases texts with
      | nil => simp
      | cons text' texts =>
          rw [List.intercalate_cons_cons, List.flatMap_append, List.flatMap_append, ih]
          simp only [List.map_cons, List.intercalate_cons_cons]

theorem flatMap_block (f : β → List γ) (indent : Nat) (texts : List (List β)) :
    (block lit indent texts).flatMap f =
      block (fun t => (lit t).flatMap f) indent (texts.map fun t => t.flatMap f) := by
  cases texts with
  | nil => rfl
  | cons text texts =>
      rw [block, List.map_cons, block, List.flatMap_append, List.flatMap_append,
        flatMap_intercalate, List.flatMap_append, map_newline, map_newline, List.map_cons]

mutual

theorem flatMap_pretty (f : β → List γ) (indent : Nat) (v : Value φ) :
    (pretty lit str indent v).flatMap f =
      pretty (fun t => (lit t).flatMap f) (fun s => (str s).flatMap f) indent v := by
  cases v with
  | null => rfl
  | bool b => cases b <;> rfl
  | number n => rfl
  | string s => rfl
  | array items =>
      rw [pretty, pretty, List.flatMap_append, List.flatMap_append, flatMap_block,
        flatMap_prettyItems]
  | object members =>
      rw [pretty, pretty, List.flatMap_append, List.flatMap_append, flatMap_block,
        flatMap_prettyMembers]

theorem flatMap_prettyItems (f : β → List γ) (indent : Nat) (items : List (Value φ)) :
    (prettyItems lit str indent items).map (fun t => t.flatMap f) =
      prettyItems (fun t => (lit t).flatMap f) (fun s => (str s).flatMap f) indent items := by
  cases items with
  | nil => rfl
  | cons v rest =>
      rw [prettyItems, prettyItems, List.map_cons, flatMap_pretty, flatMap_prettyItems]

theorem flatMap_prettyMembers (f : β → List γ) (indent : Nat)
    (members : List (String × Value φ)) :
    (prettyMembers lit str indent members).map (fun t => t.flatMap f) =
      prettyMembers (fun t => (lit t).flatMap f) (fun s => (str s).flatMap f) indent members := by
  cases members with
  | nil => rfl
  | cons m rest =>
      rw [prettyMembers, prettyMembers, List.map_cons, List.flatMap_append, List.flatMap_append,
        flatMap_pretty, flatMap_prettyMembers]

end

end Symbols

/-- The indented text of a value. -/
def prettyText {φ : Type} [F64 φ] (v : Value φ) : String :=
  String.ofList (pretty String.toList quotedText 0 v)

/-- The bytes of an indented text. -/
theorem utf8_prettyText {φ : Type} [F64 φ] (v : Value φ) :
    utf8 (prettyText v) = pretty utf8 quoted 0 v := by
  have hstr : (fun s => (quotedText s).flatMap String.utf8EncodeChar) = quoted :=
    funext utf8_quotedText
  have hlit : (fun t : String => t.toList.flatMap String.utf8EncodeChar) = utf8 := rfl
  rw [utf8, prettyText, String.toList_ofList, flatMap_pretty, hlit, hstr]

/-- `serde_json::to_string_pretty`, on the fields of a structure in their
order. -/
structure PrettySerde (φ : Type) where
  toStringPretty : Value φ → Option String

/-- The encoder writes the documented indented text. -/
structure PrettySerde.Laws {φ : Type} [F64 φ] (S : PrettySerde φ) : Prop where
  toStringPretty_eq : ∀ v, S.toStringPretty v = some (prettyText v)

/-- The encoder that writes the documented text. -/
def PrettySerde.documented (φ : Type) [F64 φ] : PrettySerde φ where
  toStringPretty v := some (prettyText v)

theorem PrettySerde.documented_laws (φ : Type) [F64 φ] : (PrettySerde.documented φ).Laws where
  toStringPretty_eq _ := rfl

/-! ## Words in a text -/

section Screened

variable {φ : Type}

mutual

/-- The strings of a value, keys included. -/
def Value.strings : Value φ → List String
  | .null => []
  | .bool _ => []
  | .number _ => []
  | .string s => [s]
  | .array items => stringsItems items
  | .object members => stringsMembers members

def stringsItems : List (Value φ) → List String
  | [] => []
  | v :: rest => v.strings ++ stringsItems rest

def stringsMembers : List (String × Value φ) → List String
  | [] => []
  | (k, v) :: rest => k :: v.strings ++ stringsMembers rest

end

theorem mem_stringsItems {items : List (Value φ)} {s : String} :
    s ∈ stringsItems items ↔ ∃ v ∈ items, s ∈ v.strings := by
  induction items with
  | nil => simp [stringsItems]
  | cons v rest ih => simp [stringsItems, ih]

theorem mem_stringsMembers {members : List (String × Value φ)} {s : String} :
    s ∈ stringsMembers members ↔ ∃ m ∈ members, s = m.1 ∨ s ∈ m.2.strings := by
  induction members with
  | nil => simp [stringsMembers]
  | cons m rest ih => simp [stringsMembers, ih, or_assoc]

variable [F64 φ] {β : Type} {words : List (List β)} {lit : String → List β}
  {str : String → List β}

open Words

/-- The tokens around the values are separators, and the others have no word in
them. -/
structure Screens (words : List (List β)) (lit : String → List β)
    (numbers : Number φ → Prop) : Prop where
  separator : ∀ t ∈ ["\n", "  ", ",", ": ", "[", "]", "\x7b", "\x7d"], Separator words (lit t)
  plain : ∀ t ∈ ["null", "true", "false"], Avoids words (lit t)
  number : ∀ n, numbers n → Avoids words (lit n.display)

variable {numbers : Number φ → Prop}

theorem Screens.newline (h : Screens words lit numbers) (indent : Nat) :
    Separator words (newline lit indent) := by
  have hbreak := h.separator "\n" (by simp)
  have hblanks := h.separator "  " (by simp)
  refine ⟨List.append_ne_nil_of_left_ne_nil hbreak.1 _, ?_⟩
  intro sep hsep
  rcases List.mem_append.mp hsep with hsep | hsep
  · exact hbreak.2 sep hsep
  · rcases List.mem_flatten.mp hsep with ⟨t, ht, hsep⟩
    rw [List.eq_of_mem_replicate ht] at hsep
    exact hblanks.2 sep hsep

/-- What stands between brackets, and the brackets. -/
theorem Screens.avoids_block_iff (h : Screens words lit numbers) (indent : Nat)
    {texts : List (List β)} {opening closing : String}
    (hopening : opening = "[" ∨ opening = "\x7b") (hclosing : closing = "]" ∨ closing = "\x7d")
    (hempty : Avoids words []) :
    Avoids words (lit opening ++ block lit indent texts ++ lit closing) ↔
      ∀ text ∈ texts, Avoids words text := by
  have hopens : Separator words (lit opening) := by
    rcases hopening with rfl | rfl <;> exact h.separator _ (by simp)
  have hcloses : Separator words (lit closing) := by
    rcases hclosing with rfl | rfl <;> exact h.separator _ (by simp)
  rw [hcloses.avoids_append_right, hopens.avoids_append_left]
  cases texts with
  | nil => simp [block, hempty]
  | cons text texts =>
      have hline := h.newline (indent + 1)
      have hsep := (h.separator "," (by simp)).append hline
      rw [block, (h.newline indent).avoids_append_right, hline.avoids_append_left,
        hsep.avoids_intercalate_iff (List.cons_ne_nil _ _)]

/-- A word occurs in the text of a value exactly when it occurs in one of the
strings as they are written. -/
theorem Screens.avoids_pretty_iff (h : Screens words lit numbers) (hempty : Avoids words [])
    {v : Value φ} (hv : v.Keyed numbers) (indent : Nat) :
    Avoids words (pretty lit str indent v) ↔ ∀ s ∈ v.strings, Avoids words (str s) := by
  induction hv generalizing indent with
  | null => simp [pretty, Value.strings, h.plain]
  | bool b => cases b <;> simp [pretty, Value.strings, h.plain]
  | number hn => simp [pretty, Value.strings, h.number _ hn]
  | string s => simp [pretty, Value.strings]
  | @array items _ ih =>
      rw [pretty, prettyItems_eq_map, h.avoids_block_iff indent (.inl rfl) (.inl rfl) hempty,
        List.forall_mem_map, Value.strings]
      simp only [mem_stringsItems]
      constructor
      · rintro hall s ⟨v, hv, hs⟩
        exact (ih v hv (indent + 1)).mp (hall v hv) s hs
      · intro hall v hv
        exact (ih v hv (indent + 1)).mpr fun s hs => hall s ⟨v, hv, hs⟩
  | @object members _ _ ih =>
      have hcolon := h.separator ": " (by simp)
      rw [pretty, prettyMembers_eq_map, h.avoids_block_iff indent (.inr rfl) (.inr rfl) hempty,
        List.forall_mem_map, Value.strings]
      simp only [mem_stringsMembers, List.append_assoc, hcolon.avoids_append]
      constructor
      · rintro hall s ⟨m, hm, rfl | hs⟩
        · exact (hall m hm).1
        · exact (ih m hm (indent + 1)).mp (hall m hm).2 s hs
      · intro hall m hm
        exact ⟨hall m.1 ⟨m, hm, .inl rfl⟩,
          (ih m hm (indent + 1)).mpr fun s hs => hall s ⟨m, hm, .inr hs⟩⟩

end Screened

end Json
