import SkPqc.Foundations.JsonParser

/-!
# Compact texts

What the compact text of a value looks like, whatever the encoder of its
strings, and a reference decoder for it.  The decoder is that of RFC 8259: it
has no limit of nesting, and leaves the members of an object in the order of
the text.

Main results:

- Theorem `render_closed`: what concatenation keeps, and holds of the strings
  and of every other token, holds of the text.
- Theorem `render_tight`: no white space stands outside the strings.
- Theorem `decode_render`: the decoder returns the value of a text.
-/

namespace Json

open Rust

section Decoder

variable {φ : Type}

/-! ## The reference decoder -/

/-- A value at the head of a text; every level of nesting takes one of `fuel`. -/
def decodeValue (readFloat : Bytes → Option φ) : Nat → Bytes → Option (Value φ × Bytes)
  | 0, _ => none
  | fuel + 1, text =>
      if byteLit "[" <+: text then
        (parseSequence (decodeValue readFloat fuel) 93 (text.drop 1)).map
          fun (items, rest) => (.array items, rest)
      else if byteLit "\x7b" <+: text then
        (parseSequence (parseMember (decodeValue readFloat fuel)) 125 (text.drop 1)).map
          fun (members, rest) => (.object members, rest)
      else
        parseScalar readFloat text

/-- A whole text.  A level of nesting takes a byte of it, so its length is
enough fuel. -/
def decode (readFloat : Bytes → Option φ) (text : Bytes) : Option (Value φ) := do
  let (v, rest) ← decodeValue readFloat (text.length + 1) (skipSpace text)
  if skipSpace rest = [] then some v else none

end Decoder

/-! ## Strings in a text -/

/-- Where a scanner of a text stands. -/
inductive Position where
  | outside
  | inside
  /-- Inside a string, behind a backslash. -/
  | escaped
deriving DecidableEq, Repr

/-- The position behind a byte. -/
def Position.next : Position → UInt8 → Position
  | .outside, b => if b = 34 then .inside else .outside
  | .inside, b => if b = 34 then .outside else if b = 92 then .escaped else .inside
  | .escaped, _ => .inside

/-- The bytes of a text that belong to no string. -/
def outsideStrings : Position → Bytes → Bytes
  | _, [] => []
  | p, b :: rest =>
      if p = .outside ∧ b ≠ 34 then b :: outsideStrings (p.next b) rest
      else outsideStrings (p.next b) rest

theorem outsideStrings_append (p : Position) (xs ys : Bytes) :
    outsideStrings p (xs ++ ys) =
      outsideStrings p xs ++ outsideStrings (xs.foldl Position.next p) ys := by
  induction xs generalizing p with
  | nil => rfl
  | cons b xs ih =>
      rw [List.cons_append, outsideStrings, outsideStrings, List.foldl_cons, ih]
      split <;> rfl

/-- Whole strings, and no white space outside of them. -/
structure Tight (text : Bytes) : Prop where
  closed : text.foldl Position.next .outside = .outside
  noSpace : ∀ b ∈ outsideStrings .outside text, isSpace b = false

theorem Tight.append {xs ys : Bytes} (hx : Tight xs) (hy : Tight ys) : Tight (xs ++ ys) where
  closed := by rw [List.foldl_append, hx.closed, hy.closed]
  noSpace b hb := by
    rw [outsideStrings_append, hx.closed, List.mem_append] at hb
    rcases hb with hb | hb
    · exact hx.noSpace b hb
    · exact hy.noSpace b hb

/-- The bytes stay inside a string. -/
structure Inert (text : Bytes) : Prop where
  stays : text.foldl Position.next .inside = .inside
  hidden : outsideStrings .inside text = []

theorem Inert.nil : Inert [] := ⟨rfl, rfl⟩

theorem Inert.append {xs ys : Bytes} (hx : Inert xs) (hy : Inert ys) : Inert (xs ++ ys) where
  stays := by rw [List.foldl_append, hx.stays, hy.stays]
  hidden := by rw [outsideStrings_append, hx.stays, hx.hidden, hy.hidden, List.nil_append]

theorem Inert.raw {b : UInt8} (hquote : b ≠ 34) (hslash : b ≠ 92) : Inert [b] := by
  constructor
  · simp [Position.next, hquote, hslash]
  · simp [outsideStrings]

theorem Inert.escape (b : UInt8) : Inert [92, b] := ⟨rfl, by simp [outsideStrings, Position.next]⟩

theorem Inert.flatMap {α : Type} {enc : α → Bytes} (henc : ∀ a, Inert (enc a)) (as : List α) :
    Inert (as.flatMap enc) := by
  induction as with
  | nil => exact .nil
  | cons a as ih =>
      rw [List.flatMap_cons]
      exact (henc a).append ih

/-- A string between quotes. -/
theorem Inert.tight {text : Bytes} (h : Inert text) : Tight ([34] ++ text ++ [34]) where
  closed := by
    rw [List.foldl_append, List.foldl_append]
    change ([34] : Bytes).foldl Position.next (text.foldl Position.next .inside) = .outside
    rw [h.stays]
    rfl
  noSpace := by
    have hnone : outsideStrings .outside ([34] ++ text ++ [34]) = [] := by
      rw [List.append_assoc, outsideStrings_append]
      change [] ++ outsideStrings .inside (text ++ [34]) = []
      rw [outsideStrings_append, h.hidden, h.stays]
      rfl
    intro b hb
    rw [hnone] at hb
    cases hb

/-! ## Tokens -/

/-- The bytes of the tokens other than strings. -/
def Plain (b : UInt8) : Prop := b ∈ byteLit "nulltruefalse[]\x7b\x7d,:-" ∨ isDigit b = true

instance : DecidablePred Plain := fun _ => inferInstanceAs (Decidable (_ ∨ _))

theorem Plain.bounds {b : UInt8} (h : Plain b) : 0x20 < b.toNat ∧ b.toNat ≤ 0x7e := by
  rcases h with hmem | hdigit
  · have hall : ∀ b ∈ byteLit "nulltruefalse[]\x7b\x7d,:-", 0x20 < b.toNat ∧ b.toNat ≤ 0x7e :=
      List.all_iff_forall_prop.mp (by decide)
    exact hall b hmem
  · simp only [isDigit, Bool.and_eq_true, decide_eq_true_eq, UInt8.le_iff_toNat_le] at hdigit
    exact ⟨lt_of_lt_of_le (by decide) hdigit.1, le_trans hdigit.2 (by decide)⟩

theorem Plain.ne_quote {b : UInt8} (h : Plain b) : b ≠ 34 := by
  rintro rfl
  exact absurd h (by decide)

theorem Plain.not_isSpace {b : UInt8} (h : Plain b) : isSpace b = false := by
  have hbounds := h.bounds
  have hne : ∀ c : UInt8, c.toNat ≤ 0x20 → b ≠ c := by
    rintro c hc rfl
    omega
  simp [isSpace, hne 0x20 (by decide), hne 0x09 (by decide), hne 0x0a (by decide),
    hne 0x0d (by decide)]

/-- Tokens other than strings are tight. -/
theorem tight_of_plain {text : Bytes} (h : ∀ b ∈ text, Plain b) : Tight text := by
  induction text with
  | nil =>
      constructor
      · rfl
      · intro b hb
        cases hb
  | cons b text ih =>
      have hb := h b List.mem_cons_self
      have hrest := ih fun c hc => h c (List.mem_cons_of_mem b hc)
      have hnext : Position.next .outside b = .outside := if_neg hb.ne_quote
      constructor
      · rw [List.foldl_cons, hnext, hrest.closed]
      · intro c hc
        rw [outsideStrings, if_pos ⟨rfl, hb.ne_quote⟩, hnext] at hc
        rcases List.mem_cons.mp hc with rfl | hc
        · exact hb.not_isSpace
        · exact hrest.noSpace c hc

/-! ## Texts by their tokens -/

section Render

variable {φ : Type} [F64 φ] {str : String → Bytes}

/-- What concatenation keeps holds of the parts between separators. -/
theorem intercalate_closed {T : Bytes → Prop} (nil : T [])
    (append : ∀ xs ys, T xs → T ys → T (xs ++ ys)) {sep : Bytes} (hsep : T sep)
    {parts : List Bytes} (h : ∀ x ∈ parts, T x) : T (sep.intercalate parts) := by
  induction parts with
  | nil => exact nil
  | cons x parts ih =>
      have hx := h x List.mem_cons_self
      have hparts := fun y hy => h y (List.mem_cons_of_mem x hy)
      cases parts with
      | nil =>
          rw [List.intercalate_singleton]
          exact hx
      | cons y parts =>
          rw [List.intercalate_cons_cons]
          exact append _ _ (append _ _ hx hsep) (ih hparts)

/-- The bytes of a numeral. -/
theorem plain_of_mem_display {n : Number φ} (h : n.IsInteger) : ∀ b ∈ utf8 n.display, Plain b := by
  intro b hb
  cases n with
  | posInt n => exact .inr (isDigit_of_mem_decimal (n := n.toNat) b hb)
  | negInt n =>
      rw [utf8_display_negInt h] at hb
      rcases List.mem_cons.mp hb with rfl | hb
      · exact .inl (by decide)
      · exact .inr (isDigit_of_mem_decimal b hb)
  | float x => exact absurd h id

/-- What concatenation keeps, and holds of the strings and of every other token,
holds of the text of a value. -/
theorem render_closed {T : Bytes → Prop} (append : ∀ xs ys, T xs → T ys → T (xs ++ ys))
    (plain : ∀ text, (∀ b ∈ text, Plain b) → T text) (hstr : ∀ s, T (str s)) {v : Value φ}
    (hv : v.Formed Number.IsInteger) : T (render str v) := by
  have token : ∀ text : Bytes, (text.all fun b => decide (Plain b)) = true → T text :=
    fun text h => plain text (List.all_iff_forall_prop.mp h)
  have nil : T [] := plain [] fun b hb => by cases hb
  have comma : T (byteLit ",") := token _ (by decide)
  induction hv with
  | null => exact token (byteLit "null") (by decide)
  | bool b =>
      cases b with
      | false => exact token (byteLit "false") (by decide)
      | true => exact token (byteLit "true") (by decide)
  | number h => exact plain _ (plain_of_mem_display h)
  | string s => exact hstr s
  | array h ih =>
      rw [render, renderItems_eq_map]
      apply append _ _ (append _ _ (token _ (by decide)) ?_) (token _ (by decide))
      apply intercalate_closed nil append comma
      intro text htext
      obtain ⟨v, hv, rfl⟩ := List.mem_map.mp htext
      exact ih v hv
  | object sorted h ih =>
      rw [render, renderMembers_eq_map]
      apply append _ _ (append _ _ (token _ (by decide)) ?_) (token _ (by decide))
      apply intercalate_closed nil append comma
      intro text htext
      obtain ⟨m, hm, rfl⟩ := List.mem_map.mp htext
      exact append _ _ (append _ _ (hstr m.1) (token _ (by decide))) (ih m hm)

/-- No white space stands outside the strings of a text. -/
theorem render_tight (hstr : ∀ s, Tight (str s)) {v : Value φ}
    (hv : v.Formed Number.IsInteger) : Tight (render str v) :=
  render_closed (fun _ _ => Tight.append) (fun _ => tight_of_plain) hstr hv

/-! ## Decoding -/

/-- A part of a text is no longer than the text. -/
theorem length_le_length_intercalate_of_mem (sep : Bytes) {x : Bytes} {parts : List Bytes}
    (h : x ∈ parts) : x.length ≤ (sep.intercalate parts).length := by
  induction parts with
  | nil => cases h
  | cons y parts ih =>
      cases parts with
      | nil =>
          rw [List.mem_singleton.mp h, List.intercalate_singleton]
      | cons z parts =>
          rw [List.intercalate_cons_cons, List.length_append, List.length_append]
          rcases List.mem_cons.mp h with rfl | h
          · omega
          · have hle := ih h
            omega

/-- A level of nesting takes a byte of the text. -/
theorem depth_le_length_render (str : String → Bytes) {numbers : Number φ → Prop} {v : Value φ}
    (hv : v.Formed numbers) : v.depth ≤ (render str v).length := by
  induction hv with
  | null => exact Nat.zero_le _
  | bool b => exact Nat.zero_le _
  | number h => exact Nat.zero_le _
  | string s => exact Nat.zero_le _
  | @array items h ih =>
      rw [render, renderItems_eq_map, Value.depth, List.length_append, List.length_append]
      have hitems : depthItems items <
          ((byteLit ",").intercalate (items.map (render str))).length + 1 := by
        rw [depthItems_lt_iff (Nat.succ_pos _), List.all_eq_true]
        intro v hv
        have hle := length_le_length_intercalate_of_mem (byteLit ",")
          (List.mem_map_of_mem (f := render str) hv)
        rw [decide_eq_true_eq]
        exact Nat.lt_succ_of_le (le_trans (ih v hv) hle)
      have hopen : (byteLit "[").length = 1 := rfl
      omega
  | @object members sorted h ih =>
      rw [render, renderMembers_eq_map, Value.depth, List.length_append, List.length_append]
      have hmembers : depthMembers members <
          ((byteLit ",").intercalate
            (members.map fun m => str m.1 ++ byteLit ":" ++ render str m.2)).length + 1 := by
        rw [depthMembers_lt_iff (Nat.succ_pos _), List.all_eq_true]
        intro m hm
        have hle := length_le_length_intercalate_of_mem (byteLit ",")
          (List.mem_map_of_mem (f := fun m => str m.1 ++ byteLit ":" ++ render str m.2) hm)
        rw [List.length_append] at hle
        rw [decide_eq_true_eq]
        exact Nat.lt_succ_of_le (le_trans (ih m hm) (le_trans (Nat.le_add_left _ _) hle))
      have hopen : (byteLit "\x7b").length = 1 := rfl
      omega

/-- The decoder returns a value from the head of a text. -/
theorem decodeValue_render (readFloat : Bytes → Option φ) (hstr : ReadBack str) {fuel : Nat}
    {v : Value φ} (hv : v.Formed Number.IsInteger) (hfuel : v.depth < fuel) {rest : Bytes}
    (hrest : EndsNumeral rest) :
    decodeValue readFloat fuel (render str v ++ rest) = some (v, rest) := by
  induction fuel generalizing v rest with
  | zero => exact absurd hfuel (Nat.not_lt_zero _)
  | succ fuel ih =>
      by_cases hflat : v.depth = 0
      · obtain ⟨⟨b, tail, htext, harray, hobject⟩, hscalar⟩ :=
          parseScalar_render readFloat hstr hv hflat hrest
        rw [htext, decodeValue, if_neg (not_prefix_of_ne 91 rfl harray tail),
          if_neg (not_prefix_of_ne 123 rfl hobject tail), ← htext, hscalar]
      · rcases hv.nested hflat with ⟨items, rfl, h⟩ | ⟨members, rfl, -, h⟩
        · have hdepth := depth_lt_of_mem_array hfuel
          have hread : ∀ v ∈ items, ∀ rest, EndsNumeral rest →
              decodeValue readFloat fuel (render str v ++ rest) =
                if (fun _ => true) v then some (v, rest) else none :=
            fun v hv rest hrest => ih (h v hv) (hdepth v hv) hrest
          rw [decodeValue, if_pos (render_array_opens str items rest),
            parseItems_render hstr h hread, if_pos (List.all_eq_true.mpr fun _ _ => rfl)]
          rfl
        · have hdepth := depth_lt_of_mem_object hfuel
          have hread : ∀ m ∈ members, ∀ rest, EndsNumeral rest →
              decodeValue readFloat fuel (render str m.2 ++ rest) =
                if (fun _ => true) m then some (m.2, rest) else none :=
            fun m hm rest hrest => ih (h m hm) (hdepth m hm) hrest
          obtain ⟨hbracket, hbrace⟩ := render_object_opens str members rest
          rw [decodeValue, if_neg hbracket, if_pos hbrace, parseMembers_render hstr h hread,
            if_pos (List.all_eq_true.mpr fun _ _ => rfl)]
          rfl

/-- The decoder returns the value of a text, its members as they stand there. -/
theorem decode_render (readFloat : Bytes → Option φ) (hstr : ReadBack str) {v : Value φ}
    (hv : v.Formed Number.IsInteger) : decode readFloat (render str v) = some v := by
  have hvalue := decodeValue_render readFloat hstr hv
    (Nat.lt_succ_of_le (depth_le_length_render str hv)) .nil
  rw [List.append_nil] at hvalue
  rw [decode, (render_startsElement hstr hv).skipSpace, hvalue]
  rfl

end Render

end Json
