import SkPqc.Foundations.Bytes
import Mathlib.Data.List.TakeWhile

/-!
# Text as bytes

Rust strings are UTF-8; the model uses `String` and takes the bytes of a text
where the code does.

Main results:

- Theorem `utf8EncodeChar_isPrefixCode`: the UTF-8 form of a character is not
  the beginning of that of another.
- Theorem `le_of_mem_utf8EncodeChar`: outside ASCII every byte has its high
  bit set.
- Theorem `utf8_injective`: a text is determined by its bytes.
- Theorems `stripPrefix_eq_some_iff` and `utf8_stripPrefix`: what a stripped
  prefix leaves.
- Theorem `splitOnce_eq_some_iff`: where a text is split.
-/

namespace Rust

open PrefixCode

/-- `str::as_bytes`. -/
def utf8 (s : String) : Bytes := s.toList.flatMap String.utf8EncodeChar

/-- `str::strip_prefix`. -/
def stripPrefix (p s : String) : Option String :=
  if p.toList <+: s.toList then some (String.ofList (s.toList.drop p.toList.length)) else none

/-- `str::split_once` at a character. -/
def splitOnce (c : Char) (s : String) : Option (String × String) :=
  match s.toList.dropWhile (· ≠ c) with
  | [] => none
  | _ :: after => some (String.ofList (s.toList.takeWhile (· ≠ c)), String.ofList after)

theorem toNat_charOfNat {n : Nat} (h : n < 128) : (Char.ofNat n).toNat = n := by
  have hvalid : n.isValidChar := Or.inl (by omega)
  unfold Char.ofNat
  rw [dif_pos hvalid]
  rfl

/-- A character below `U+0080` is one byte. -/
theorem utf8EncodeChar_of_lt {c : Char} (h : c.toNat < 128) :
    String.utf8EncodeChar c = [c.toNat.toUInt8] := by
  have hval : c.val ≤ 127 := by
    rw [UInt32.le_iff_toNat_le]
    exact Nat.le_of_lt_succ h
  rw [String.utf8EncodeChar_eq_singleton (Char.utf8Size_eq_one_iff.mpr hval)]
  rfl

theorem toNat_toUInt8 {n : Nat} (h : n < 256) : n.toUInt8.toNat = n :=
  UInt8.toNat_ofNat_of_lt' h

/-- The byte of such a character is not the code of another one. -/
theorem toUInt8_ne {c d : Char} (h : c.toNat < 256) (hne : c ≠ d) {b : UInt8}
    (hb : b.toNat = d.toNat) : c.toNat.toUInt8 ≠ b := by
  rintro rfl
  rw [toNat_toUInt8 h] at hb
  exact hne (Char.toNat_inj.mp hb)

/-- The bytes of a text that is given by its ASCII bytes. -/
theorem utf8_ofList_map {bs : Bytes} (h : ∀ b ∈ bs, b.toNat < 128) :
    utf8 (String.ofList (bs.map fun b => Char.ofNat b.toNat)) = bs := by
  rw [utf8, String.toList_ofList]
  induction bs with
  | nil => rfl
  | cons b rest ih =>
      have hb : b.toNat < 128 := h b List.mem_cons_self
      have hchar : (Char.ofNat b.toNat).toNat = b.toNat := toNat_charOfNat hb
      rw [List.map_cons, List.flatMap_cons, ih fun c hc => h c (List.mem_cons_of_mem _ hc),
        utf8EncodeChar_of_lt (by omega), hchar]
      simp

/-- Outside ASCII, every byte of a character has its high bit set. -/
theorem le_of_mem_utf8EncodeChar {c : Char} (h : 128 ≤ c.toNat) :
    ∀ b ∈ String.utf8EncodeChar c, 128 ≤ b.toNat := by
  have hval : c.val.toNat = c.toNat := rfl
  intro b hb
  simp only [String.utf8EncodeChar, hval] at hb
  split at hb
  · omega
  · split at hb
    · simp only [List.mem_cons, List.not_mem_nil, or_false] at hb
      rcases hb with rfl | rfl <;> simp <;> omega
    · split at hb
      · simp only [List.mem_cons, List.not_mem_nil, or_false] at hb
        rcases hb with rfl | rfl | rfl <;> simp <;> omega
      · simp only [List.mem_cons, List.not_mem_nil, or_false] at hb
        rcases hb with rfl | rfl | rfl | rfl <;> simp <;> omega

/-- The UTF-8 forms of the characters are a prefix code. -/
theorem utf8EncodeChar_isPrefixCode : IsPrefixCode String.utf8EncodeChar := by
  refine .of_split fun a b r h => ?_
  have ha := ByteArray.utf8DecodeChar?_utf8EncodeChar_append (b := r.toByteArray) (c := a)
  have hb := ByteArray.utf8DecodeChar?_utf8EncodeChar_append (b := ByteArray.empty) (c := b)
  rw [← List.toByteArray_append, h] at ha
  rw [ByteArray.append_empty, ha] at hb
  exact Option.some.inj hb

/-- A text is determined by its bytes. -/
theorem utf8_injective : Function.Injective utf8 := by
  intro s t h
  apply String.toList_inj.mp
  unfold utf8 at h
  generalize s.toList = cs at h ⊢
  generalize t.toList = ds at h ⊢
  induction cs generalizing ds with
  | nil =>
      cases ds with
      | nil => rfl
      | cons d ds => simp [String.utf8EncodeChar_ne_nil] at h
  | cons c cs ih =>
      cases ds with
      | nil => simp [String.utf8EncodeChar_ne_nil] at h
      | cons d ds =>
          rw [List.flatMap_cons, List.flatMap_cons] at h
          rcases utf8EncodeChar_isPrefixCode.split h with ⟨rfl, htail⟩
          rw [ih ds htail]

/-- Stripping a prefix undoes appending to it. -/
theorem stripPrefix_eq_some_iff {p s rest : String} :
    stripPrefix p s = some rest ↔ s = p ++ rest := by
  unfold stripPrefix
  constructor
  · intro h
    split at h
    · rename_i hprefix
      rcases hprefix with ⟨tail, htail⟩
      cases h
      apply String.toList_inj.mp
      rw [String.toList_append, String.toList_ofList, ← htail, List.drop_left]
    · cases h
  · rintro rfl
    rw [String.toList_append, if_pos (List.prefix_append _ _), List.drop_left, String.ofList_toList]

theorem utf8_append (s t : String) : utf8 (s ++ t) = utf8 s ++ utf8 t := by
  simp [utf8]

theorem utf8_stripPrefix {p s rest : String} (h : stripPrefix p s = some rest) :
    utf8 s = utf8 p ++ utf8 rest := by
  rw [stripPrefix_eq_some_iff.mp h, utf8_append]

/-- A text is split at the first occurrence of the separator. -/
theorem splitOnce_eq_some_iff {c : Char} {s before after : String} :
    splitOnce c s = some (before, after) ↔
      c ∉ before.toList ∧ s.toList = before.toList ++ c :: after.toList := by
  unfold splitOnce
  constructor
  · intro h
    have hsplit := List.takeWhile_append_dropWhile (p := (· ≠ c)) (l := s.toList)
    cases hdrop : s.toList.dropWhile (· ≠ c) with
    | nil =>
        rw [hdrop] at h
        cases h
    | cons d rest =>
        have hd : d = c := by
          have hhead := List.head?_dropWhile_not (· ≠ c) s.toList
          rw [hdrop] at hhead
          simpa using hhead
        rw [hdrop, hd] at hsplit
        rw [hdrop] at h
        cases h
        rw [String.toList_ofList, String.toList_ofList]
        refine ⟨?_, hsplit.symm⟩
        intro hmem
        have hne := List.mem_takeWhile_imp hmem
        simp at hne
  · rintro ⟨hbefore, hs⟩
    have hkeep : ∀ d ∈ before.toList, decide (d ≠ c) = true := by
      intro d hd
      rw [decide_eq_true_eq]
      exact ne_of_mem_of_not_mem hd hbefore
    rw [hs, List.dropWhile_append_of_pos hkeep, List.takeWhile_append_of_pos hkeep]
    simp [String.ofList_toList]

end Rust
