import Mathlib.Data.List.Infix
import Mathlib.Tactic.Common

/-!
# Words that occur in a concatenation

A screen looks for a few words in a text that was put together from parts.  A
word may straddle a seam, so screening the parts says nothing in general.  It
does where a separator stands at the seam: a symbol that occurs in no word.

Main results:

- Theorem `infix_append_cons_iff`: a word does not reach across a separator.
- Theorems `avoids_append_of_head?` and `avoids_append_of_getLast?`: a
  concatenation with a separator at its seam avoids the words exactly when both
  parts do.
- Theorem `avoids_intercalate_iff`: so does a list of parts with separators
  between them.
- Theorem `avoids_flatMap_iff`: writing symbols that occur in no word in another
  way brings no word in and takes none out.
-/

namespace Words

variable {α : Type}

/-! ## One word -/

/-- A word at the head of a text ends before the first separator. -/
theorem prefix_append_cons_iff {w xs ys : List α} {sep : α} (h : sep ∉ w) :
    w <+: xs ++ sep :: ys ↔ w <+: xs := by
  induction xs generalizing w with
  | nil =>
      cases w with
      | nil => simp
      | cons a w =>
          have hne : a ≠ sep := fun ha => h (by simp [ha])
          simp [List.cons_prefix_cons, hne]
  | cons x xs ih =>
      cases w with
      | nil => simp
      | cons a w =>
          have htail : sep ∉ w := fun hw => h (List.mem_cons_of_mem a hw)
          rw [List.cons_append, List.cons_prefix_cons, List.cons_prefix_cons, ih htail]

/-- A word does not reach across a separator. -/
theorem infix_append_cons_iff {w xs ys : List α} {sep : α} (h : sep ∉ w) :
    w <:+: xs ++ sep :: ys ↔ w <:+: xs ∨ w <:+: ys := by
  induction xs with
  | nil =>
      have hhead : w <+: [] ++ sep :: ys ↔ w <+: [] := prefix_append_cons_iff h
      rw [List.nil_append] at hhead ⊢
      rw [List.infix_cons_iff, hhead, List.infix_nil, List.prefix_nil]
  | cons x xs ih =>
      have hhead : w <+: (x :: xs) ++ sep :: ys ↔ w <+: x :: xs := prefix_append_cons_iff h
      rw [List.cons_append] at hhead ⊢
      rw [List.infix_cons_iff, hhead, ih, List.infix_cons_iff, or_assoc]

/-! ## A list of words -/

/-- No word of the list occurs in the text. -/
def Avoids (words : List (List α)) (xs : List α) : Prop := ∀ w ∈ words, ¬ w <:+: xs

/-- The symbol occurs in no word. -/
def Separates (words : List (List α)) (sep : α) : Prop := ∀ w ∈ words, sep ∉ w

instance [DecidableEq α] (words : List (List α)) (xs : List α) : Decidable (Avoids words xs) :=
  inferInstanceAs (Decidable (∀ w ∈ words, ¬ w <:+: xs))

instance [DecidableEq α] (words : List (List α)) (sep : α) : Decidable (Separates words sep) :=
  inferInstanceAs (Decidable (∀ w ∈ words, sep ∉ w))

variable {words : List (List α)} {xs ys : List α} {sep : α}

theorem avoids_append_cons (h : Separates words sep) :
    Avoids words (xs ++ sep :: ys) ↔ Avoids words xs ∧ Avoids words ys := by
  constructor
  · intro hall
    constructor
    · intro w hw hoccurs
      exact hall w hw ((infix_append_cons_iff (h w hw)).mpr (.inl hoccurs))
    · intro w hw hoccurs
      exact hall w hw ((infix_append_cons_iff (h w hw)).mpr (.inr hoccurs))
  · rintro ⟨hxs, hys⟩ w hw hoccurs
    rcases (infix_append_cons_iff (h w hw)).mp hoccurs with hoccurs | hoccurs
    · exact hxs w hw hoccurs
    · exact hys w hw hoccurs

/-- What a text avoids, its parts avoid. -/
theorem Avoids.mono (h : Avoids words ys) (hxs : xs <:+: ys) : Avoids words xs :=
  fun w hw hoccurs => h w hw (hoccurs.trans hxs)

/-- A seam whose right side starts with a separator. -/
theorem avoids_append_of_head? (h : Separates words sep) (hhead : ys.head? = some sep) :
    Avoids words (xs ++ ys) ↔ Avoids words xs ∧ Avoids words ys := by
  rcases List.head?_eq_some_iff.mp hhead with ⟨rest, rfl⟩
  have hrest := @avoids_append_cons α words [] rest sep h
  rw [List.nil_append] at hrest
  rw [avoids_append_cons h, hrest]
  constructor
  · rintro ⟨hxs, hys⟩
    exact ⟨hxs, hxs.mono (List.nil_infix), hys⟩
  · rintro ⟨hxs, _, hys⟩
    exact ⟨hxs, hys⟩

/-- A seam whose left side ends with a separator. -/
theorem avoids_append_of_getLast? (h : Separates words sep) (hlast : xs.getLast? = some sep) :
    Avoids words (xs ++ ys) ↔ Avoids words xs ∧ Avoids words ys := by
  rcases List.getLast?_eq_some_iff.mp hlast with ⟨front, rfl⟩
  rw [List.append_assoc, List.singleton_append, avoids_append_cons h, avoids_append_cons h]
  constructor
  · rintro ⟨hxs, hys⟩
    exact ⟨⟨hxs, hys.mono List.nil_infix⟩, hys⟩
  · rintro ⟨⟨hxs, _⟩, hys⟩
    exact ⟨hxs, hys⟩

/-- A text that lacks a symbol of each word avoids the words. -/
theorem avoids_of_lacks (h : ∀ w ∈ words, ∃ c ∈ w, c ∉ xs) : Avoids words xs := by
  intro w hw hoccurs
  rcases h w hw with ⟨c, hc, hlacks⟩
  exact hlacks (hoccurs.subset hc)

/-! ## Separators of several symbols -/

/-- A text of separators only, and not empty. -/
def Separator (words : List (List α)) (t : List α) : Prop :=
  t ≠ [] ∧ ∀ sep ∈ t, Separates words sep

instance [DecidableEq α] (words : List (List α)) (t : List α) :
    Decidable (Separator words t) :=
  inferInstanceAs (Decidable (t ≠ [] ∧ ∀ sep ∈ t, Separates words sep))

variable {t : List α}

theorem avoids_cons_of_separates (h : Separates words sep) :
    Avoids words (sep :: ys) ↔ Avoids words ys := by
  have hsplit := @avoids_append_cons α words [] ys sep h
  rw [List.nil_append] at hsplit
  rw [hsplit]
  exact and_iff_right_of_imp fun hys => hys.mono List.nil_infix

/-- Separators in front do not matter. -/
theorem Separator.avoids_append_left (h : Separator words t) :
    Avoids words (t ++ ys) ↔ Avoids words ys := by
  have hall := h.2
  clear h
  induction t with
  | nil => rfl
  | cons sep t ih =>
      rw [List.cons_append, avoids_cons_of_separates (hall sep List.mem_cons_self)]
      exact ih fun s hs => hall s (List.mem_cons_of_mem sep hs)

/-- Separators in the middle part a text. -/
theorem Separator.avoids_append (h : Separator words t) :
    Avoids words (xs ++ (t ++ ys)) ↔ Avoids words xs ∧ Avoids words ys := by
  rcases List.exists_cons_of_ne_nil h.1 with ⟨sep, rest, rfl⟩
  have hsep := h.2 sep List.mem_cons_self
  have hhead : (sep :: rest ++ ys).head? = some sep := rfl
  rw [avoids_append_of_head? hsep hhead, h.avoids_append_left]

theorem Separator.avoids_append_right (h : Separator words t) :
    Avoids words (xs ++ t) ↔ Avoids words xs := by
  have hparts : Avoids words (xs ++ (t ++ [])) ↔ Avoids words xs ∧ Avoids words [] :=
    h.avoids_append
  rw [List.append_nil] at hparts
  rw [hparts]
  exact and_iff_left_of_imp fun hxs => hxs.mono List.nil_infix

theorem Separator.append {t' : List α} (h : Separator words t) (h' : Separator words t') :
    Separator words (t ++ t') := by
  refine ⟨List.append_ne_nil_of_left_ne_nil h.1 t', ?_⟩
  intro sep hsep
  rcases List.mem_append.mp hsep with hsep | hsep
  · exact h.2 sep hsep
  · exact h'.2 sep hsep

/-- Parts with separators between them. -/
theorem Separator.avoids_intercalate_iff (h : Separator words t) {parts : List (List α)}
    (hne : parts ≠ []) :
    Avoids words (t.intercalate parts) ↔ ∀ part ∈ parts, Avoids words part := by
  induction parts with
  | nil => exact absurd rfl hne
  | cons part parts ih =>
      cases parts with
      | nil => simp
      | cons part' parts =>
          rw [List.intercalate_cons_cons, List.append_assoc, h.avoids_append,
            ih (List.cons_ne_nil _ _), List.forall_mem_cons (a := part)]

/-! ## Symbols written in another way -/

/-- No word begins in the text, whatever follows it. -/
def NoStart (words : List (List α)) (t : List α) : Prop :=
  ∀ w ∈ words, ∀ s ∈ t.tails, s ≠ [] → ¬ w <+: s ∧ ¬ s <+: w

instance [DecidableEq α] (words : List (List α)) (t : List α) : Decidable (NoStart words t) :=
  inferInstanceAs (Decidable (∀ w ∈ words, ∀ s ∈ t.tails, s ≠ [] → ¬ w <+: s ∧ ¬ s <+: w))

theorem NoStart.not_prefix {w : List α} (h : NoStart words t) (hw : w ∈ words) (hne : t ≠ []) :
    ¬ w <+: t ++ ys := by
  intro hprefix
  have hself := h w hw t ((List.mem_tails t t).mpr (List.suffix_refl t)) hne
  rcases List.prefix_or_prefix_of_prefix hprefix (List.prefix_append t ys) with hle | hle
  · exact hself.1 hle
  · exact hself.2 hle

theorem NoStart.tail {a : α} (h : NoStart words (a :: t)) : NoStart words t := by
  intro w hw s hs
  apply h w hw
  exact (List.mem_tails s _).mpr (((List.mem_tails s t).mp hs).trans (List.suffix_cons a t))

theorem NoStart.avoids_append (h : NoStart words t) :
    Avoids words (t ++ ys) ↔ Avoids words ys := by
  induction t with
  | nil => rfl
  | cons a t ih =>
      rw [← ih h.tail]
      constructor
      · intro hall
        exact hall.mono (List.suffix_cons a (t ++ ys)).isInfix
      · intro hall w hw hoccurs
        rw [List.cons_append, List.infix_cons_iff] at hoccurs
        rcases hoccurs with hprefix | hinfix
        · exact h.not_prefix hw (List.cons_ne_nil a t) hprefix
        · exact hall w hw hinfix

/-- The symbol occurs in no word, and is written as a text in which none begins
and which starts with a separator. -/
structure Rewritten (words : List (List α)) (a : α) (t : List α) : Prop where
  separates : Separates words a
  opens : ∃ sep rest, t = sep :: rest ∧ Separates words sep
  noStart : NoStart words t

variable {enc : α → List α}

/-- A word at the head of the text is one at the head of what was written. -/
theorem prefix_flatMap_iff (henc : ∀ a, enc a = [a] ∨ Rewritten words a (enc a)) {w : List α}
    (hw : ∃ w' ∈ words, w ⊆ w') (as : List α) : w <+: as.flatMap enc ↔ w <+: as := by
  induction as generalizing w with
  | nil => rfl
  | cons a as ih =>
      rcases hw with ⟨w', hmem, hsub⟩
      cases w with
      | nil => simp
      | cons b w =>
          have hb : b ∈ w' := hsub List.mem_cons_self
          have hrest : ∃ w' ∈ words, w ⊆ w' :=
            ⟨w', hmem, fun c hc => hsub (List.mem_cons_of_mem b hc)⟩
          rw [List.flatMap_cons]
          rcases henc a with hsame | hother
          · rw [hsame, List.singleton_append, List.cons_prefix_cons, List.cons_prefix_cons,
              ih hrest]
          · rcases hother.opens with ⟨sep, rest, ht, hsep⟩
            have hb₁ : b ≠ sep := by
              rintro rfl
              exact hsep w' hmem hb
            have hb₂ : b ≠ a := by
              rintro rfl
              exact hother.separates w' hmem hb
            rw [ht, List.cons_append, List.cons_prefix_cons, List.cons_prefix_cons]
            simp [hb₁, hb₂]

/-- Writing symbols that occur in no word in another way changes nothing. -/
theorem avoids_flatMap_iff (henc : ∀ a, enc a = [a] ∨ Rewritten words a (enc a)) (as : List α) :
    Avoids words (as.flatMap enc) ↔ Avoids words as := by
  induction as with
  | nil => rfl
  | cons a as ih =>
      rw [List.flatMap_cons]
      rcases henc a with hsame | hother
      · have hheads : ∀ w ∈ words, (w <+: a :: as.flatMap enc ↔ w <+: a :: as) := by
          intro w hw
          have hboth := prefix_flatMap_iff henc ⟨w, hw, List.Subset.refl w⟩ (a :: as)
          rwa [List.flatMap_cons, hsame] at hboth
        rw [hsame, List.singleton_append]
        constructor
        · intro hall w hw hoccurs
          rcases List.infix_cons_iff.mp hoccurs with hhead | htail
          · exact hall w hw (List.infix_cons_iff.mpr (.inl ((hheads w hw).mpr hhead)))
          · exact ih.mp (hall.mono (List.suffix_cons _ _).isInfix) w hw htail
        · intro hall w hw hoccurs
          rcases List.infix_cons_iff.mp hoccurs with hhead | htail
          · exact hall w hw (List.infix_cons_iff.mpr (.inl ((hheads w hw).mp hhead)))
          · exact ih.mpr (hall.mono (List.suffix_cons _ _).isInfix) w hw htail
      · rw [hother.noStart.avoids_append, ih, avoids_cons_of_separates hother.separates]

end Words
