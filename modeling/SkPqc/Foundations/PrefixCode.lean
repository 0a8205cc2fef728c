import Mathlib.Data.List.Basic
import Mathlib.Tactic.Common

/-!
# Prefix codes

An encoding of values as lists is a prefix code when no code word starts
another one, so a reader that meets a code word at the head of a stream knows
which value it is.  The rules below build such codes: fixed-width fields,
and sequences closed by a terminator.

Main results:

- Theorem `IsPrefixCode.split`: a code word at the head of a stream determines
  its value and the rest of the stream.
- Theorem `IsPrefixCode.of_length`: an injective code of one fixed width is a
  prefix code.
- Theorem `IsPrefixCode.terminated`: a sequence of code words closed by a
  reserved code word is again a prefix code.
- Theorem `readTerminated_append`: a reader of single code words reads such a
  sequence back.
-/

namespace PrefixCode

variable {α σ : Type}

/-- No code word of `enc` is a prefix of the code word of another value. -/
def IsPrefixCode (enc : α → List σ) : Prop :=
  ∀ a b, enc a <+: enc b → a = b

/-- At the head of two equal streams stand code words of the same value, and
the rests are equal. -/
theorem IsPrefixCode.split {enc : α → List σ} (henc : IsPrefixCode enc)
    {a b : α} {r r' : List σ} (h : enc a ++ r = enc b ++ r') : a = b ∧ r = r' := by
  have hab : a = b := by
    rcases List.append_eq_append_iff.mp h with ⟨s, hs, _⟩ | ⟨s, hs, _⟩
    · exact henc a b ⟨s, hs.symm⟩
    · exact (henc b a ⟨s, hs.symm⟩).symm
  subst hab
  exact ⟨rfl, List.append_cancel_left h⟩

/-- A prefix code is injective. -/
theorem IsPrefixCode.injective {enc : α → List σ} (henc : IsPrefixCode enc) :
    Function.Injective enc := by
  intro a b h
  exact henc a b (h ▸ List.prefix_rfl)

/-- Reading one code word off equal streams is enough to have a prefix code. -/
theorem IsPrefixCode.of_split {enc : α → List σ}
    (h : ∀ a b r, enc a ++ r = enc b → a = b) : IsPrefixCode enc := by
  rintro a b ⟨r, hr⟩
  exact h a b r hr

/-- An injective code of one fixed width is a prefix code. -/
theorem IsPrefixCode.of_length {enc : α → List σ} {n : Nat}
    (hlen : ∀ a, (enc a).length = n) (hinj : Function.Injective enc) :
    IsPrefixCode enc := by
  intro a b h
  exact hinj (h.eq_of_length (by rw [hlen, hlen]))

/-! ## Terminated sequences -/

/-- The code words of a sequence followed by the terminator `enc none`. -/
def terminated (enc : Option α → List σ) (as : List α) : List σ :=
  as.flatMap (fun a => enc (some a)) ++ enc none

@[simp] theorem terminated_nil (enc : Option α → List σ) :
    terminated enc [] = enc none := rfl

@[simp] theorem terminated_cons (enc : Option α → List σ) (a : α) (as : List α) :
    terminated enc (a :: as) = enc (some a) ++ terminated enc as := by
  simp [terminated]

/-- A sequence closed by a terminator is a prefix code when its elements and
the terminator together are one. -/
theorem IsPrefixCode.terminated {enc : Option α → List σ} (henc : IsPrefixCode enc) :
    IsPrefixCode (terminated enc) := by
  intro as
  induction as with
  | nil =>
      rintro (_ | ⟨b, bs⟩) ⟨r, hr⟩
      · rfl
      · simp only [terminated_nil, terminated_cons] at hr
        exact absurd (henc.split hr).1 (by simp)
  | cons a as ih =>
      rintro (_ | ⟨b, bs⟩) ⟨r, hr⟩
      · simp only [terminated_nil, terminated_cons, List.append_assoc] at hr
        have hr' : enc (some a) ++ (PrefixCode.terminated enc as ++ r) =
            enc none ++ [] := by simpa using hr
        exact absurd (henc.split hr').1 (by simp)
      · simp only [terminated_cons, List.append_assoc] at hr
        obtain ⟨hab, htail⟩ := henc.split hr
        cases hab
        rw [ih bs ⟨r, htail⟩]

/-- Read code words up to the terminator; `fuel` bounds their number. -/
def readTerminated (read : List σ → Option (Option α × List σ)) :
    Nat → List σ → Option (List α × List σ)
  | 0, _ => none
  | fuel + 1, text =>
      match read text with
      | none => none
      | some (none, rest) => some ([], rest)
      | some (some a, rest) =>
          (readTerminated read fuel rest).map fun (as, rest) => (a :: as, rest)

/-- What reads one code word off a stream reads the sequence. -/
theorem readTerminated_append {enc : Option α → List σ}
    {read : List σ → Option (Option α × List σ)}
    (hread : ∀ a rest, read (enc a ++ rest) = some (a, rest)) (as : List α) (rest : List σ)
    {fuel : Nat} (hfuel : as.length < fuel) :
    readTerminated read fuel (terminated enc as ++ rest) = some (as, rest) := by
  induction as generalizing fuel with
  | nil =>
      cases fuel with
      | zero => simp at hfuel
      | succ fuel => simp only [terminated_nil, readTerminated, hread]
  | cons a as ih =>
      cases fuel with
      | zero => simp at hfuel
      | succ fuel =>
          have hfuel' : as.length < fuel := by simpa using hfuel
          have htail := ih hfuel'
          simp only [terminated_cons, List.append_assoc, readTerminated, hread, htail,
            Option.map_some]

/-- Nonempty code words make the text of a sequence longer than the sequence. -/
theorem length_lt_length_terminated {enc : Option α → List σ} (hne : ∀ a, enc a ≠ [])
    (as : List α) : as.length < (terminated enc as).length := by
  induction as with
  | nil => exact List.length_pos_iff.mpr (hne none)
  | cons a as ih =>
      have ha := List.length_pos_iff.mpr (hne (some a))
      rw [terminated_cons, List.length_append, List.length_cons]
      omega

end PrefixCode
