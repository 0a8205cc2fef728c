import SkPqc.Report.Model
import SkPqc.Foundations.Words
import Mathlib.Data.Bool.AllAny

/-!
# Honest notes

Suite and peer names come from the other side and are copied into the notes.
The fixed text around them keeps a space or a bracket at every seam, so a
forbidden word in a note is a forbidden word of a name.

Main results:

- Theorems `free_dmClassicalNote`, `free_dmEpochNote`, `free_dmOneshotNote`,
  `free_conversationHybridNote` and `free_conversationClassicalNote`: a note is
  free of forbidden words exactly when the names in it are.
- Theorem `surfaceFrom_eq_panic`: over any other note the builders panic.
- Theorem `builders_honest_iff`: the builders return an honest report exactly on
  free names.
-/

namespace SkPqc
namespace Report

open Rust Words

/-! ## Free texts -/

/-- No forbidden word occurs in the text, whatever its case. -/
def Free (s : String) : Prop :=
  ∀ w ∈ forbiddenWords, ¬ w.toList <:+: asciiLowercase s

instance : DecidablePred Free := fun s =>
  inferInstanceAs (Decidable (∀ w ∈ forbiddenWords, ¬ w.toList <:+: asciiLowercase s))

theorem isHonestNote_iff (note : String) : isHonestNote note = true ↔ Free note := by
  simp [isHonestNote, Free]

/-- The forbidden words as lists of characters. -/
def forbidden : List (List Char) := forbiddenWords.map String.toList

theorem free_iff_avoids (s : String) : Free s ↔ Avoids forbidden (asciiLowercase s) := by
  unfold Free Avoids forbidden
  rw [List.forall_mem_map]

theorem asciiLowercase_append (s t : String) :
    asciiLowercase (s ++ t) = asciiLowercase s ++ asciiLowercase t := by
  simp [asciiLowercase]

theorem free_empty : Free "" := by decide

/-- The characters of a text hold no forbidden word. -/
def FreeChars (l : List Char) : Prop := Avoids forbidden (l.map Char.toLower)

instance : DecidablePred FreeChars := fun l =>
  inferInstanceAs (Decidable (Avoids forbidden (l.map Char.toLower)))

/-- Fixed text is screened as a list of characters. -/
theorem free_ofList {l : List Char} : Free (String.ofList l) ↔ FreeChars l := by
  rw [free_iff_avoids, asciiLowercase, String.toList_ofList]
  rfl

/-! ## Seams -/

/-- Characters that occur in no forbidden word and have no other case. -/
def separators : List Char := [' ', '(', ')']

theorem separates {sep : Char} (h : sep ∈ separators) : Separates forbidden sep.toLower := by
  have hall : ∀ sep ∈ separators, Separates forbidden sep.toLower :=
    List.all_iff_forall_prop.mp (by decide)
  exact hall sep h

/-- The text starts with a separator. -/
def Opens (l : List Char) : Prop := ∃ sep ∈ separators, l.head? = some sep

/-- The text ends with a separator. -/
def Closes (l : List Char) : Prop := ∃ sep ∈ separators, l.getLast? = some sep

instance : DecidablePred Opens := fun l =>
  List.decidableBEx (fun sep => l.head? = some sep) separators

instance : DecidablePred Closes := fun l =>
  List.decidableBEx (fun sep => l.getLast? = some sep) separators

/-- A seam before a text that starts with a separator. -/
theorem free_append_of_opens {s t : String} (ht : Opens t.toList) :
    Free (s ++ t) ↔ Free s ∧ Free t := by
  rcases ht with ⟨sep, hsep, hhead⟩
  have hlower : (asciiLowercase t).head? = some sep.toLower := by
    rw [asciiLowercase, List.head?_map, hhead]
    rfl
  rw [free_iff_avoids, free_iff_avoids, free_iff_avoids, asciiLowercase_append]
  exact avoids_append_of_head? (separates hsep) hlower

/-- A seam after a text that ends with a separator. -/
theorem free_append_of_closes {s t : String} (hs : Closes s.toList) :
    Free (s ++ t) ↔ Free s ∧ Free t := by
  rcases hs with ⟨sep, hsep, hlast⟩
  have hlower : (asciiLowercase s).getLast? = some sep.toLower := by
    rw [asciiLowercase, List.getLast?_map, hlast]
    rfl
  rw [free_iff_avoids, free_iff_avoids, free_iff_avoids, asciiLowercase_append]
  exact avoids_append_of_getLast? (separates hsep) hlower

/-- Fixed text after a name. -/
theorem free_append_fixed {s : String} {l : List Char} (h : Opens l ∧ FreeChars l) :
    Free (s ++ String.ofList l) ↔ Free s := by
  have hopens : Opens (String.ofList l).toList := by
    rw [String.toList_ofList]
    exact h.1
  rw [free_append_of_opens hopens]
  exact and_iff_left (free_ofList.mpr h.2)

/-- A name after fixed text. -/
theorem free_append_name {s name : String} {l : List Char} (h : Closes l) :
    Free (s ++ String.ofList l ++ name) ↔ Free (s ++ String.ofList l) ∧ Free name := by
  refine free_append_of_closes ?_
  rcases h with ⟨sep, hsep, hlast⟩
  refine ⟨sep, hsep, ?_⟩
  rw [String.toList_append, String.toList_ofList, List.getLast?_append, hlast]
  rfl

/-- Fixed text on the next line of the source; the line before ends with a space. -/
theorem free_append_line {s : String} {line next : List Char} (h : Closes line ∧ FreeChars next) :
    Free (s ++ String.ofList line ++ String.ofList next) ↔ Free (s ++ String.ofList line) := by
  rw [free_append_name h.1]
  exact and_iff_left (free_ofList.mpr h.2)

/-- The peer of a note, named or not. -/
theorem free_append_who (s peer : String) : Free (s ++ who peer) ↔ Free s ∧ Free peer := by
  unfold who
  by_cases hpeer : peer = ""
  · rw [if_pos hpeer, hpeer, String.append_empty]
    exact (and_iff_left free_empty).symm
  · rw [if_neg hpeer, ← String.append_assoc, free_append_name (by decide),
      free_append_fixed (by decide)]

/-- No digit is a letter of any case. -/
theorem toLower_ne_of_isDigit {c : Char} (h : c.isDigit = true) : c.toLower ≠ 'a' := by
  have hle : c.toNat ≤ 57 := by
    simp only [Char.isDigit, Bool.and_eq_true, decide_eq_true_eq, UInt32.le_iff_toNat_le] at h
    exact h.2
  have hupper : ¬ (c.val ≥ 'A'.val ∧ c.val ≤ 'Z'.val) := by
    rintro ⟨hge, -⟩
    have hge' : 65 ≤ c.toNat := UInt32.le_iff_toNat_le.mp hge
    omega
  have hsame : c.toLower = c := dif_neg hupper
  rw [hsame]
  rintro rfl
  exact absurd hle (by decide)

/-- A number is free: every forbidden word has the letter `a`. -/
theorem free_toString (n : UInt64) : Free (toString n) := by
  have hletter : ∀ w ∈ forbidden, 'a' ∈ w := by decide
  have hlacks : 'a' ∉ asciiLowercase (toString n) := by
    intro ha
    rcases List.mem_map.mp ha with ⟨c, hc, hlower⟩
    change c ∈ (toString n.toNat).toList at hc
    rw [Nat.toString_eq_repr, Nat.toList_repr] at hc
    exact toLower_ne_of_isDigit (Nat.isDigit_of_mem_toDigits (Nat.succ_pos 9) le_rfl hc) hlower
  rw [free_iff_avoids]
  exact avoids_of_lacks fun w hw => ⟨'a', hletter w hw, hlacks⟩

/-! ## The notes -/

theorem free_asStr (level : RatchetLevel) : Free level.asStr := by
  cases level <;> decide

theorem free_upper (kind : ConversationKind) : Free (asciiUppercase kind.surface.1) := by
  cases kind <;> decide

theorem free_dmClassicalNote (peer suiteId : String) (level : RatchetLevel) :
    Free (dmClassicalNote peer suiteId level) ↔ Free peer ∧ Free suiteId := by
  unfold dmClassicalNote
  rw [free_append_line (by decide +kernel), free_append_line (by decide +kernel),
    free_append_fixed (by decide +kernel),
    free_append_name (by decide), and_iff_left (free_asStr level),
    free_append_fixed (by decide +kernel),
    free_append_name (by decide),
    free_append_fixed (by decide +kernel),
    free_append_who, and_assoc]
  exact and_iff_right (by decide)

theorem free_dmEpochNote (peer : String) (epoch : UInt64) :
    Free (dmEpochNote peer epoch) ↔ Free peer := by
  unfold dmEpochNote
  rw [free_append_line (by decide +kernel), free_append_line (by decide +kernel),
    free_append_line (by decide +kernel), free_append_line (by decide +kernel),
    free_append_fixed (by decide +kernel),
    free_append_name (by decide), and_iff_left (free_toString epoch),
    free_append_line (by decide +kernel),
    free_append_fixed (by decide +kernel),
    free_append_who]
  exact and_iff_right (by decide)

theorem free_dmOneshotNote (peer : String) : Free (dmOneshotNote peer) ↔ Free peer := by
  unfold dmOneshotNote
  rw [free_append_line (by decide +kernel), free_append_line (by decide +kernel),
    free_append_line (by decide +kernel), free_append_line (by decide +kernel),
    free_append_line (by decide +kernel),
    free_append_fixed (by decide +kernel),
    free_append_who]
  exact and_iff_right (by decide)

/-- The beginning that the two conversation notes share. -/
theorem free_conversation (kind : ConversationKind) (peer : String) :
    Free (asciiUppercase kind.surface.1 ++ " conversation" ++ who peer) ↔ Free peer := by
  rw [free_append_who, free_append_fixed (by decide)]
  exact and_iff_right (free_upper kind)

theorem free_conversationHybridNote (kind : ConversationKind) (peer : String) :
    Free (conversationHybridNote (asciiUppercase kind.surface.1) peer) ↔ Free peer := by
  unfold conversationHybridNote
  rw [free_append_line (by decide +kernel), free_append_line (by decide +kernel),
    free_append_line (by decide +kernel),
    free_append_fixed (by decide +kernel),
    free_conversation]

theorem free_conversationClassicalNote (kind : ConversationKind) (peer : String) :
    Free (conversationClassicalNote (asciiUppercase kind.surface.1) peer) ↔ Free peer := by
  unfold conversationClassicalNote
  rw [free_append_line (by decide +kernel), free_append_line (by decide +kernel),
    free_append_line (by decide +kernel),
    free_append_fixed (by decide +kernel),
    free_conversation]

/-! ## The builders -/

/-- A report that may be shown: no forbidden word, and no classical suite that
reads as quantum-resistant. -/
def SurfaceReport.Honest (r : SurfaceReport) : Prop :=
  Free r.note ∧ (r.status = "classical" → r.quantumResistant = false)

variable {ε : Type}

/-- An honest report is built exactly over a free note. -/
theorem surfaceFrom_honest_iff (surface component suiteId note : String) :
    (∃ r, (surfaceFrom surface component suiteId note : Outcome ε SurfaceReport) = .ok r ∧
      r.Honest) ↔ Free note := by
  rw [surfaceFrom_eq]
  constructor
  · rintro ⟨r, hr, -⟩
    split at hr
    · rename_i hnote
      exact (isHonestNote_iff note).mp hnote
    · cases hr
  · intro hfree
    rw [if_pos ((isHonestNote_iff note).mpr hfree)]
    exact ⟨_, rfl, hfree, quantumResistant_of_classical⟩

/-- Over any other note the screen panics. -/
theorem surfaceFrom_eq_panic {surface component suiteId note : String} (h : ¬ Free note) :
    (surfaceFrom surface component suiteId note : Outcome ε SurfaceReport) = .panic := by
  rw [surfaceFrom_eq, if_neg (mt (isHonestNote_iff note).mp h)]

/-- Falling back to the default suite adds no forbidden word. -/
theorem free_effectiveSuite (negotiatedSuite : String) :
    Free (effectiveSuite negotiatedSuite) ↔ Free negotiatedSuite := by
  unfold effectiveSuite
  by_cases hempty : negotiatedSuite = ""
  · rw [if_pos hempty, hempty]
    decide
  · rw [if_neg hempty]

/-- The registered quantum-resistant suites have free names. -/
theorem free_of_quantumResistant {suiteId : String}
    (h : (resolveSuite suiteId).quantumResistant = true) : Free suiteId := by
  rw [resolveSuite_quantumResistant, Registry.suiteStatus_seeded] at h
  split at h
  · rename_i hid
    rw [hid]
    decide
  · split at h
    · rename_i hid
      rw [hid]
      decide
    · cases h

theorem free_dmNote (suiteId : String) (level : RatchetLevel) (epoch : UInt64) (peer : String) :
    Free (dmNote suiteId level epoch peer) ↔ Free peer ∧ Free suiteId := by
  unfold dmNote
  by_cases hybrid : (resolveSuite suiteId).quantumResistant = true
  · rw [and_iff_left (free_of_quantumResistant hybrid)]
    simp only [hybrid, Bool.not_true, Bool.false_eq_true, if_false]
    split
    · exact free_dmEpochNote peer epoch
    · exact free_dmOneshotNote peer
  · simp only [hybrid, Bool.not_false, if_true]
    exact free_dmClassicalNote peer suiteId level

theorem free_conversationNote (suiteId : String) (kind : ConversationKind) (peer : String) :
    Free (conversationNote suiteId kind.surface.1 peer) ↔ Free peer := by
  simp only [conversationNote]
  split
  · exact free_conversationHybridNote kind peer
  · exact free_conversationClassicalNote kind peer

/-- The builders return an honest report if and only if the names copied into
its note are free of forbidden words. -/
theorem builders_honest_iff (negotiatedSuite : String) (level : RatchetLevel) (epoch : UInt64)
    (kind : ConversationKind) (peer : String) :
    ((∃ r, (dmRatchetSurfaceFor negotiatedSuite level epoch peer :
        Outcome Empty SurfaceReport) = .ok r ∧ r.Honest) ↔ Free peer ∧ Free negotiatedSuite) ∧
    ((∃ r, (conversationSurfaceFor negotiatedSuite kind peer :
        Outcome Empty SurfaceReport) = .ok r ∧ r.Honest) ↔ Free peer) := by
  constructor
  · rw [← free_effectiveSuite negotiatedSuite, ← free_dmNote _ level epoch peer]
    exact surfaceFrom_honest_iff _ _ _ _
  · rw [← free_conversationNote (effectiveSuite negotiatedSuite) kind peer]
    exact surfaceFrom_honest_iff _ _ _ _

/-- A peer that calls itself `unbreakable` makes both builders panic. -/
theorem forbidden_peer_panics :
    (dmRatchetSurfaceFor hybridKemSuite .l3Epoch 0 "unbreakable" :
        Outcome Empty SurfaceReport) = .panic ∧
      (conversationSurfaceFor hybridKemSuite .dm "unbreakable" :
        Outcome Empty SurfaceReport) = .panic := by
  have hpeer : ¬ Free "unbreakable" := by decide
  constructor
  · refine surfaceFrom_eq_panic fun hfree => hpeer ?_
    exact ((free_dmNote _ _ _ _).mp hfree).1
  · refine surfaceFrom_eq_panic fun hfree => hpeer ?_
    exact (free_conversationNote _ .dm _).mp hfree

end Report
end SkPqc
