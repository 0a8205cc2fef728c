import SkPqc.Report.TopClaim
import SkPqc.Foundations.JsonPretty

/-!
# The text of a report

This module embeds `Report::to_json`.  The builders screen the note of a surface
for forbidden words; the text of a report carries the other fields too, among
them the suite id as it was negotiated.

Main results:

- Theorem `toJson_faithful`: a JSON reader gets every field of the report back
  from its text, and two reports with one text are one report.
- Theorem `toJson_free_iff`: for built surfaces, the text holds a forbidden word
  exactly when the suite id of some surface does; over a direct message none
  can.
-/

namespace SkPqc
namespace Report

set_option linter.dupNamespace false

open Rust Json Words

/-! ## Serialising a report -/

section Serialising

variable {φ : Type}

def SurfaceReport.toValue (s : SurfaceReport) : Value φ :=
  .object
    [("surface", .string s.surface),
      ("component", .string s.component),
      ("active_suite", .string s.activeSuite),
      ("status", .string s.status),
      ("quantum_resistant", .bool s.quantumResistant),
      ("primitives", .array (s.primitives.map .string)),
      ("fips_refs", .array (s.fipsRefs.map .string)),
      ("note", .string s.note)]

/-- A count; a `usize` has 64 bits. -/
def countValue (n : Nat) : Value φ := .number (.posInt (UInt64.ofNat n))

def Summary.toValue (s : Summary) : Value φ :=
  .object
    [("total_surfaces", countValue s.totalSurfaces),
      ("quantum_resistant", countValue s.quantumResistant),
      ("classical", countValue s.classical),
      ("symmetric", countValue s.symmetric)]

def Report.toValue (r : Report) : Value φ :=
  .object
    [("report", .string r.report),
      ("surfaces", .array (r.surfaces.map SurfaceReport.toValue)),
      ("summary", r.summary.toValue),
      ("honest_claim", .string r.honestClaim)]

variable {ε : Type}

/-- Serialise to a pretty JSON string. -/
def Report.toJson (S : PrettySerde φ) (r : Report) : Outcome ε String :=
  Outcome.unwrap (S.toStringPretty r.toValue)

end Serialising

/-! ## Reading the text back -/

section ReadBack

variable {φ : Type}

theorem keyed_strings {numbers : Number φ → Prop} (texts : List String) :
    (Value.array (texts.map .string) : Value φ).Keyed numbers := by
  apply Value.Keyed.array
  intro v hv
  rcases List.mem_map.mp hv with ⟨text, -, rfl⟩
  exact .string text

theorem SurfaceReport.keyed_toValue {numbers : Number φ → Prop} (s : SurfaceReport) :
    (s.toValue : Value φ).Keyed numbers := by
  apply Value.Keyed.object
  · simp
  · intro m hm
    simp only [List.mem_cons, List.not_mem_nil, or_false] at hm
    rcases hm with rfl | rfl | rfl | rfl | rfl | rfl | rfl | rfl
    · exact .string _
    · exact .string _
    · exact .string _
    · exact .string _
    · exact .bool _
    · exact keyed_strings _
    · exact keyed_strings _
    · exact .string _

/-- The only numbers of a report are its counts. -/
theorem Report.keyed_toValue {numbers : Number φ → Prop} (hcount : ∀ k, numbers (.posInt k))
    (r : Report) : (r.toValue : Value φ).Keyed numbers := by
  have hsummary : (r.summary.toValue : Value φ).Keyed numbers := by
    apply Value.Keyed.object
    · simp
    · intro m hm
      simp only [List.mem_cons, List.not_mem_nil, or_false] at hm
      rcases hm with rfl | rfl | rfl | rfl <;> exact .number (hcount _)
  apply Value.Keyed.object
  · simp
  · intro m hm
    simp only [List.mem_cons, List.not_mem_nil, or_false] at hm
    rcases hm with rfl | rfl | rfl | rfl
    · exact .string _
    · apply Value.Keyed.array
      intro v hv
      rcases List.mem_map.mp hv with ⟨s, -, rfl⟩
      exact s.keyed_toValue
    · exact hsummary
    · exact .string _

theorem depthItems_strings (texts : List String) :
    depthItems (texts.map .string : List (Value φ)) = 0 := by
  induction texts with
  | nil => rfl
  | cons text texts ih => simp [depthItems, Value.depth, ih]

theorem SurfaceReport.depth_toValue (s : SurfaceReport) : (s.toValue : Value φ).depth = 2 := by
  simp [SurfaceReport.toValue, Value.depth, depthMembers, depthItems_strings]

/-- A report nests four levels deep at most. -/
theorem Report.depth_toValue_le (r : Report) : (r.toValue : Value φ).depth ≤ 4 := by
  have hitems : depthItems (r.surfaces.map SurfaceReport.toValue : List (Value φ)) ≤ 2 := by
    induction r.surfaces with
    | nil => exact Nat.zero_le _
    | cons s rest ih =>
        rw [List.map_cons, depthItems, s.depth_toValue]
        exact Nat.max_le.mpr ⟨Nat.le_refl _, ih⟩
  simp [Report.toValue, Summary.toValue, countValue, Value.depth, depthMembers]
  omega

/-! ## What the value says of the report -/

/-- The members of two equal objects, key by key. -/
theorem same_member {members members' : List (String × Value φ)}
    (h : (Value.object members).Same (.object members')) {k : String} {u v : Value φ}
    (hu : (k, u) ∈ members) (hv : (k, v) ∈ members') : u.Same v := by
  cases h with
  | object _ h => exact h k u v hu hv

theorem same_string {s s' : String} (h : (Value.string s : Value φ).Same (.string s')) :
    s = s' := by
  cases h
  rfl

theorem same_bool {b b' : Bool} (h : (Value.bool b : Value φ).Same (.bool b')) : b = b' := by
  cases h
  rfl

theorem same_number {n n' : Number φ} (h : (Value.number n : Value φ).Same (.number n')) :
    n = n' := by
  cases h
  rfl

theorem same_count {n n' : Nat} (hn : n < 2 ^ 64) (hn' : n' < 2 ^ 64)
    (h : (countValue n : Value φ).Same (countValue n')) : n = n' := by
  have hword : UInt64.ofNat n = UInt64.ofNat n' := Number.posInt.inj (same_number h)
  have hnat := congrArg UInt64.toNat hword
  rwa [UInt64.toNat_ofNat', UInt64.toNat_ofNat', Nat.mod_eq_of_lt hn, Nat.mod_eq_of_lt hn'] at hnat

/-- Arrays are the same when their items are, one by one. -/
theorem same_array {α : Type} {enc : α → Value φ} {as as' : List α}
    (hinj : ∀ a b, (enc a).Same (enc b) → a = b)
    (h : (Value.array (as.map enc)).Same (.array (as'.map enc))) : as = as' := by
  cases h with
  | array length h =>
      rw [List.length_map, List.length_map] at length
      apply List.ext_getElem length
      intro i hi hi'
      apply hinj
      apply h i
      · rw [List.getElem?_map, List.getElem?_eq_getElem hi]
        rfl
      · rw [List.getElem?_map, List.getElem?_eq_getElem hi']
        rfl

theorem SurfaceReport.eq_of_same {s s' : SurfaceReport}
    (h : (s.toValue : Value φ).Same s'.toValue) : s = s' := by
  have hstrings : ∀ a b : String, (Value.string a : Value φ).Same (.string b) → a = b :=
    fun _ _ => same_string
  cases s
  cases s'
  simp only [SurfaceReport.mk.injEq]
  refine ⟨?_, ?_, ?_, ?_, ?_, ?_, ?_, ?_⟩
  · exact same_string (same_member (k := "surface") h (by simp) (by simp))
  · exact same_string (same_member (k := "component") h (by simp) (by simp))
  · exact same_string (same_member (k := "active_suite") h (by simp) (by simp))
  · exact same_string (same_member (k := "status") h (by simp) (by simp))
  · exact same_bool (same_member (k := "quantum_resistant") h (by simp) (by simp))
  · exact same_array hstrings (same_member (k := "primitives") h (by simp) (by simp))
  · exact same_array hstrings (same_member (k := "fips_refs") h (by simp) (by simp))
  · exact same_string (same_member (k := "note") h (by simp) (by simp))

/-- The counts fit a `usize`. -/
structure Summary.Fits (s : Summary) : Prop where
  totalSurfaces : s.totalSurfaces < 2 ^ 64
  quantumResistant : s.quantumResistant < 2 ^ 64
  classical : s.classical < 2 ^ 64
  symmetric : s.symmetric < 2 ^ 64

theorem Summary.eq_of_same {s s' : Summary} (hs : s.Fits) (hs' : s'.Fits)
    (h : (s.toValue : Value φ).Same s'.toValue) : s = s' := by
  cases s
  cases s'
  simp only [Summary.mk.injEq]
  refine ⟨?_, ?_, ?_, ?_⟩
  · exact same_count hs.totalSurfaces hs'.totalSurfaces
      (same_member (k := "total_surfaces") h (by simp) (by simp))
  · exact same_count hs.quantumResistant hs'.quantumResistant
      (same_member (k := "quantum_resistant") h (by simp) (by simp))
  · exact same_count hs.classical hs'.classical
      (same_member (k := "classical") h (by simp) (by simp))
  · exact same_count hs.symmetric hs'.symmetric
      (same_member (k := "symmetric") h (by simp) (by simp))

theorem Report.eq_of_same {r r' : Report} (hr : r.summary.Fits) (hr' : r'.summary.Fits)
    (h : (r.toValue : Value φ).Same r'.toValue) : r = r' := by
  have hsurfaces : ∀ s s' : SurfaceReport, (s.toValue : Value φ).Same s'.toValue → s = s' :=
    fun _ _ => SurfaceReport.eq_of_same
  cases r
  cases r'
  simp only [Report.mk.injEq]
  refine ⟨?_, ?_, ?_, ?_⟩
  · exact same_string (same_member (k := "report") h (by simp) (by simp))
  · exact same_array hsurfaces (same_member (k := "surfaces") h (by simp) (by simp))
  · exact Summary.eq_of_same hr hr' (same_member (k := "summary") h (by simp) (by simp))
  · exact same_string (same_member (k := "honest_claim") h (by simp) (by simp))

end ReadBack

section Faithful

variable {φ : Type} [F64 φ] {S : PrettySerde φ} {J : Parser φ} {ε : Type}

theorem Report.toJson_eq (serde : S.Laws) (r : Report) :
    (r.toJson S : Outcome ε String) = .ok (prettyText (r.toValue : Value φ)) := by
  rw [Report.toJson, serde.toStringPretty_eq, Outcome.unwrap_some]

theorem Report.fromSlice_toJson (json : J.Laws) (r : Report) :
    J.fromSlice (utf8 (prettyText (r.toValue : Value φ))) = .ok (r.toValue : Value φ).sorted := by
  have hcount : ∀ k, (Number.posInt k : Number φ).IsInteger := fun _ => trivial
  rw [utf8_prettyText]
  apply json.fromSlice_pretty quoted_readBack (r.keyed_toValue hcount)
  exact Nat.lt_of_le_of_lt r.depth_toValue_le (by decide)

/-- Serialising a report never fails, a JSON reader gets every field back from
the text, and no other report has this text. -/
theorem toJson_faithful (serde : S.Laws) (json : J.Laws) {r : Report} (hr : r.summary.Fits) :
    ∃ text v, (r.toJson S : Outcome ε String) = .ok text ∧ J.fromSlice (utf8 text) = .ok v ∧
      v.Same r.toValue ∧
      ∀ r' : Report, r'.summary.Fits → (r'.toJson S : Outcome ε String) = .ok text → r' = r := by
  have hcount : ∀ k, (Number.posInt k : Number φ).IsInteger := fun _ => trivial
  have hkeyed := fun r : Report => r.keyed_toValue (φ := φ) hcount
  refine ⟨_, _, r.toJson_eq serde, r.fromSlice_toJson json, (hkeyed r).sorted_same, ?_⟩
  intro r' hr' htext
  rw [r'.toJson_eq serde, Outcome.ok.injEq] at htext
  have hread := r'.fromSlice_toJson json
  rw [htext, r.fromSlice_toJson json, Except.ok.injEq] at hread
  exact Report.eq_of_same hr' hr (((hkeyed r').sorted_eq_sorted_iff (hkeyed r)).mp hread.symm)

/-- The counts of a report fit when its surfaces can be counted. -/
theorem fits_of_fromSurfaces {surfaces : List SurfaceReport} (h : ∀ s ∈ surfaces, Built s)
    (hlen : surfaces.length < 2 ^ 64) {r : Report}
    (hr : (fromSurfaces surfaces : Outcome ε Report) = .ok r) : r.summary.Fits := by
  rw [fromSurfaces_eq h, Outcome.ok.injEq] at hr
  subst hr
  constructor
  case totalSurfaces => exact hlen
  case quantumResistant => exact Nat.lt_of_le_of_lt (List.length_filter_le _ _) hlen
  case classical => exact Nat.lt_of_le_of_lt (List.length_filter_le _ _) hlen
  case symmetric => exact Nat.lt_of_le_of_lt (List.length_filter_le _ _) hlen

/-- One conversation on the hybrid suite, read back from the text. -/
theorem toJson_faithful_hybrid : ∃ r text v,
    (fromSurfaces [bobSurface hybridKemSuite] : Outcome Empty Report) = .ok r ∧
      (r.toJson (PrettySerde.documented Int) : Outcome Empty String) = .ok text ∧
      (Parser.documented fun _ => none : Parser Int).fromSlice (utf8 text) = .ok v ∧
      v.Same r.toValue := by
  have hbuilt : ∀ s ∈ [bobSurface hybridKemSuite], Built s := by
    intro s hs
    rw [List.mem_singleton.mp hs]
    exact built_bobSurface (by decide)
  have hr := fromSurfaces_eq (ε := Empty) hbuilt
  have hfits := fits_of_fromSurfaces hbuilt (by decide) hr
  rcases toJson_faithful (ε := Empty) (PrettySerde.documented_laws Int)
    (Parser.documented_laws fun _ => none) hfits with ⟨text, v, htext, hread, hsame, -⟩
  exact ⟨_, text, v, hr, htext, hread, hsame⟩

end Faithful

/-! ## Words in the text -/

theorem forbidden_avoids_nil : Avoids forbidden [] := by decide

/-- No letter is escaped, of either case. -/
theorem not_escaped_toLower {c : Char} (h : ¬ Escaped c) : ¬ Escaped c.toLower := by
  by_cases hupper : c.val ≥ 'A'.val ∧ c.val ≤ 'Z'.val
  · have hall : ∀ n ∈ List.range 91, 65 ≤ n → ¬ Escaped (Char.ofNat n).toLower := by decide
    have hge : 65 ≤ c.toNat := UInt32.le_iff_toNat_le.mp hupper.1
    have hle : c.toNat ≤ 90 := UInt32.le_iff_toNat_le.mp hupper.2
    have hletter := hall c.toNat (List.mem_range.mpr (Nat.lt_succ_of_le hle)) hge
    rwa [Char.ofNat_toNat] at hletter
  · have hsame : c.toLower = c := dif_neg hupper
    rwa [hsame]

/-- Escapes have no other case, nor have the escaped characters, and no case of
any other character is escaped. -/
theorem escapeText_toLower (c : Char) :
    escapeText c.toLower = (escapeText c).map Char.toLower := by
  have hall : ∀ c ∈ escapedChars,
      escapeText c.toLower = (escapeText c).map Char.toLower :=
    List.all_iff_forall_prop.mp (by decide +kernel)
  by_cases hescaped : Escaped c
  · exact hall c (mem_escapedChars hescaped)
  · rw [escapeText, escapeText, if_neg hescaped, if_neg (not_escaped_toLower hescaped)]
    rfl

/-- Escaping a character brings no forbidden word in. -/
theorem escapeText_rewritten (c : Char) :
    escapeText c = [c] ∨ Rewritten forbidden c (escapeText c) := by
  by_cases hescaped : Escaped c
  · right
    have hseparates : ∀ c ∈ escapedChars, Separates forbidden c :=
      List.all_iff_forall_prop.mp (by decide +kernel)
    have hopens : ∀ c ∈ escapedChars, (escapeText c).head? = some '\\' :=
      List.all_iff_forall_prop.mp (by decide +kernel)
    have hnoStart : ∀ c ∈ escapedChars, NoStart forbidden (escapeText c) :=
      List.all_iff_forall_prop.mp (by decide +kernel)
    have hmem := mem_escapedChars hescaped
    constructor
    · exact hseparates c hmem
    · rcases List.head?_eq_some_iff.mp (hopens c hmem) with ⟨rest, hrest⟩
      exact ⟨_, rest, hrest, by decide⟩
    · exact hnoStart c hmem
  · left
    rw [escapeText, if_neg hescaped]

/-- A string holds a forbidden word when its quoted form does. -/
theorem freeChars_quotedText (s : String) : FreeChars (quotedText s) ↔ Free s := by
  have hquote : Separator forbidden ['"'.toLower] := by decide
  have hlower : (s.toList.flatMap escapeText).map Char.toLower =
      (s.toList.map Char.toLower).flatMap escapeText := by
    rw [List.map_flatMap, List.flatMap_map]
    congr 1
    funext c
    exact (escapeText_toLower c).symm
  rw [FreeChars, quotedText, List.map_append, List.map_append, List.map_singleton,
    hquote.avoids_append_right, hquote.avoids_append_left, hlower,
    avoids_flatMap_iff escapeText_rewritten, free_iff_avoids]
  rfl

/-- The tokens of a text of counts, in lower case. -/
theorem screens {φ : Type} [F64 φ] :
    Screens forbidden (fun t => t.toList.flatMap fun c => [c.toLower])
      (fun n : Number φ => ∃ k, n = .posInt k) := by
  constructor
  case separator => decide
  case plain => decide
  case number =>
    rintro n ⟨k, rfl⟩
    have hfree := (free_iff_avoids _).mp (free_toString k)
    rwa [asciiLowercase, List.map_eq_flatMap] at hfree

/-- A report's text holds a forbidden word exactly when one of the strings in it
does. -/
theorem free_prettyText {φ : Type} [F64 φ] {v : Value φ}
    (hv : v.Keyed fun n => ∃ k, n = .posInt k) :
    Free (prettyText v) ↔ ∀ s ∈ v.strings, Free s := by
  have hstrings : ∀ s, Avoids forbidden ((quotedText s).flatMap fun c => [c.toLower]) ↔
      Free s := by
    intro s
    rw [← List.map_eq_flatMap]
    exact freeChars_quotedText s
  rw [free_iff_avoids, asciiLowercase, prettyText, String.toList_ofList, List.map_eq_flatMap,
    flatMap_pretty, screens.avoids_pretty_iff forbidden_avoids_nil hv 0]
  simp only [hstrings]

/-! ## Built surfaces -/

/-- All strings of a surface but its suite id. -/
def SurfaceReport.others (s : SurfaceReport) : List String :=
  [s.surface, s.component, s.status, s.note] ++ s.primitives ++ s.fipsRefs

/-- What the registry says of a suite is free of forbidden words. -/
theorem free_resolveSuite (suiteId : String) :
    Free (resolveSuite suiteId).status.asStr ∧
      ∀ t ∈ (resolveSuite suiteId).primitives ++ (resolveSuite suiteId).fipsRefs, Free t := by
  rw [resolveSuite, Registry.getSuite_seeded]
  split_ifs
  · exact ⟨by decide, List.all_iff_forall_prop.mp (by decide +kernel)⟩
  · exact ⟨by decide, List.all_iff_forall_prop.mp (by decide +kernel)⟩
  · exact ⟨by decide, List.all_iff_forall_prop.mp (by decide +kernel)⟩
  · exact ⟨by decide, List.all_iff_forall_prop.mp (by decide +kernel)⟩

theorem Built.free_others {s : SurfaceReport} (h : Built s) : ∀ t ∈ s.others, Free t := by
  have hfrom : ∀ {surface component suiteId note : String}, Free surface → Free component →
      (surfaceFrom surface component suiteId note : Outcome Empty SurfaceReport) = .ok s →
        ∀ t ∈ s.others, Free t := by
    intro surface component suiteId note hsurface hcomponent hbuilt
    rw [surfaceFrom_eq] at hbuilt
    split at hbuilt
    · rename_i hnote
      cases hbuilt
      rcases free_resolveSuite suiteId with ⟨hstatus, hrest⟩
      intro t ht
      rw [SurfaceReport.others, List.append_assoc, List.mem_append] at ht
      rcases ht with ht | ht
      · simp only [List.mem_cons, List.not_mem_nil, or_false] at ht
        rcases ht with rfl | rfl | rfl | rfl
        · exact hsurface
        · exact hcomponent
        · exact hstatus
        · exact (isHonestNote_iff _).mp hnote
      · exact hrest t ht
    · cases hbuilt
  cases h with
  | dm h => exact hfrom (by decide) (by decide) h
  | @conversation negotiatedSuite kind peer _ h =>
      cases kind with
      | dm => exact hfrom (by decide) (by decide) h
      | envelope => exact hfrom (by decide) (by decide) h

/-- The note of a direct message names the suite id, so it was screened. -/
theorem free_activeSuite_of_dm {negotiatedSuite peer : String} {level : RatchetLevel}
    {epoch : UInt64} {s : SurfaceReport}
    (h : (dmRatchetSurfaceFor negotiatedSuite level epoch peer : Outcome Empty SurfaceReport) =
      .ok s) : Free s.activeSuite := by
  unfold dmRatchetSurfaceFor at h
  rw [surfaceFrom_eq] at h
  split at h
  · rename_i hnote
    cases h
    exact ((free_dmNote _ _ _ _).mp ((isHonestNote_iff _).mp hnote)).2
  · cases h

/-- None of the three top claims holds a forbidden word. -/
theorem free_honestClaim (surfaces : List SurfaceReport) : Free (honestClaim surfaces) := by
  have hresistant : Free allResistantClaim := free_ofList.mpr (by decide +kernel)
  have hsymmetric : Free onlySymmetricClaim := free_ofList.mpr (by decide +kernel)
  have hnotResistant : Free notResistantClaim := by
    unfold notResistantClaim
    rw [free_append_line (by decide +kernel), free_append_line (by decide +kernel),
      free_append_of_closes (by decide +kernel)]
    exact ⟨free_ofList.mpr (by decide +kernel), free_ofList.mpr (by decide +kernel)⟩
  simp only [honestClaim]
  split_ifs
  · exact hresistant
  · exact hnotResistant
  · exact hsymmetric

section Strings

variable {φ : Type}

theorem strings_strings (texts : List String) :
    (Value.array (texts.map .string) : Value φ).strings = texts := by
  rw [Value.strings]
  induction texts with
  | nil => rfl
  | cons text texts ih => rw [List.map_cons, stringsItems, ih, Value.strings, List.singleton_append]

/-- The names of the fields, over all structures of a report. -/
def fieldNames : List String :=
  ["surface", "component", "active_suite", "status", "quantum_resistant", "primitives",
    "fips_refs", "note", "total_surfaces", "classical", "symmetric", "report", "surfaces",
    "summary", "honest_claim"]

theorem free_fieldName : ∀ k ∈ fieldNames, Free k :=
  List.all_iff_forall_prop.mp (by decide +kernel)

theorem SurfaceReport.free_strings_iff (s : SurfaceReport) :
    (∀ t ∈ (s.toValue : Value φ).strings, Free t) ↔
      Free s.activeSuite ∧ ∀ t ∈ s.others, Free t := by
  have hkeys := free_fieldName
  simp only [fieldNames, List.forall_mem_cons] at hkeys
  rw [SurfaceReport.toValue, Value.strings]
  simp only [stringsMembers, strings_strings, SurfaceReport.others]
  simp only [Value.strings, List.forall_mem_cons, List.forall_mem_append]
  simp [hkeys]
  tauto

theorem Summary.free_strings (s : Summary) :
    ∀ t ∈ (s.toValue : Value φ).strings, Free t := by
  have hkeys := free_fieldName
  simp only [fieldNames, List.forall_mem_cons] at hkeys
  simp [Summary.toValue, countValue, Value.strings, stringsMembers, hkeys]

/-- The strings in a report over built surfaces are free, apart from the suite
ids. -/
theorem free_strings_iff {r : Report} (h : ∀ s ∈ r.surfaces, Built s)
    (hreport : r.report = "pqc-self-report") (hclaim : r.honestClaim = honestClaim r.surfaces) :
    (∀ t ∈ (r.toValue : Value φ).strings, Free t) ↔ ∀ s ∈ r.surfaces, Free s.activeSuite := by
  have hkeys := free_fieldName
  have htag : Free r.report := by
    rw [hreport]
    decide +kernel
  have htop : Free r.honestClaim := by
    rw [hclaim]
    exact free_honestClaim r.surfaces
  have hsurfaces : (∀ t ∈ stringsItems (r.surfaces.map SurfaceReport.toValue : List (Value φ)),
      Free t) ↔ ∀ s ∈ r.surfaces, Free s.activeSuite := by
    constructor
    · intro hfree s hs
      refine (s.free_strings_iff (φ := φ)).mp (fun t ht => hfree t ?_) |>.1
      exact mem_stringsItems.mpr ⟨_, List.mem_map_of_mem hs, ht⟩
    · intro hfree t ht
      rcases mem_stringsItems.mp ht with ⟨v, hv, ht⟩
      rcases List.mem_map.mp hv with ⟨s, hs, rfl⟩
      exact s.free_strings_iff.mpr ⟨hfree s hs, (h s hs).free_others⟩ t ht
  simp only [fieldNames, List.forall_mem_cons] at hkeys
  rw [Report.toValue, Value.strings]
  simp only [stringsMembers, Value.strings, List.forall_mem_append, List.forall_mem_cons, hsurfaces]
  simp [hkeys, htag, htop]
  exact fun _ => r.summary.free_strings

end Strings

/-- The text of a report over built surfaces passes the screen of the notes
exactly when the suite ids do, and those of direct messages always do. -/
theorem toJson_free_iff {φ : Type} [F64 φ] {S : PrettySerde φ} (serde : S.Laws)
    {surfaces : List SurfaceReport} (h : ∀ s ∈ surfaces, Built s) :
    (∃ r text, (fromSurfaces surfaces : Outcome Empty Report) = .ok r ∧
      (r.toJson S : Outcome Empty String) = .ok text ∧
      (isHonestNote text = true ↔ ∀ s ∈ surfaces, isHonestNote s.activeSuite = true)) ∧
    ∀ negotiatedSuite level epoch peer s,
      (dmRatchetSurfaceFor negotiatedSuite level epoch peer : Outcome Empty SurfaceReport) =
        .ok s → isHonestNote s.activeSuite = true := by
  have hcount : ∀ k, ∃ k', (Number.posInt k : Number φ) = .posInt k' := fun k => ⟨k, rfl⟩
  constructor
  · refine ⟨_, _, fromSurfaces_eq h, Report.toJson_eq serde _, ?_⟩
    simp only [isHonestNote_iff]
    rw [free_prettyText (Report.keyed_toValue hcount _)]
    exact free_strings_iff h rfl rfl
  · intro negotiatedSuite level epoch peer s hs
    rw [isHonestNote_iff]
    exact free_activeSuite_of_dm hs

/-- The builder accepts a suite of a forbidden name, and the text repeats it. -/
theorem toJson_free_iff_unbreakable :
    Built (bobSurface "unbreakable-v9") ∧ ∃ r text,
      (fromSurfaces [bobSurface "unbreakable-v9"] : Outcome Empty Report) = .ok r ∧
        (r.toJson (PrettySerde.documented Int) : Outcome Empty String) = .ok text ∧
        isHonestNote text = false := by
  have hbuilt : Built (bobSurface "unbreakable-v9") := built_bobSurface (by decide)
  have hall : ∀ s ∈ [bobSurface "unbreakable-v9"], Built s := by
    intro s hs
    rwa [List.mem_singleton.mp hs]
  rcases (toJson_free_iff (PrettySerde.documented_laws Int) hall).1
    with ⟨r, text, hr, htext, hfree⟩
  refine ⟨hbuilt, r, text, hr, htext, ?_⟩
  rw [← Bool.not_eq_true, hfree]
  intro hsuites
  have hsuite := hsuites _ List.mem_cons_self
  exact absurd hsuite (by decide +kernel)

end Report
end SkPqc
