import SkPqc.Report.Honesty

/-!
# The top-level claim

This module embeds the whole report of `report.rs`: the summary counts and the
one claim about all surfaces.  The claim is chosen by three tests in sequence,
and the first of them, that every surface is quantum-resistant, already holds
of symmetric surfaces.

Main results:

- Theorem `quantumResistant_iff`: of a built surface, the flag says that the
  status is not classical.
- Theorem `fromSurfaces_eq`: a report over built surfaces is never refused.
- Theorem `topClaim_iff`: the claim describes the surfaces exactly when one of
  them is not symmetric.
-/

namespace SkPqc
namespace Report

set_option linter.dupNamespace false

open Rust

/-- The claim over quantum-resistant surfaces. -/
def allResistantClaim : String := "All owned surfaces are quantum-resistant."

/-- The claim over surfaces of which one is classical. -/
def notResistantClaim : String :=
  "NOT quantum-resistant end-to-end. Asymmetric surfaces reported here are " ++
    "CLASSICAL (Shor-breakable) unless a hybrid X25519+ML-KEM-768 (FIPS 203) suite " ++
    "was negotiated. Symmetric/at-rest layers are quantum-acceptable. Do not claim " ++
    "hybrid/post-quantum protection where a surface reads classical."

/-- The claim that is left. -/
def onlySymmetricClaim : String :=
  "Only symmetric surfaces present; no asymmetric PQ migration done."

/-- The honest top-level claim for a set of surfaces. -/
def honestClaim (surfaces : List SurfaceReport) : String :=
  let total := surfaces.length
  let qr := (surfaces.filter fun s => s.quantumResistant).length
  let anyClassical := surfaces.any fun s => s.status = "classical"
  if total > 0 ∧ qr = total then allResistantClaim
  else if anyClassical then notResistantClaim
  else onlySymmetricClaim

/-- Summary counts over the surfaces of a report. -/
structure Summary where
  totalSurfaces : Nat
  quantumResistant : Nat
  classical : Nat
  symmetric : Nat
deriving DecidableEq, Repr

/-- A whole self-report. -/
structure Report where
  report : String
  surfaces : List SurfaceReport
  summary : Summary
  honestClaim : String
deriving DecidableEq, Repr

variable {ε : Type}

/-- `for s in &surfaces { s.assert_honest(); }` -/
def assertAllHonest : List SurfaceReport → Outcome ε Unit
  | [] => pure ()
  | s :: rest => do
      s.assertHonest
      assertAllHonest rest

/-- Build a report from resolved surfaces. -/
def fromSurfaces (surfaces : List SurfaceReport) : Outcome ε Report := do
  assertAllHonest surfaces
  let totalSurfaces := surfaces.length
  let quantumResistant := (surfaces.filter fun s => s.quantumResistant).length
  let classical := (surfaces.filter fun s => s.status = "classical").length
  let symmetric := (surfaces.filter fun s => s.status = "symmetric").length
  let claim := honestClaim surfaces
  pure
    { report := "pqc-self-report"
      surfaces := surfaces
      summary := ⟨totalSurfaces, quantumResistant, classical, symmetric⟩
      honestClaim := claim }

/-! ## Built surfaces -/

/-- A surface that one of the builders has returned. -/
inductive Built : SurfaceReport → Prop where
  | dm {negotiatedSuite : String} {level : RatchetLevel} {epoch : UInt64} {peer : String}
      {s : SurfaceReport}
      (h : (dmRatchetSurfaceFor negotiatedSuite level epoch peer :
        Outcome Empty SurfaceReport) = .ok s) : Built s
  | conversation {negotiatedSuite : String} {kind : ConversationKind} {peer : String}
      {s : SurfaceReport}
      (h : (conversationSurfaceFor negotiatedSuite kind peer :
        Outcome Empty SurfaceReport) = .ok s) : Built s

/-- What a builder returns is a resolved suite with an honest note. -/
theorem Built.exists_resolved {s : SurfaceReport} (h : Built s) :
    ∃ surface component suiteId note, isHonestNote note = true ∧
      s = (resolveSuite suiteId).report surface component suiteId note := by
  have hfrom : ∀ {surface component suiteId note : String},
      (surfaceFrom surface component suiteId note : Outcome Empty SurfaceReport) = .ok s →
        ∃ surface component suiteId note, isHonestNote note = true ∧
          s = (resolveSuite suiteId).report surface component suiteId note := by
    intro surface component suiteId note hbuilt
    rw [surfaceFrom_eq] at hbuilt
    split at hbuilt
    · rename_i hnote
      cases hbuilt
      exact ⟨surface, component, suiteId, note, hnote, rfl⟩
    · cases hbuilt
  cases h with
  | dm h => exact hfrom h
  | conversation h => exact hfrom h

/-- The flag of a built surface says that its status is not classical. -/
theorem Built.quantumResistant_iff {s : SurfaceReport} (h : Built s) :
    s.quantumResistant = true ↔ s.status ≠ "classical" := by
  rcases h.exists_resolved with ⟨surface, component, suiteId, note, -, rfl⟩
  simp only [Resolved.report]
  rw [resolveSuite_quantumResistant, ← resolveSuite_status]
  cases (resolveSuite suiteId).status <;> decide

/-- A built surface passes the backstop again. -/
theorem Built.assertHonest_eq {s : SurfaceReport} (h : Built s) :
    (s.assertHonest : Outcome ε Unit) = .ok () := by
  rcases h.exists_resolved with ⟨surface, component, suiteId, note, hnote, hs⟩
  have hflag := h.quantumResistant_iff
  unfold SurfaceReport.assertHonest
  rw [show s.note = note by rw [hs]; rfl, hnote, Outcome.assert_true, Outcome.ok_bind]
  by_cases hstatus : s.status = "classical"
  · have hfalse : s.quantumResistant = false := by
      rw [← Bool.not_eq_true, hflag]
      exact not_not_intro hstatus
    rw [if_pos hstatus, hfalse]
    rfl
  · rw [if_neg hstatus]
    rfl

/-! ## The report -/

section Surfaces

variable {surfaces : List SurfaceReport}

theorem assertAllHonest_eq (h : ∀ s ∈ surfaces, Built s) :
    (assertAllHonest surfaces : Outcome ε Unit) = .ok () := by
  induction surfaces with
  | nil => rfl
  | cons s rest ih =>
      rw [assertAllHonest, (h s List.mem_cons_self).assertHonest_eq, Outcome.ok_bind]
      exact ih fun t ht => h t (List.mem_cons_of_mem s ht)

/-- The flags and the classical statuses count every built surface once. -/
theorem length_filter_add (h : ∀ s ∈ surfaces, Built s) :
    (surfaces.filter fun s => s.quantumResistant).length +
      (surfaces.filter fun s => s.status = "classical").length = surfaces.length := by
  have hsame : surfaces.filter (fun s => s.status = "classical") =
      surfaces.filter (fun s => !s.quantumResistant) := by
    apply List.filter_congr
    intro s hs
    have hflag := (h s hs).quantumResistant_iff
    cases hqr : s.quantumResistant with
    | true => simpa [hqr] using hflag
    | false => simpa [hqr] using hflag
  rw [hsame]
  exact (List.length_eq_length_filter_add _).symm

/-- All surfaces are quantum-resistant when none is classical. -/
theorem length_filter_eq_iff (h : ∀ s ∈ surfaces, Built s) :
    (surfaces.filter fun s => s.quantumResistant).length = surfaces.length ↔
      ¬ ∃ s ∈ surfaces, s.status = "classical" := by
  rw [List.length_filter_eq_length_iff]
  push Not
  exact forall₂_congr fun s hs => (h s hs).quantumResistant_iff

/-- The claim that the three tests choose. -/
theorem honestClaim_eq (h : ∀ s ∈ surfaces, Built s) :
    honestClaim surfaces =
      if ∃ s ∈ surfaces, s.status = "classical" then notResistantClaim
      else if surfaces = [] then onlySymmetricClaim
      else allResistantClaim := by
  have hcount := length_filter_eq_iff h
  have hany : (surfaces.any fun s => decide (s.status = "classical")) = true ↔
      ∃ s ∈ surfaces, s.status = "classical" := by
    simp
  simp only [honestClaim, hcount, hany, gt_iff_lt, List.length_pos_iff]
  by_cases hclassical : ∃ s ∈ surfaces, s.status = "classical"
  · rw [if_neg (fun hall => hall.2 hclassical), if_pos hclassical, if_pos hclassical]
  · by_cases hempty : surfaces = []
    · rw [if_neg (fun hall => hall.1 hempty), if_neg hclassical, if_neg hclassical, if_pos hempty]
    · rw [if_pos ⟨hempty, hclassical⟩, if_neg hclassical, if_neg hempty]

/-- A report over built surfaces is never refused. -/
theorem fromSurfaces_eq (h : ∀ s ∈ surfaces, Built s) :
    (fromSurfaces surfaces : Outcome ε Report) = .ok
      { report := "pqc-self-report"
        surfaces := surfaces
        summary :=
          { totalSurfaces := surfaces.length
            quantumResistant := (surfaces.filter fun s => s.quantumResistant).length
            classical := (surfaces.filter fun s => s.status = "classical").length
            symmetric := (surfaces.filter fun s => s.status = "symmetric").length }
        honestClaim := honestClaim surfaces } := by
  rw [fromSurfaces, assertAllHonest_eq h, Outcome.ok_bind]
  rfl

end Surfaces

/-- The counts and the claim of a report describe its surfaces. -/
structure Report.Describes (r : Report) : Prop where
  counts : r.summary.quantumResistant + r.summary.classical = r.summary.totalSurfaces
  classical : r.honestClaim = notResistantClaim ↔ ∃ s ∈ r.surfaces, s.status = "classical"
  symmetric : r.honestClaim = onlySymmetricClaim ↔
    r.surfaces ≠ [] ∧ ∀ s ∈ r.surfaces, s.status = "symmetric"
  /-- The all-resistant text is for the other non-empty lists. -/
  resistant : r.honestClaim = allResistantClaim →
    r.surfaces ≠ [] ∧ (¬ ∃ s ∈ r.surfaces, s.status = "classical") ∧
      ¬ ∀ s ∈ r.surfaces, s.status = "symmetric"

/-! ## Where the claim describes the surfaces -/

theorem notResistantClaim_ne_onlySymmetricClaim : notResistantClaim ≠ onlySymmetricClaim := by
  decide

theorem notResistantClaim_ne_allResistantClaim : notResistantClaim ≠ allResistantClaim := by
  decide

theorem onlySymmetricClaim_ne_allResistantClaim : onlySymmetricClaim ≠ allResistantClaim := by
  decide

section Describes

variable {surfaces : List SurfaceReport} {r : Report}

/-- A classical surface rules the other two texts out, as the tests do. -/
theorem describes_of_classical (h : ∀ s ∈ surfaces, Built s)
    (hr : (fromSurfaces surfaces : Outcome ε Report) = .ok r)
    (hclassical : ∃ s ∈ surfaces, s.status = "classical") : r.Describes := by
  rw [fromSurfaces_eq h, Outcome.ok.injEq] at hr
  have hclaim : r.honestClaim = notResistantClaim := by
    rw [← hr]
    exact (honestClaim_eq h).trans (if_pos hclassical)
  subst hr
  constructor
  · exact length_filter_add h
  · exact iff_of_true hclaim hclassical
  · apply iff_of_false
    · rw [hclaim]
      exact notResistantClaim_ne_onlySymmetricClaim
    · rintro ⟨-, hall⟩
      obtain ⟨s, hs, hstatus⟩ := hclassical
      rw [hall s hs] at hstatus
      exact absurd hstatus (by decide)
  · intro hresistant
    exact absurd (hclaim.symm.trans hresistant) notResistantClaim_ne_allResistantClaim

/-- Without a classical surface the claim is right when some surface is hybrid
or post-quantum, and only then. -/
theorem describes_iff_of_not_classical (h : ∀ s ∈ surfaces, Built s)
    (hr : (fromSurfaces surfaces : Outcome ε Report) = .ok r)
    (hclassical : ¬ ∃ s ∈ surfaces, s.status = "classical") :
    r.Describes ↔ ∃ s ∈ surfaces, s.status ≠ "symmetric" := by
  rw [fromSurfaces_eq h, Outcome.ok.injEq] at hr
  have hclaim : r.honestClaim =
      if surfaces = [] then onlySymmetricClaim else allResistantClaim := by
    rw [← hr]
    exact (honestClaim_eq h).trans (if_neg hclassical)
  have hsurfaces : r.surfaces = surfaces := by rw [← hr]
  constructor
  · intro hdescribes
    by_contra hsymmetric
    push Not at hsymmetric
    by_cases hempty : surfaces = []
    · rw [if_pos hempty] at hclaim
      exact (hdescribes.symmetric.mp hclaim).1 (hsurfaces.trans hempty)
    · rw [if_neg hempty] at hclaim
      apply (hdescribes.resistant hclaim).2.2
      rwa [hsurfaces]
  · rintro ⟨s, hs, hother⟩
    have hempty : surfaces ≠ [] := List.ne_nil_of_mem hs
    rw [if_neg hempty] at hclaim
    have hmixed : ¬ ∀ s ∈ r.surfaces, s.status = "symmetric" := by
      rw [hsurfaces]
      exact fun hall => hother (hall s hs)
    subst hr
    constructor
    · exact length_filter_add h
    · apply iff_of_false _ hclassical
      rw [hclaim]
      exact notResistantClaim_ne_allResistantClaim.symm
    · apply iff_of_false _ (fun hall => hmixed hall.2)
      rw [hclaim]
      exact onlySymmetricClaim_ne_allResistantClaim.symm
    · intro _
      exact ⟨hempty, hclassical, hmixed⟩

end Describes

/-- The claim describes the surfaces exactly when one of them is not symmetric. -/
theorem topClaim_iff (surfaces : List SurfaceReport) (h : ∀ s ∈ surfaces, Built s) :
    (∃ r, (fromSurfaces surfaces : Outcome Empty Report) = .ok r ∧ r.Describes) ↔
      ∃ s ∈ surfaces, s.status ≠ "symmetric" := by
  obtain ⟨r, hr⟩ : ∃ r, (fromSurfaces surfaces : Outcome Empty Report) = .ok r :=
    ⟨_, fromSurfaces_eq h⟩
  have hdescribes : r.Describes ↔ ∃ s ∈ surfaces, s.status ≠ "symmetric" := by
    by_cases hclassical : ∃ s ∈ surfaces, s.status = "classical"
    · apply iff_of_true (describes_of_classical h hr hclassical)
      obtain ⟨s, hs, hstatus⟩ := hclassical
      refine ⟨s, hs, ?_⟩
      rw [hstatus]
      decide
    · exact describes_iff_of_not_classical h hr hclassical
  rw [← hdescribes]
  constructor
  · rintro ⟨r', hr', hdescribes'⟩
    rw [hr, Outcome.ok.injEq] at hr'
    rwa [hr']
  · intro hdescribes'
    exact ⟨r, hr, hdescribes'⟩

/-- The surface of a conversation with bob. -/
def bobSurface (suiteId : String) : SurfaceReport :=
  (resolveSuite suiteId).report "dm" "skchat (ChatCrypto)" suiteId
    (conversationNote suiteId "dm" "bob")

/-- The name of bob is free of forbidden words, so its surface is built. -/
theorem built_bobSurface {suiteId : String} (hsuite : suiteId ≠ "") :
    Built (bobSurface suiteId) := by
  have hfree : Free (conversationNote suiteId "dm" "bob") :=
    (free_conversationNote suiteId .dm "bob").mpr (by decide)
  have hbuild : (conversationSurfaceFor suiteId .dm "bob" : Outcome Empty SurfaceReport) =
      .ok (bobSurface suiteId) := by
    have heffective : effectiveSuite suiteId = suiteId := if_neg hsuite
    simp only [conversationSurfaceFor, ConversationKind.surface, heffective]
    rw [surfaceFrom_eq, if_pos ((isHonestNote_iff _).mpr hfree)]
    rfl
  exact Built.conversation hbuild

/-- Conversations on the bulk cipher, the hybrid suite and the classical key wrap. -/
def mixedSurfaces : List SurfaceReport :=
  [bobSurface "aes256-gcm-v1", bobSurface hybridKemSuite, bobSurface "x25519-pgp-wrap-v1"]

theorem built_mixedSurfaces : ∀ s ∈ mixedSurfaces, Built s := by
  intro s hs
  simp only [mixedSurfaces, List.mem_cons, List.not_mem_nil, or_false] at hs
  rcases hs with rfl | rfl | rfl <;> exact built_bobSurface (by decide)

/-- With and without the classical one, the claim describes the surfaces. -/
theorem topClaim_mixed :
    (∃ r, (fromSurfaces mixedSurfaces : Outcome Empty Report) = .ok r ∧ r.Describes) ∧
      ∃ r, (fromSurfaces (mixedSurfaces.take 2) : Outcome Empty Report) = .ok r ∧
        r.Describes := by
  constructor
  · refine (topClaim_iff mixedSurfaces built_mixedSurfaces).mpr ?_
    decide +kernel
  · have hbuilt : ∀ s ∈ mixedSurfaces.take 2, Built s := by
      intro s hs
      exact built_mixedSurfaces s (List.mem_of_mem_take hs)
    refine (topClaim_iff (mixedSurfaces.take 2) hbuilt).mpr ?_
    decide +kernel

/-- The bulk cipher alone is claimed to be quantum-resistant throughout, and no
surface at all to be a symmetric one. -/
theorem topClaim_symmetric :
    Built (bobSurface "aes256-gcm-v1") ∧
    (∃ r, (fromSurfaces [bobSurface "aes256-gcm-v1"] : Outcome Empty Report) = .ok r ∧
      r.honestClaim = allResistantClaim ∧ ¬ r.Describes) ∧
    ∃ r, (fromSurfaces [] : Outcome Empty Report) = .ok r ∧
      r.honestClaim = onlySymmetricClaim ∧ ¬ r.Describes := by
  have hbuilt : Built (bobSurface "aes256-gcm-v1") :=
    built_bobSurface (by decide)
  have hstatus : (bobSurface "aes256-gcm-v1").status = "symmetric" := by decide +kernel
  have hflag : (bobSurface "aes256-gcm-v1").quantumResistant = true := by decide +kernel
  refine ⟨hbuilt, ?_, ?_⟩
  · have hall : ∀ s ∈ [bobSurface "aes256-gcm-v1"], Built s := by
      intro s hs
      rw [List.mem_singleton] at hs
      rwa [hs]
    have hclaim : honestClaim [bobSurface "aes256-gcm-v1"] = allResistantClaim := by
      simp [honestClaim, hflag]
    refine ⟨_, fromSurfaces_eq hall, hclaim, ?_⟩
    intro hdescribes
    apply (hdescribes.resistant hclaim).2.2
    intro s hs
    rw [List.mem_singleton] at hs
    rwa [hs]
  · refine ⟨_, fromSurfaces_eq (fun s hs => absurd hs List.not_mem_nil), rfl, ?_⟩
    intro hdescribes
    exact (hdescribes.symmetric.mp rfl).1 rfl

end Report
end SkPqc
