import SkPqc.Report.Honesty

/-!
# Which notes name the hybrid KEM

A builder chooses the note by the quantum-resistance flag of the suite, and the
status of the report is the registry's.  Two more statuses than `hybrid-pq` set
the flag, so a note can name a hybrid KEM that the suite does not have.

Main results:

- Theorems `usesHybridText_iff` and `saysNegotiatedHybrid_iff`: the notes follow
  the flag, whatever the names in them.
- Theorem `hybrid_note_iff`: they follow the status exactly for the suites other
  than the registered bulk cipher.
-/

namespace SkPqc
namespace Report

open Rust

/-! ## What a note says -/

/-- The note is one of the two hybrid texts of a DM report. -/
def UsesHybridText (note peer : String) (epoch : UInt64) : Prop :=
  note = dmEpochNote peer epoch ∨ note = dmOneshotNote peer

/-- The note says of its conversation that it negotiated the hybrid KEM. -/
def SaysNegotiatedHybrid (kind : ConversationKind) (peer note : String) : Prop :=
  (asciiUppercase kind.surface.1 ++ " conversation" ++ who peer ++
    " negotiated the hybrid KEM").toList <+: note.toList

/-- Texts that begin differently are different, whatever follows. -/
theorem ofList_append_ne {l l' : List Char} (s t : String) (i : Nat) (hl : i < l.length)
    (hl' : i < l'.length) (h : l[i] ≠ l'[i]) : String.ofList l ++ s ≠ String.ofList l' ++ t := by
  intro heq
  have hchar := congrArg (fun text => text.toList[i]?) heq
  simp only [String.toList_append, String.toList_ofList, List.getElem?_append_left hl,
    List.getElem?_append_left hl', List.getElem?_eq_getElem hl,
    List.getElem?_eq_getElem hl', Option.some.injEq] at hchar
  exact h hchar

/-- Whether fixed text starts another one does not depend on what follows. -/
theorem ofList_prefix_append_iff {l l' : List Char} (xs : List Char) (h : l.length ≤ l'.length) :
    (String.ofList l).toList <+: (String.ofList l').toList ++ xs ↔ l <+: l' := by
  rw [String.toList_ofList, String.toList_ofList]
  constructor
  · intro hprefix
    exact List.prefix_of_prefix_length_le hprefix (List.prefix_append l' xs) h
  · intro hprefix
    exact hprefix.trans (List.prefix_append l' xs)

/-- The classical text is neither hybrid text, whatever its names. -/
theorem not_usesHybridText_classical (peer suiteId : String) (level : RatchetLevel)
    (epoch : UInt64) : ¬ UsesHybridText (dmClassicalNote peer suiteId level) peer epoch := by
  rintro (heq | heq)
  · simp only [dmClassicalNote, dmEpochNote, String.append_assoc, String.append_right_inj] at heq
    exact ofList_append_ne _ _ 8 (by decide) (by decide) (by decide) heq
  · simp only [dmClassicalNote, dmOneshotNote, String.append_assoc, String.append_right_inj] at heq
    exact ofList_append_ne _ _ 1 (by decide) (by decide) (by decide) heq

/-- A DM report uses a hybrid text exactly when its suite has the flag. -/
theorem usesHybridText_iff (suiteId : String) (level : RatchetLevel) (epoch : UInt64)
    (peer : String) : UsesHybridText (dmNote suiteId level epoch peer) peer epoch ↔
      (resolveSuite suiteId).quantumResistant = true := by
  unfold dmNote
  by_cases hybrid : (resolveSuite suiteId).quantumResistant = true
  · rw [iff_true_right hybrid]
    simp only [hybrid, Bool.not_true, Bool.false_eq_true, if_false]
    split
    · exact .inl rfl
    · exact .inr rfl
  · rw [iff_false_right hybrid]
    simp only [hybrid, Bool.not_false, if_true]
    exact not_usesHybridText_classical peer suiteId level epoch

/-- A conversation report says so exactly when its suite has the flag. -/
theorem saysNegotiatedHybrid_iff (suiteId : String) (kind : ConversationKind) (peer : String) :
    SaysNegotiatedHybrid kind peer (conversationNote suiteId kind.surface.1 peer) ↔
      (resolveSuite suiteId).quantumResistant = true := by
  simp only [conversationNote]
  by_cases hybrid : (resolveSuite suiteId).quantumResistant = true
  · rw [iff_true_right hybrid, if_pos hybrid]
    simp only [SaysNegotiatedHybrid, conversationHybridNote, String.toList_append,
      List.append_assoc, List.prefix_append_right_inj]
    exact (ofList_prefix_append_iff _ (by decide)).mpr (by decide +kernel)
  · rw [iff_false_right hybrid, if_neg hybrid]
    simp only [SaysNegotiatedHybrid, conversationClassicalNote, String.toList_append,
      List.append_assoc, List.prefix_append_right_inj]
    exact mt (ofList_prefix_append_iff _ (by decide)).mp (by decide +kernel)

/-! ## Against the status -/

/-- The flag is the status `hybrid-pq` for every suite but the bulk cipher. -/
theorem quantumResistant_iff_hybridPq (suiteId : String) :
    ((resolveSuite suiteId).quantumResistant = true ↔
        Registry.seeded.suiteStatus suiteId = .hybridPq) ↔ suiteId ≠ "aes256-gcm-v1" := by
  rw [resolveSuite_quantumResistant, Registry.suiteStatus_seeded]
  by_cases hkem : suiteId = "x25519-mlkem768"
  · rw [if_pos hkem, hkem]
    decide
  · rw [if_neg hkem]
    by_cases haes : suiteId = "aes256-gcm-v1"
    · rw [if_pos haes, haes]
      decide
    · rw [if_neg haes, iff_true_right haes]
      decide

theorem effectiveSuite_ne (negotiatedSuite : String) :
    effectiveSuite negotiatedSuite ≠ "aes256-gcm-v1" ↔ negotiatedSuite ≠ "aes256-gcm-v1" := by
  unfold effectiveSuite
  by_cases hempty : negotiatedSuite = ""
  · rw [if_pos hempty, hempty]
    decide
  · rw [if_neg hempty]

/-- Over a free note a builder returns the resolved report. -/
theorem exists_report_iff {surface component suiteId note : String} (hfree : Free note)
    (Q : SurfaceReport → Prop) :
    (∃ r, (surfaceFrom surface component suiteId note : Outcome Empty SurfaceReport) = .ok r ∧
      Q r) ↔ Q ((resolveSuite suiteId).report surface component suiteId note) := by
  rw [surfaceFrom_eq, if_pos ((isHonestNote_iff note).mpr hfree)]
  constructor
  · rintro ⟨r, hr, hQ⟩
    cases hr
    exact hQ
  · intro hQ
    exact ⟨_, rfl, hQ⟩

/-- The notes name the hybrid KEM if and only if the status of the suite is
`hybrid-pq`, exactly for the suites other than `aes256-gcm-v1`. -/
theorem hybrid_note_iff {negotiatedSuite peer : String} (hsuite : Free negotiatedSuite)
    (hpeer : Free peer) (level : RatchetLevel) (epoch : UInt64) (kind : ConversationKind) :
    ((∃ r, (dmRatchetSurfaceFor negotiatedSuite level epoch peer :
        Outcome Empty SurfaceReport) = .ok r ∧
      (UsesHybridText r.note peer epoch ↔
        Registry.seeded.suiteStatus (effectiveSuite negotiatedSuite) = .hybridPq)) ↔
      negotiatedSuite ≠ "aes256-gcm-v1") ∧
    ((∃ r, (conversationSurfaceFor negotiatedSuite kind peer :
        Outcome Empty SurfaceReport) = .ok r ∧
      (SaysNegotiatedHybrid kind peer r.note ↔
        Registry.seeded.suiteStatus (effectiveSuite negotiatedSuite) = .hybridPq)) ↔
      negotiatedSuite ≠ "aes256-gcm-v1") := by
  have heffective : Free (effectiveSuite negotiatedSuite) :=
    (free_effectiveSuite negotiatedSuite).mpr hsuite
  have hdm := (free_dmNote (effectiveSuite negotiatedSuite) level epoch peer).mpr
    ⟨hpeer, heffective⟩
  have hconversation := (free_conversationNote (effectiveSuite negotiatedSuite) kind peer).mpr hpeer
  rw [← effectiveSuite_ne negotiatedSuite,
    ← quantumResistant_iff_hybridPq (effectiveSuite negotiatedSuite)]
  constructor
  · rw [← usesHybridText_iff (effectiveSuite negotiatedSuite) level epoch peer]
    exact exists_report_iff hdm fun r => UsesHybridText r.note peer epoch ↔ _
  · rw [← saysNegotiatedHybrid_iff (effectiveSuite negotiatedSuite) kind peer]
    exact exists_report_iff hconversation fun r => SaysNegotiatedHybrid kind peer r.note ↔ _

/-- The notes of the hybrid KEM suite name it, as they should. -/
theorem hybrid_note_iff_mlkem :
    (∃ r, (dmRatchetSurfaceFor hybridKemSuite .l3Epoch 5 "bob" :
        Outcome Empty SurfaceReport) = .ok r ∧
      (UsesHybridText r.note "bob" 5 ↔
        Registry.seeded.suiteStatus (effectiveSuite hybridKemSuite) = .hybridPq)) ∧
    (∃ r, (conversationSurfaceFor hybridKemSuite .dm "bob" : Outcome Empty SurfaceReport) = .ok r ∧
      (SaysNegotiatedHybrid .dm "bob" r.note ↔
        Registry.seeded.suiteStatus (effectiveSuite hybridKemSuite) = .hybridPq)) := by
  have hmain := @hybrid_note_iff hybridKemSuite "bob" (by decide) (by decide) .l3Epoch 5 .dm
  exact ⟨hmain.1.mpr (by decide), hmain.2.mpr (by decide)⟩

/-- A report over the bulk cipher names a hybrid KEM, and its status is
`symmetric`. -/
theorem aesGcm_reads_hybrid :
    (∃ r, (dmRatchetSurfaceFor "aes256-gcm-v1" .l3Epoch 0 "bob" :
        Outcome Empty SurfaceReport) = .ok r ∧ UsesHybridText r.note "bob" 0 ∧
        r.status = "symmetric") ∧
      (∃ r, (conversationSurfaceFor "aes256-gcm-v1" .dm "bob" :
        Outcome Empty SurfaceReport) = .ok r ∧ SaysNegotiatedHybrid .dm "bob" r.note ∧
        r.status = "symmetric") ∧
      Registry.seeded.suiteStatus (effectiveSuite "aes256-gcm-v1") ≠ .hybridPq := by
  have hstatus : Registry.seeded.suiteStatus "aes256-gcm-v1" = .symmetric := by
    rw [Registry.suiteStatus_seeded]
    rfl
  have hflag : (resolveSuite "aes256-gcm-v1").quantumResistant = true := by
    rw [resolveSuite_quantumResistant, hstatus]
    rfl
  have hreport : (resolveSuite "aes256-gcm-v1").status.asStr = "symmetric" := by
    rw [resolveSuite_status, hstatus]
    rfl
  have hpeer : Free "bob" := by decide
  have hdm := (free_dmNote "aes256-gcm-v1" .l3Epoch 0 "bob").mpr ⟨hpeer, by decide⟩
  have hconversation := (free_conversationNote "aes256-gcm-v1" .dm "bob").mpr hpeer
  have huses : UsesHybridText (dmNote "aes256-gcm-v1" .l3Epoch 0 "bob") "bob" 0 :=
    (usesHybridText_iff _ _ _ _).mpr hflag
  have hspoken : SaysNegotiatedHybrid .dm "bob" (conversationNote "aes256-gcm-v1" "dm" "bob") :=
    (saysNegotiatedHybrid_iff "aes256-gcm-v1" .dm "bob").mpr hflag
  refine ⟨?_, ?_, ?_⟩
  · exact (exists_report_iff hdm fun r =>
      UsesHybridText r.note "bob" 0 ∧ r.status = "symmetric").mpr ⟨huses, hreport⟩
  · exact (exists_report_iff hconversation fun r =>
      SaysNegotiatedHybrid .dm "bob" r.note ∧ r.status = "symmetric").mpr ⟨hspoken, hreport⟩
  · exact fun h => absurd (hstatus.symm.trans h) (by decide)

end Report
end SkPqc
