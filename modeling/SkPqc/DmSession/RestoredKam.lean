import SkPqc.DmSession.Lifecycle
import SkPqc.DmSession.Snapshot

/-!
# The KAM of a restored session

A ratchet that `begin_epoch` made comes with a stored KAM, and `seal` puts that
KAM into the first frames of the epoch.  `restore` takes the ratchet and the
KAM from two unrelated members of the JSON value.

Main results:

- Theorem `Sheltered.step`: every call keeps a ratchet that is still to send its
  first frames together with a KAM.
- Theorem `carriesKam_iff`: exactly the sessions with this invariant carry the
  KAM in the first frames of every epoch.
- Theorem `restore_carriesKam_iff`: for which JSON values `restore` returns
  such a session.
-/

namespace SkPqc
namespace DmSession

open Rust Kem Ratchet Json

/-! ## The invariant of the sender -/

section Sender

variable {φ : Type} [F64 φ]

/-- A set ratchet comes with a stored KAM. -/
def KamStored (s : DmSession φ) : Prop :=
  s.ratchet.isSome → s.currentKam.isSome

/-- In every later sequence of calls, the first frames of an epoch carry its
KAM. -/
def CarriesKam (P : Primitives) (s : DmSession φ) : Prop :=
  ∀ calls frame, Reply.sealed (.ok frame) ∈ s.replies P calls →
    frame.index < kamRepeat → frame.kam.isSome

/-- A ratchet at `index` sends no further frame below `kamRepeat`: it is past
them, or the next seal begins an epoch whatever the clock says. -/
def PastRepeats (index rekeyMsgBound rekeyAgeSeconds : UInt64) (epochStartedAt : φ) : Prop :=
  kamRepeat ≤ index ∨
    ∀ clock, shouldRekey index epochStartedAt clock rekeyMsgBound rekeyAgeSeconds = true

/-- Without a KAM, the ratchet has none of the first frames left to send. -/
def Sheltered (s : DmSession φ) : Prop :=
  ∀ r, s.ratchet = some r →
    s.currentKam.isSome ∨
      PastRepeats r.messageIndex r.rekeyMsgBound r.rekeyAgeSeconds r.epochStartedAt

theorem KamStored.sheltered {s : DmSession φ} (h : KamStored s) : Sheltered s := by
  intro r hratchet
  exact Or.inl (h (by rw [hratchet]; rfl))

/-- The ratchet a rekey leaves, before its next key is taken. -/
theorem Sheltered.rekey {P : Primitives} {s s₁ : DmSession φ} {r : DmRatchet φ}
    {peerHybridPub : Bytes} {draws : SealDraws φ} (h : Sheltered s)
    (hstep : RekeyStep P s peerHybridPub draws (.ok (), s₁)) (hratchet : s₁.ratchet = some r) :
    s₁.currentKam.isSome ∨
      kamRepeat ≤ r.messageIndex ∧ r.messageIndex < r.rekeyMsgBound := by
  cases hstep with
  | began _ _ => exact Or.inl rfl
  | @current r' hr' hfresh =>
      have hsame : r' = r := Option.some.inj (hr'.symm.trans hratchet)
      subst hsame
      rcases h r' hr' with hkam | hpast | hdue
      · exact Or.inl hkam
      · exact Or.inr ⟨hpast, DmRatchet.messageIndex_lt_of_shouldRekey_eq_false hfresh⟩
      · have hrekey : r'.shouldRekey none draws.rekeyClock = true := hdue draws.rekeyClock
        rw [hfresh] at hrekey
        cases hrekey

omit [F64 φ] in
/-- A frame among the first of its epoch carries the KAM. -/
theorem kam_isSome_of_sealBody {P : Primitives} {s : DmSession φ} {r : DmRatchet φ}
    {plaintext : Bytes} {draws : SealDraws φ} {frame : SealedDmFrame}
    (hshelter : s.currentKam.isSome ∨
      kamRepeat ≤ r.messageIndex ∧ r.messageIndex < r.rekeyMsgBound)
    (hframe : sealBody P s r plaintext draws = .ok frame) (hindex : frame.index < kamRepeat) :
    frame.kam.isSome := by
  rcases (sealBody_eq_ok_iff P).mp hframe with ⟨body, _, rfl⟩
  have hlt : r.messageIndex < kamRepeat := hindex
  rcases hshelter with hkam | ⟨hpast, _⟩
  · simpa [hlt] using hkam
  · exact absurd hlt (UInt64.not_lt.mpr hpast)

/-- Advancing a ratchet that is past the first frames leaves it past them; the
index is below the bound and does not wrap. -/
theorem Sheltered.advance {s : DmSession φ} {r : DmRatchet φ}
    (h : s.currentKam.isSome ∨ kamRepeat ≤ r.messageIndex ∧ r.messageIndex < r.rekeyMsgBound) :
    Sheltered (s.advance r) := by
  intro r' hr'
  cases hr'
  rcases h with hkam | ⟨hpast, hbound⟩
  · exact Or.inl hkam
  · right
    left
    change kamRepeat ≤ r.messageIndex + 1
    rw [UInt64.le_iff_toNat_le] at hpast ⊢
    rw [UInt64.lt_iff_toNat_lt] at hbound
    have hlimit := r.rekeyMsgBound.toNat_lt
    have hsucc : (r.messageIndex + 1).toNat = r.messageIndex.toNat + 1 := by
      rw [UInt64.toNat_add, UInt64.toNat_one, Nat.mod_eq_of_lt (by omega)]
    omega

/-- Every call keeps the invariant. -/
theorem Sheltered.step {P : Primitives} {s : DmSession φ} (h : Sheltered s) (c : Call φ) :
    Sheltered (s.call P c).2 := by
  have hstep := call_step P s c
  generalize (s.call P c).2 = s' at hstep ⊢
  cases hstep with
  | unchanged _ => exact h
  | took hrekey hratchet => exact .advance (h.rekey hrekey hratchet)
  | learned _ _ => exact h

/-- The frame that one call returns. -/
theorem Sheltered.frame {P : Primitives} {s : DmSession φ} (h : Sheltered s) {c : Call φ}
    {frame : SealedDmFrame} (hreply : (s.call P c).1 = .sealed (.ok frame))
    (hindex : frame.index < kamRepeat) : frame.kam.isSome := by
  cases c with
  | «seal» plaintext peerHybridPub draws =>
      have hstep := seal_step P s plaintext peerHybridPub draws
      change Reply.sealed ((DmSession.seal P plaintext peerHybridPub draws).run s).1 = _ at hreply
      have hframe := Reply.sealed.inj hreply
      generalize (DmSession.seal P plaintext peerHybridPub draws).run s = res at hstep hframe
      cases hstep with
      | refused _ => cases hframe
      | took hrekey hratchet =>
          exact kam_isSome_of_sealBody (h.rekey (rekeyStep_of_ok hrekey) hratchet) hframe hindex
  | «open» frame myHybridPriv => cases hreply

/-- A whole run, from the invariant of its first state. -/
theorem Sheltered.carriesKam {P : Primitives} {s : DmSession φ} (h : Sheltered s) :
    CarriesKam P s := by
  intro calls
  induction calls generalizing s with
  | nil =>
      intro frame hmem
      cases hmem
  | cons c calls ih =>
      intro frame hmem hindex
      rcases List.mem_cons.mp hmem with hhead | htail
      · exact h.frame hhead.symm hindex
      · exact ih (h.step c) frame htail hindex

/-- Draws of zeros, with both clock readings at `clock`. -/
def drawsAt (clock : φ) : SealDraws φ where
  rekeyClock := clock
  startClock := clock
  epochSecret := List.Vector.replicate epochSecretLen 0
  wrap := ⟨⟨List.Vector.replicate 32 0, List.Vector.replicate 32 0⟩, List.Vector.replicate 12 0⟩
  frameNonce := List.Vector.replicate frameNonceLen 0

/-- Sealing under a ratchet that need not rekey. -/
theorem seal_of_current {P : Primitives} {s : DmSession φ} {r : DmRatchet φ}
    (plaintext peerHybridPub : Bytes) {draws : SealDraws φ} (hratchet : s.ratchet = some r)
    (hfresh : r.shouldRekey none draws.rekeyClock = false) :
    (DmSession.seal P plaintext peerHybridPub draws).run s =
      (sealBody P s r plaintext draws, s.advance r) := by
  have hrekey : (rekeyIfDue P peerHybridPub draws).run s = (.ok (), s) := by
    have hnone : s.beginAt draws.rekeyClock = none :=
      beginAt_eq_none_iff.mpr ⟨r, hratchet, hfresh⟩
    unfold rekeyIfDue
    rw [Mut.run_get_bind, hnone]
    rfl
  have hstep := seal_step P s plaintext peerHybridPub draws
  generalize (DmSession.seal P plaintext peerHybridPub draws).run s = res at hstep ⊢
  cases hstep with
  | refused hrefused =>
      rw [hrekey] at hrefused
      cases hrefused
  | took htaken hr =>
      rw [hrekey] at htaken
      cases htaken
      rw [hratchet] at hr
      cases hr
      rfl

/-- A ratchet without a KAM that still has first frames to send sends one at
the next seal. -/
theorem sheltered_of_carriesKam {P : Primitives} (aead : P.AeadLaws) {s : DmSession φ}
    (h : CarriesKam P s) : Sheltered s := by
  intro r hratchet
  by_contra hstranded
  rcases not_or.mp hstranded with ⟨hkam, hpast⟩
  rcases not_or.mp hpast with ⟨hindex, hdue⟩
  rcases not_forall.mp hdue with ⟨clock, hclock⟩
  have hfresh : r.shouldRekey none (drawsAt clock).rekeyClock = false :=
    Bool.eq_false_iff.mpr hclock
  have hempty : ([] : Bytes).length ≤ aesGcmMax := Nat.zero_le _
  rcases exists_sealBody_eq_ok aead s r (drawsAt clock) hempty with ⟨frame, hframe⟩
  have hrun := seal_of_current (P := P) [] [] hratchet hfresh
  have hreply : (s.call P (.seal [] [] (drawsAt clock))).1 = .sealed (.ok frame) := by
    change Reply.sealed ((DmSession.seal P [] [] (drawsAt clock)).run s).1 = _
    rw [hrun, hframe]
  have hmem : Reply.sealed (.ok frame) ∈ s.replies P [.seal [] [] (drawsAt clock)] := by
    simp [replies, hreply]
  have hcarries := h _ frame hmem
  rcases (sealBody_eq_ok_iff P).mp hframe with ⟨body, _, rfl⟩
  have hlt : r.messageIndex < kamRepeat := UInt64.not_le.mp hindex
  have hsome := hcarries hlt
  simp only [hlt, if_true] at hsome
  exact hkam hsome

/-- Exactly the sessions with the invariant carry the KAM. -/
theorem carriesKam_iff {P : Primitives} (aead : P.AeadLaws) {s : DmSession φ} :
    CarriesKam P s ↔ Sheltered s :=
  ⟨sheltered_of_carriesKam aead, Sheltered.carriesKam⟩

end Sender

/-! ## Restored sessions -/

section Restored

variable {φ : Type} [JsonF64 φ]

/-- The value has no ratchet to restore. -/
def NoRatchet (v : Value φ) : Prop :=
  v.get "ratchet" = none ∨ v.get "ratchet" = some .null

/-- The value has no ratchet, or it has a KAM beside it. -/
def NamesKam (v : Value φ) : Prop :=
  NoRatchet v ∨ ∃ h, v.get "current_kam" = some (.string h)

/-- What a value says of its ratchet. -/
structure SavedRatchet (v : Value φ) (index bound age : UInt64) (start : φ) : Prop where
  bound_eq : (v.get "rekey_msg_bound").bind Value.asU64 = some bound
  age_eq : (v.get "rekey_age_seconds").bind Value.asU64 = some age
  ratchet : ∃ rt, v.get "ratchet" = some rt ∧
    (rt.get "message_index").bind Value.asU64 = some index ∧
    (rt.get "epoch_started_at").bind Value.asF64 = some start

/-- The saved ratchet has none of the first frames left to send. -/
def SavedPastRepeats (v : Value φ) : Prop :=
  ∃ index bound age start, SavedRatchet v index bound age start ∧
    PastRepeats index bound age start

theorem SavedRatchet.pastRepeats_iff {v : Value φ} {index bound age : UInt64} {start : φ}
    (h : SavedRatchet v index bound age start) :
    SavedPastRepeats v ↔ PastRepeats index bound age start := by
  constructor
  · rintro ⟨index', bound', age', start', h', hpast⟩
    rcases h.ratchet with ⟨rt, hrt, hindex, hstart⟩
    rcases h'.ratchet with ⟨rt', hrt', hindex', hstart'⟩
    have hsame : rt = rt' := Option.some.inj (hrt.symm.trans hrt')
    subst hsame
    have hb := Option.some.inj (h.bound_eq.symm.trans h'.bound_eq)
    have ha := Option.some.inj (h.age_eq.symm.trans h'.age_eq)
    have hi := Option.some.inj (hindex.symm.trans hindex')
    have hs := Option.some.inj (hstart.symm.trans hstart')
    rw [hi, hb, ha, hs]
    exact hpast
  · intro hpast
    exact ⟨index, bound, age, start, h, hpast⟩

/-- The two kinds of session that `restore` returns. -/
inductive Restored (v : Value φ) (s : DmSession φ) : Prop where
  | idle (hratchet : s.ratchet = none) (habsent : NoRatchet v)
  | keyed {r : DmRatchet φ} (hratchet : s.ratchet = some r) (hpresent : ¬ NoRatchet v)
      (hsaved : SavedRatchet v r.messageIndex r.rekeyMsgBound r.rekeyAgeSeconds r.epochStartedAt)

variable {H : Hex.Codec}

omit [JsonF64 φ] in
/-- A KAM is restored from a string and from nothing else. -/
theorem restoreKam_isSome_iff {field : Option (Value φ)} {kam : Option Bytes}
    (h : restoreKam H field = .ok kam) : kam.isSome ↔ ∃ text, field = some (.string text) := by
  unfold restoreKam at h
  split at h
  · rename_i text
    rcases Outcome.bind_eq_ok_iff.mp h with ⟨bytes, _, hkam⟩
    cases hkam
    simp
  · rename_i hother
    cases h
    constructor
    · intro hsome
      cases hsome
    · rintro ⟨text, rfl⟩
      exact absurd rfl (hother text)

/-- The last part of `restore`, once the secrets are in the store. -/
def restoreSender (H : Hex.Codec) (s : DmSession φ) (snap : Value φ) :
    Outcome DmSessionError (DmSession φ) := do
  let currentKam ← restoreKam H (snap.get "current_kam")
  let s := { s with currentKam := currentKam }
  match snap.get "ratchet" with
  | none => pure s
  | some rt =>
      if rt.isNull then pure s
      else do
        let r ← restoreRatchet s rt
        pure { s with ratchet := some r }

theorem restoreSender_of_restore {v : Value φ} {s : DmSession φ} (h : restore H v = .ok s) :
    ∃ peer bound age secrets,
      (v.get "rekey_msg_bound").bind Value.asU64 = some bound ∧
      (v.get "rekey_age_seconds").bind Value.asU64 = some age ∧
      restoreSender H { withBounds peer bound age with epochSecrets := secrets } v = .ok s := by
  unfold restore at h
  simp only [Outcome.bind_eq_ok_iff, Outcome.okOr_eq_ok_iff] at h
  rcases h with ⟨peer, _, bound, hbound, age, hage, hrest⟩
  refine ⟨peer, bound, age, ?_⟩
  split at hrest
  · rcases Outcome.bind_eq_ok_iff.mp hrest with ⟨secrets, _, hsender⟩
    exact ⟨secrets, hbound, hage, hsender⟩
  · exact ⟨_, hbound, hage, hrest⟩

/-- The two ways in which the last part of `restore` ends. -/
inductive SenderStep (H : Hex.Codec) (s : DmSession φ) (v : Value φ) : DmSession φ → Prop where
  | idle {kam : Option Bytes} (hkam : restoreKam H (v.get "current_kam") = .ok kam)
      (habsent : NoRatchet v) :
      SenderStep H s v { s with currentKam := kam }
  | keyed {kam : Option Bytes} {rt : Value φ} {r : DmRatchet φ}
      (hkam : restoreKam H (v.get "current_kam") = .ok kam) (hrt : v.get "ratchet" = some rt)
      (hpresent : ¬ NoRatchet v) (hr : restoreRatchet { s with currentKam := kam } rt = .ok r) :
      SenderStep H s v { s with currentKam := kam, ratchet := some r }

theorem restoreSender_step {s s' : DmSession φ} {v : Value φ}
    (h : restoreSender H s v = .ok s') : SenderStep H s v s' := by
  rcases Outcome.bind_eq_ok_iff.mp h with ⟨kam, hkam, hratchet⟩
  cases hrt : v.get "ratchet" with
  | none =>
      rw [hrt] at hratchet
      cases hratchet
      exact .idle hkam (Or.inl hrt)
  | some rt =>
      simp only [hrt] at hratchet
      split at hratchet
      · rename_i hnull
        cases hratchet
        exact .idle hkam (Or.inr (by rw [hrt, Value.isNull_iff.mp hnull]))
      · rename_i hnull
        rcases Outcome.bind_eq_ok_iff.mp hratchet with ⟨r, hr, hs⟩
        cases hs
        have hpresent : ¬ NoRatchet v := by
          unfold NoRatchet
          rw [hrt]
          rintro (habsent | habsent)
          · cases habsent
          · exact hnull (Value.isNull_iff.mpr (Option.some.inj habsent))
        exact .keyed hkam hrt hpresent hr

/-- The session comes from the members named `ratchet` and `current_kam`. -/
theorem restore_restored {v : Value φ} {s : DmSession φ} (h : restore H v = .ok s) :
    Restored v s ∧ restoreKam H (v.get "current_kam") = .ok s.currentKam := by
  rcases restoreSender_of_restore h with ⟨peer, bound, age, secrets, hbound, hage, hsender⟩
  have hstep := restoreSender_step hsender
  cases hstep with
  | idle hkam habsent => exact ⟨.idle rfl habsent, hkam⟩
  | keyed hkam hrt hpresent hr =>
      rcases restoreRatchet_eq_ok_iff.mp hr with ⟨-, hindex, hstart, -, hmsg, hold⟩
      refine ⟨.keyed rfl hpresent ⟨?_, ?_, _, hrt, hindex, hstart⟩, hkam⟩
      · rw [hbound, hmsg]
        rfl
      · rw [hage, hold]
        rfl

/-- `restore` returns a session with the sender's invariant, which seals no
stranded frame, exactly when the value names a KAM beside its ratchet.  For the
frames alone it is also enough that the saved ratchet is past them. -/
theorem restore_carriesKam_iff {P : Primitives} (aead : P.AeadLaws) {v : Value φ}
    {s : DmSession φ} (h : restore H v = .ok s) :
    ((KamStored s ∧ CarriesKam P s) ↔ NamesKam v) ∧
      (CarriesKam P s ↔ NamesKam v ∨ SavedPastRepeats v) := by
  rcases restore_restored h with ⟨hrestored, hkam⟩
  have hstored : KamStored s ↔ NamesKam v := by
    unfold KamStored NamesKam
    rw [restoreKam_isSome_iff hkam]
    cases hrestored with
    | idle hratchet habsent => simp [hratchet, habsent]
    | keyed hratchet hpresent _ => simp [hratchet, hpresent]
  have hcarries : CarriesKam P s ↔ NamesKam v ∨ SavedPastRepeats v := by
    rw [carriesKam_iff aead]
    unfold Sheltered NamesKam
    rw [← restoreKam_isSome_iff hkam]
    cases hrestored with
    | idle hratchet habsent => simp [hratchet, habsent]
    | keyed hratchet hpresent hsaved =>
        rw [hsaved.pastRepeats_iff]
        simp [hratchet, hpresent]
  refine ⟨?_, hcarries⟩
  constructor
  · intro hboth
    exact hstored.mp hboth.1
  · intro hnames
    have hkept := hstored.mpr hnames
    exact ⟨hkept, hkept.sheltered.carriesKam⟩

end Restored

namespace Sample

/-- The clock at the start of the epoch. -/
def epochStart : Int := 1767225600

/-- The draws of a seal one minute into the epoch. -/
def minuteDraws (b : UInt8) : SealDraws Int :=
  { draws b with rekeyClock := epochStart + 60, startClock := epochStart + 60 }

/-- A snapshot whose KAM is gone. -/
def unkeyedValue : Value Int :=
  .object
    [("current_kam", .null),
      ("epoch_secrets", .object [("0", .string (Hex.standard.encode (block 32 7).toList))]),
      ("peer", .string "bob"),
      ("ratchet", .object
        [("epoch", .number (.posInt 0)),
          ("epoch_started_at", .number (.float epochStart)),
          ("message_index", .number (.posInt 1))]),
      ("rekey_age_seconds", .number (.posInt 600)),
      ("rekey_msg_bound", .number (.posInt 5)),
      ("v", .number (.posInt 1))]

/-- The session it is restored to. -/
def unkeyed : DmSession Int where
  peer := "bob"
  rekeyMsgBound := 5
  rekeyAgeSeconds := 600
  ratchet := some
    { epoch := 0, epochSecret := block 32 7, messageIndex := 1, rekeyMsgBound := 5
      rekeyAgeSeconds := 600, epochStartedAt := epochStart }
  epochSecrets := (∅ : EpochSecrets).insert 0 (block 32 7)
  currentKam := none

theorem restore_unkeyedValue : restore Hex.standard unkeyedValue = .ok unkeyed := rfl

end Sample

/-- The iff for a value without a KAM. -/
theorem restore_carriesKam_iff_unkeyed :
    ((KamStored Sample.unkeyed ∧ CarriesKam Primitives.transparent Sample.unkeyed) ↔
        NamesKam Sample.unkeyedValue) ∧
      (CarriesKam Primitives.transparent Sample.unkeyed ↔
        NamesKam Sample.unkeyedValue ∨ SavedPastRepeats Sample.unkeyedValue) :=
  restore_carriesKam_iff (Primitives.tagged_aeadLaws _) Sample.restore_unkeyedValue

/-- Within the age of its epoch the session seals frame 1 without a KAM, and the
peer that lost frame 0 cannot open it. -/
theorem unkeyed_strands_epoch :
    let frame := Sample.frameWith Sample.unkeyed [104, 105] 2 (Sample.minuteDraws 7)
    restore Hex.standard Sample.unkeyedValue = .ok Sample.unkeyed ∧
    ¬ KamStored Sample.unkeyed ∧ ¬ CarriesKam Primitives.transparent Sample.unkeyed ∧
    Sample.unkeyed.replies Primitives.transparent
        [.seal [104, 105] (Sample.keys 2).publicKey (Sample.minuteDraws 7)] =
      [.sealed (.ok frame)] ∧
    frame.index = 1 ∧ frame.kam = none ∧
    (DmSession.new "alice" : DmSession Int).replies Primitives.transparent
        [.open frame (Sample.keys 2).privateKey] = [.opened (.err (.missingEpochSecret 0))] := by
  intro frame
  have hreplies : Sample.unkeyed.replies Primitives.transparent
      [.seal [104, 105] (Sample.keys 2).publicKey (Sample.minuteDraws 7)] =
        [.sealed (.ok frame)] := by
    decide +kernel
  have hindex : frame.index = 1 := by decide +kernel
  have hkam : frame.kam = none := by decide +kernel
  have hopen : (DmSession.new "alice" : DmSession Int).replies Primitives.transparent
      [.open frame (Sample.keys 2).privateKey] = [.opened (.err (.missingEpochSecret 0))] := by
    decide +kernel
  have hstored : ¬ KamStored Sample.unkeyed := fun h => Bool.false_ne_true (h rfl)
  refine ⟨Sample.restore_unkeyedValue, hstored, ?_, hreplies, hindex, hkam, hopen⟩
  intro hcarries
  have hmem : Reply.sealed (.ok frame) ∈ Sample.unkeyed.replies Primitives.transparent
      [.seal [104, 105] (Sample.keys 2).publicKey (Sample.minuteDraws 7)] := by
    rw [hreplies]
    exact List.mem_singleton_self _
  have hsome := hcarries _ frame hmem (by rw [hindex]; decide)
  rw [hkam] at hsome
  cases hsome

end DmSession
end SkPqc
