import SkPqc.Suites
import SkPqc.Foundations.Outcome
import Mathlib.Data.List.Infix

/-!
# The self-report

This module embeds the surface builders of `report.rs`: they resolve a suite in
the registry, write a note about it, and screen the note for forbidden words.

Main results:

- Theorem `resolveSuite_status` and `resolveSuite_quantumResistant`: the two
  fields that a builder reads come from one status.
- Theorem `surfaceFrom_eq`: a report is built exactly when its note passes the
  screen.
-/

namespace SkPqc
namespace Report

open Rust

/-- Words that a report must never emit. -/
def forbiddenWords : List String := ["quantum-proof", "quantum-safe", "unbreakable"]

/-- Fallback suite of a conversation without a hybrid prekey. -/
def defaultConversationSuite : String := "x25519-pgp-wrap-v1"

def hybridKemSuite : String := "x25519-mlkem768"

/-- `str::to_ascii_lowercase`, as characters. -/
def asciiLowercase (s : String) : List Char := s.toList.map Char.toLower

/-- `str::to_ascii_uppercase`. -/
def asciiUppercase (s : String) : String := String.ofList (s.toList.map Char.toUpper)

/-- Whether a note contains none of the forbidden words. -/
def isHonestNote (note : String) : Bool :=
  let lower := asciiLowercase note
  !forbiddenWords.any fun w => decide (w.toList <:+: lower)

/-- The forward-secrecy ratchet level of a session. -/
inductive RatchetLevel where
  | l2Oneshot
  | l3Epoch
deriving DecidableEq, Repr

def RatchetLevel.asStr : RatchetLevel → String
  | l2Oneshot => "L2-oneshot"
  | l3Epoch => "L3-epoch"

/-- Parse a wire string; unknown values are the lower level. -/
def RatchetLevel.fromWire : String → RatchetLevel
  | "L3-epoch" => l3Epoch
  | _ => l2Oneshot

/-- The resolved posture of one surface. -/
structure SurfaceReport where
  surface : String
  component : String
  activeSuite : String
  status : String
  quantumResistant : Bool
  primitives : List String
  fipsRefs : List String
  note : String
deriving DecidableEq, Repr

variable {ε : Type}

/-- The backstop: two `assert!`s. -/
def SurfaceReport.assertHonest (r : SurfaceReport) : Outcome ε Unit := do
  Outcome.assert (isHonestNote r.note)
  if r.status = "classical" then Outcome.assert (!r.quantumResistant) else pure ()

/-- What the registry says about a suite id. -/
structure Resolved where
  status : SuiteStatus
  primitives : List String
  fipsRefs : List String
  quantumResistant : Bool

def resolveSuite (suiteId : String) : Resolved :=
  match Registry.seeded.getSuite suiteId with
  | some s => ⟨s.status, s.primitives, s.fipsRefs, s.isQuantumResistant⟩
  | none => ⟨.classical, ["unknown"], [], false⟩

/-- A surface with the metadata of its suite. -/
def Resolved.report (r : Resolved) (surface component suiteId note : String) : SurfaceReport where
  surface := surface
  component := component
  activeSuite := suiteId
  status := r.status.asStr
  quantumResistant := r.quantumResistant
  primitives := r.primitives
  fipsRefs := r.fipsRefs
  note := note

/-- Assemble a report from a surface and the resolved suite. -/
def surfaceFrom (surface component suiteId note : String) : Outcome ε SurfaceReport := do
  let r := resolveSuite suiteId
  let report := r.report surface component suiteId note
  report.assertHonest
  pure report

/-- The suite a report is about: the negotiated one, or the fallback. -/
def effectiveSuite (negotiatedSuite : String) : String :=
  if negotiatedSuite = "" then defaultConversationSuite else negotiatedSuite

/-- `" with <peer>"`, or nothing for an empty peer. -/
def who (peer : String) : String := if peer = "" then "" else " with " ++ peer

/-! ## The notes -/

/-- DM note over a classical KEM. -/
def dmClassicalNote (peer suiteId : String) (level : RatchetLevel) : String :=
  "DM" ++ who peer ++ " on the CLASSICAL PGP key-wrap (" ++ suiteId ++
    ") — HNDL-exposed: recorded ciphertext is retroactively decryptable. The " ++ level.asStr ++
    " ratchet structure provides NO post-quantum confidentiality while the " ++
    "KEM is classical; negotiate the hybrid X25519+ML-KEM-768 (FIPS 203) " ++
    "suite to close the harvest-now-decrypt-later gap."

/-- DM note on the hybrid epoch ratchet. -/
def dmEpochNote (peer : String) (epoch : UInt64) : String :=
  "DM" ++ who peer ++ " on the running epoch-ratchet, FS + PCS, hybrid " ++
    "X25519+ML-KEM-768 rekey per epoch (epoch " ++ toString epoch ++ "). Each epoch " ++
    "re-derives the chain from a fresh hybrid-KEM secret, so a compromised " ++
    "key neither decrypts past epochs (forward secrecy) nor future ones " ++
    "once healed (post-compromise security). Secure while EITHER the " ++
    "X25519 or the ML-KEM-768 (FIPS 203) leg holds."

/-- DM note on the hybrid one-shot seal. -/
def dmOneshotNote (peer : String) : String :=
  "DM" ++ who peer ++ " sealed with a stateless one-shot hybrid seal — PQ at the " ++
    "published prekey only, no running ratchet. Forward secrecy is limited " ++
    "to prekey rotation (no per-message/per-epoch rekey, no " ++
    "post-compromise security). Secure while EITHER the X25519 or the " ++
    "ML-KEM-768 (FIPS 203) leg holds; upgrade to the L3 epoch-ratchet for " ++
    "FS + PCS."

/-- The note of a DM report. -/
def dmNote (suiteId : String) (ratchetLevel : RatchetLevel) (epoch : UInt64) (peer : String) :
    String :=
  let resolved := resolveSuite suiteId
  let isHybrid := resolved.quantumResistant
  if !isHybrid then dmClassicalNote peer suiteId ratchetLevel
  else if ratchetLevel = .l3Epoch then dmEpochNote peer epoch
  else dmOneshotNote peer

/-- Build the per-DM surface report. -/
def dmRatchetSurfaceFor (negotiatedSuite : String) (ratchetLevel : RatchetLevel)
    (epoch : UInt64) (peer : String) : Outcome ε SurfaceReport :=
  let suiteId := effectiveSuite negotiatedSuite
  surfaceFrom "dm" "skchat (DmRatchet)" suiteId (dmNote suiteId ratchetLevel epoch peer)

/-- The kind of conversation a surface describes. -/
inductive ConversationKind where
  | dm
  | envelope
deriving DecidableEq, Repr

/-- The surface and the component of a conversation. -/
def ConversationKind.surface : ConversationKind → String × String
  | envelope => ("envelope-payload", "skcomms (EnvelopeCrypto)")
  | dm => ("dm", "skchat (ChatCrypto)")

/-- Conversation note over the hybrid KEM. -/
def conversationHybridNote (upper peer : String) : String :=
  upper ++ " conversation" ++ who peer ++ " negotiated the hybrid KEM: the " ++
    "body symmetric key is wrapped via X25519+ML-KEM-768 (PQXDH-style " ++
    "signed prekey) and AES-256-GCM seals the body. Negotiated suite is " ++
    "bound into the AEAD AAD (downgrade-lock). HNDL-resistant."

/-- Conversation note over the classical wrap. -/
def conversationClassicalNote (upper peer : String) : String :=
  upper ++ " conversation" ++ who peer ++ " on the CLASSICAL PGP key-wrap " ++
    "(HNDL-exposed). Either the peer advertised no hybrid prekey or a " ++
    "downgrade occurred — recorded honestly. Hybrid engages only when " ++
    "both sides advertise a hybrid prekey."

/-- The note of a conversation report. -/
def conversationNote (suiteId surface peer : String) : String :=
  let resolved := resolveSuite suiteId
  let upper := asciiUppercase surface
  if resolved.quantumResistant then conversationHybridNote upper peer
  else conversationClassicalNote upper peer

/-- Build the surface report of a conversation. -/
def conversationSurfaceFor (negotiatedSuite : String) (kind : ConversationKind)
    (peer : String) : Outcome ε SurfaceReport :=
  let suiteId := effectiveSuite negotiatedSuite
  let (surface, component) := kind.surface
  surfaceFrom surface component suiteId (conversationNote suiteId surface peer)

/-! ## What a builder reads from the registry -/

theorem resolveSuite_status (suiteId : String) :
    (resolveSuite suiteId).status = Registry.seeded.suiteStatus suiteId := by
  rw [resolveSuite, Registry.suiteStatus]
  cases Registry.seeded.getSuite suiteId <;> rfl

theorem resolveSuite_quantumResistant (suiteId : String) :
    (resolveSuite suiteId).quantumResistant =
      (Registry.seeded.suiteStatus suiteId).isQuantumResistant := by
  rw [resolveSuite, Registry.suiteStatus]
  cases Registry.seeded.getSuite suiteId <;> rfl

/-- The flag and the status of a report have one source. -/
theorem quantumResistant_of_classical {suiteId : String}
    (h : (resolveSuite suiteId).status.asStr = "classical") :
    (resolveSuite suiteId).quantumResistant = false := by
  have hclassical : (resolveSuite suiteId).status = .classical := SuiteStatus.asStr_injective h
  rw [resolveSuite_quantumResistant, ← resolveSuite_status, hclassical]
  rfl

/-- So the second assertion of the backstop never fires. -/
theorem surfaceFrom_eq (surface component suiteId note : String) :
    (surfaceFrom surface component suiteId note : Outcome ε SurfaceReport) =
      if isHonestNote note then
        .ok ((resolveSuite suiteId).report surface component suiteId note)
      else .panic := by
  unfold surfaceFrom SurfaceReport.assertHonest
  by_cases hnote : isHonestNote note
  · by_cases hstatus : (resolveSuite suiteId).status.asStr = "classical"
    · simp [Resolved.report, hnote, hstatus, quantumResistant_of_classical hstatus]
    · simp [Resolved.report, hnote, hstatus]
  · simp [Resolved.report, hnote]

end Report
end SkPqc
