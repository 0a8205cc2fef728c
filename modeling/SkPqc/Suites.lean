import Std.Data.ExtTreeMap
import Mathlib.Tactic.Common

/-!
# The cipher-suite registry

This module embeds the lookup side of `suites.rs`: what a suite id means and
whether it is quantum-resistant.  The process-wide registry is seeded once and
never written, so it is the constant `Registry.seeded`.

Main results:

- Theorem `getSuite_register`: a lookup after a registration.
- Theorem `getSuite_seeded`: the seeded registry knows three suites.
- Theorem `suiteStatus_seeded`: what it says of every id, known or not.
-/

namespace SkPqc

/-- What a suite does. -/
inductive SuiteKind where
  | kem
  | sig
  | aead
deriving DecidableEq, Repr

/-- Quantum-resistance posture of a suite. -/
inductive SuiteStatus where
  | classical
  | hybridPq
  | pq
  | symmetric
deriving DecidableEq, Repr

namespace SuiteStatus

/-- The canonical wire string. -/
def asStr : SuiteStatus → String
  | classical => "classical"
  | hybridPq => "hybrid-pq"
  | pq => "pq"
  | symmetric => "symmetric"

/-- Parse a wire string; unknown strings are classical. -/
def fromWire : String → SuiteStatus
  | "hybrid-pq" => hybridPq
  | "pq" => pq
  | "symmetric" => symmetric
  | _ => classical

def isQuantumResistant : SuiteStatus → Bool
  | hybridPq | pq | symmetric => true
  | classical => false

theorem fromWire_asStr (s : SuiteStatus) : fromWire s.asStr = s := by
  cases s <;> rfl

theorem asStr_injective : Function.Injective asStr := by
  intro s t h
  rw [← fromWire_asStr s, h, fromWire_asStr]

end SuiteStatus

/-- A registered cipher suite. -/
structure CryptoSuite where
  suiteId : String
  kind : SuiteKind
  status : SuiteStatus
  primitives : List String
  fipsRefs : List String
  description : String
  active : Bool
  replaces : Option String
deriving DecidableEq, Repr

namespace CryptoSuite

def new (suiteId : String) (kind : SuiteKind) (status : SuiteStatus) (primitives : List String)
    (fipsRefs : List String) (description : String) (active : Bool) : CryptoSuite where
  suiteId := suiteId
  kind := kind
  status := status
  primitives := primitives
  fipsRefs := fipsRefs
  description := description
  active := active
  replaces := none

/-- Mark the suite as the migration target for another one. -/
def replacing (s : CryptoSuite) (suiteId : String) : CryptoSuite :=
  { s with replaces := some suiteId }

def isQuantumResistant (s : CryptoSuite) : Bool := s.status.isQuantumResistant

end CryptoSuite

/-- Suites by id. -/
structure Registry where
  byId : Std.ExtTreeMap String CryptoSuite

namespace Registry

def empty : Registry := ⟨∅⟩

/-- Register a suite; the last write wins. -/
def register (r : Registry) (suite : CryptoSuite) : Registry :=
  ⟨r.byId.insert suite.suiteId suite⟩

def getSuite (r : Registry) (suiteId : String) : Option CryptoSuite := r.byId[suiteId]?

/-- Classical X25519 key-wrap. -/
def pgpWrap : CryptoSuite :=
  .new "x25519-pgp-wrap-v1" .kem .classical
    ["X25519 (Curve25519) PGP key-wrap", "AES-256 session key"]
    ["RFC 7748", "RFC 9580"]
    ("Classical X25519 PGP key-wrap of an AES-256 session key " ++
      "(skcomms envelope payload / DM wrap today).")
    true

/-- The bulk cipher. -/
def aesGcm : CryptoSuite :=
  .new "aes256-gcm-v1" .aead .symmetric
    ["AES-256-GCM", "HKDF-SHA256"]
    ["FIPS 197", "SP 800-38D", "SP 800-108"]
    ("AES-256-GCM bulk cipher — Grover-only (~128-bit), " ++
      "quantum-acceptable. Do not migrate.")
    true

/-- The hybrid KEM. -/
def mlkemHybrid : CryptoSuite :=
  (CryptoSuite.new "x25519-mlkem768" .kem .hybridPq
    ["X25519 (ephemeral-static DHKEM)", "ML-KEM-768 (FIPS 203, liboqs)",
      "HKDF-SHA256 concat-KDF combiner"]
    ["FIPS 203", "RFC 7748", "RFC 5869"]
    ("LIVE hybrid X25519 || ML-KEM-768 key-encapsulation primitive " ++
      "(sk_pqc::kem). Secret unless BOTH primitives break. " ++
      "Cross-impl interoperable with sk_pqc (Dart) and skcomms.pqkem.")
    true).replacing "x25519-pgp-wrap-v1"

/-- The canonical suites. -/
def seeded : Registry :=
  ((empty.register pgpWrap).register aesGcm).register mlkemHybrid

/-- The status of a suite id; unknown ids are classical. -/
def suiteStatus (r : Registry) (suiteId : String) : SuiteStatus :=
  ((r.getSuite suiteId).map CryptoSuite.status).getD .classical

def isQuantumResistant (r : Registry) (suiteId : String) : Bool :=
  ((r.getSuite suiteId).map CryptoSuite.isQuantumResistant).getD false

/-! ## Lookups -/

@[simp] theorem getSuite_empty (suiteId : String) : empty.getSuite suiteId = none :=
  Std.ExtTreeMap.getElem?_empty

/-- A lookup finds the suite registered last, or what was there before. -/
theorem getSuite_register (r : Registry) (suite : CryptoSuite) (suiteId : String) :
    (r.register suite).getSuite suiteId =
      if suiteId = suite.suiteId then some suite else r.getSuite suiteId := by
  simp only [getSuite, register, Std.ExtTreeMap.getElem?_insert,
    Std.LawfulEqOrd.compare_eq_iff_eq, eq_comm (a := suite.suiteId)]

/-- The seeded registry knows three suites. -/
theorem getSuite_seeded (suiteId : String) :
    seeded.getSuite suiteId =
      if suiteId = "x25519-mlkem768" then some mlkemHybrid
      else if suiteId = "aes256-gcm-v1" then some aesGcm
      else if suiteId = "x25519-pgp-wrap-v1" then some pgpWrap
      else none := by
  rw [seeded, getSuite_register, getSuite_register, getSuite_register, getSuite_empty]
  rfl

/-- The status of an id in the seeded registry. -/
theorem suiteStatus_seeded (suiteId : String) :
    seeded.suiteStatus suiteId =
      if suiteId = "x25519-mlkem768" then .hybridPq
      else if suiteId = "aes256-gcm-v1" then .symmetric
      else .classical := by
  rw [suiteStatus, getSuite_seeded]
  split
  · rfl
  · split
    · rfl
    · split <;> rfl

/-- The two lookups agree: an id is quantum-resistant when its status is. -/
theorem isQuantumResistant_eq (r : Registry) (suiteId : String) :
    r.isQuantumResistant suiteId = (r.suiteStatus suiteId).isQuantumResistant := by
  rw [isQuantumResistant, suiteStatus]
  cases r.getSuite suiteId <;> rfl

end Registry
end SkPqc
