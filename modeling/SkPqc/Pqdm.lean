import SkPqc.Kem
import SkPqc.Foundations.Json
import Std.Data.ExtTreeMap

/-!
# Hybrid message sealing

This module embeds `pqdm.rs`: the wrap that seals a message body to a hybrid
public key under the downgrade-lock AAD, a JSON text that names the negotiated
suite and the two parties.

The three strings may hold any characters, quotes and braces included.  That
nobody can shift text from one of them into another is the injectivity of the
AAD, and the lock rests on it.

Main results:

- Theorem `head_isPrefixCode`: the JSON head determines the suite and the
  parties, whatever follows it.
- Theorem `downgradeLockAad_eq_iff`: the AAD determines the extra bytes too.
- Theorems `seal_ne_panic` and `openSealed_ne_panic`: no input makes a seal or
  an open panic.
- Theorem `downgrade_lock`: a sealed blob opens under exactly the suite and the
  parties it was sealed for.
-/

namespace SkPqc
namespace Pqdm

open Rust Kem Json PrefixCode

/-! ## Interop constants -/

def hybridSuite : String := "x25519-mlkem768"

/-- The suite of a peer that advertises no hybrid prekey. -/
def classicalSuite : String := "x25519-pgp-wrap-v1"

/-- HKDF label of the wrap key. -/
def infoWrap : Bytes := byteLit "skcomms/pqdm/wrap/v1"

abbrev wrapNonceLen : Nat := 12
abbrev aesgcmTagLen : Nat := 16
abbrev sealedMinLen : Nat := ciphertextLen + wrapNonceLen + aesgcmTagLen

/-- Errors of hybrid sealing. -/
inductive PqDmError where
  | format (msg : String)
  | downgradeDetected (msg : String)
  | kem (e : KemError)
deriving DecidableEq, Repr

/-- What `seal` draws from `OsRng`. -/
structure SealDraws where
  encap : EncapDraws
  nonce : ByteBlock wrapNonceLen

/-! ## The functions of the module -/

variable {φ : Type} (P : Primitives) (S : Serde φ)

/-- The AAD that binds the negotiated suite and the parties. -/
def downgradeLockAad {ε : Type} (negotiatedSuite sender recipient : String)
    (extra : Option Bytes) : Outcome ε Bytes := do
  let map : Std.ExtTreeMap String (Value φ) := ∅
  let map := map.insert "v" (.number (.posInt 1))
  let map := map.insert "negotiated_suite" (.string negotiatedSuite)
  let map := map.insert "sender" (.string sender)
  let map := map.insert "recipient" (.string recipient)
  let head ← Outcome.unwrap (S.toVec map.toList)
  match extra with
  | some extra => pure (head ++ extra)
  | none => pure head

/-- Derive the wrap key from the hybrid shared secret and the AAD. -/
def wrapKey {ε : Type} (shared aad : Bytes) : Outcome ε (ByteBlock 32) :=
  P.hkdfExpand [] shared (infoWrap ++ byteLit "|" ++ aad) 32

/-- Hybrid-seal a body to a recipient's public key. -/
def «seal» (plaintext recipientHybridPub : Bytes) (sender recipient : String)
    (draws : SealDraws) : Outcome PqDmError Bytes :=
  if recipientHybridPub.length ≠ publicKeyLen then
    .err (.format
      s!"hybrid public key must be {publicKeyLen} bytes, got {recipientHybridPub.length}")
  else do
    let aad ← downgradeLockAad S hybridSuite sender recipient none
    let (ciphertext, shared) ← (hybridEncap P recipientHybridPub draws.encap).mapErr .kem
    let key ← wrapKey P shared.toList aad
    let body ← P.aes256GcmEncrypt key.toList draws.nonce.toList aad plaintext
    let body ← Outcome.okOr (.format "AES-256-GCM encryption failed") body
    pure (ciphertext ++ draws.nonce.toList ++ body)

/-- The text of a failed open.  `debugStr` is the `{:?}` of a string. -/
def downgradeText (debugStr : String → String) (expectedSuite : String) : String :=
  "hybrid-sealed open failed — wrong key, tampered ciphertext, or a " ++
    s!"suite-downgrade attempt (AAD bound suite={debugStr expectedSuite})"

/-- Open a hybrid-sealed blob with the recipient's private key. -/
def openSealed (debugStr : String → String) (blob hybridPrivate : Bytes)
    (sender recipient expectedSuite : String) : Outcome PqDmError Bytes :=
  if blob.length < sealedMinLen then
    .err (.format s!"sealed blob must be >= {sealedMinLen} bytes, got {blob.length}")
  else do
    let ciphertext ← slice blob 0 ciphertextLen
    let nonceBytes ← slice blob ciphertextLen (ciphertextLen + wrapNonceLen)
    let body ← slice blob (ciphertextLen + wrapNonceLen) blob.length
    let aad ← downgradeLockAad S expectedSuite sender recipient none
    let shared ← (hybridDecap P ciphertext hybridPrivate).mapErr .kem
    let key ← wrapKey P shared.toList aad
    let opened ← P.aes256GcmDecrypt key.toList nonceBytes aad body
    Outcome.okOr (.downgradeDetected (downgradeText debugStr expectedSuite)) opened

/-! ## The AAD -/

/-- What the AAD binds. -/
@[ext]
structure Transcript where
  negotiatedSuite : String
  sender : String
  recipient : String
deriving DecidableEq

/-- The JSON head of the AAD. -/
def Transcript.head (t : Transcript) : Bytes :=
  byteLit "\x7b\"negotiated_suite\":" ++ quoted t.negotiatedSuite ++
    byteLit ",\"recipient\":" ++ quoted t.recipient ++
    byteLit ",\"sender\":" ++ quoted t.sender ++ byteLit ",\"v\":1\x7d"

/-- The members of the map, in the order in which it lists them. -/
def Transcript.members (t : Transcript) : List (String × Value φ) :=
  [("negotiated_suite", .string t.negotiatedSuite), ("recipient", .string t.recipient),
    ("sender", .string t.sender), ("v", .number (.posInt 1))]

theorem compact_members [F64 φ] (t : Transcript) :
    compact (.object (t.members : List (String × Value φ))) = t.head := by
  have hsuite : quoted "negotiated_suite" = byteLit "\"negotiated_suite\"" := by decide
  have hrecipient : quoted "recipient" = byteLit "\"recipient\"" := by decide
  have hsender : quoted "sender" = byteLit "\"sender\"" := by decide
  have hv : quoted "v" = byteLit "\"v\"" := by decide
  have hone : utf8 (Number.display (.posInt 1 : Number φ)) = byteLit "1" := by
    change utf8 (toString (1 : UInt64)) = byteLit "1"
    decide
  simp [compact, compactMembers, Transcript.members, Transcript.head, hsuite, hrecipient,
    hsender, hv, hone, byteLit]

/-- The AAD is the head of its transcript, followed by the extra bytes. -/
theorem downgradeLockAad_eq [F64 φ] {S : Serde φ} (serde : S.Laws) {ε : Type} (t : Transcript)
    (extra : Option Bytes) :
    (downgradeLockAad S t.negotiatedSuite t.sender t.recipient extra : Outcome ε Bytes) =
      .ok (t.head ++ extra.getD []) := by
  have hvec : S.toVec (t.members : List (String × Value φ)) = some t.head := by
    rw [serde.toVec_eq, compact_members]
  have haad : (downgradeLockAad S t.negotiatedSuite t.sender t.recipient extra : Outcome ε Bytes) =
      (Outcome.unwrap (S.toVec t.members) >>= fun head =>
        match extra with
        | some extra => pure (head ++ extra)
        | none => pure head) := rfl
  rw [haad, hvec]
  cases extra with
  | none => simp
  | some extra => simp

-- The vector that the tests of the source pin.
example : (downgradeLockAad (Serde.documented Int) hybridSuite "a" "b" none :
    Outcome PqDmError Bytes) = .ok (byteLit ("\x7b\"negotiated_suite\":\"x25519-mlkem768\"," ++
      "\"recipient\":\"b\",\"sender\":\"a\",\"v\":1\x7d")) := by
  decide +kernel

/-- The AAD of a seal or an open is the head alone. -/
theorem downgradeLockAad_none [F64 φ] {S : Serde φ} (serde : S.Laws) (ε : Type) (t : Transcript) :
    (downgradeLockAad S t.negotiatedSuite t.sender t.recipient none : Outcome ε Bytes) =
      .ok t.head := by
  rw [downgradeLockAad_eq serde, Option.getD_none, List.append_nil]

/-- The head determines its transcript, whatever follows it. -/
theorem head_isPrefixCode : IsPrefixCode Transcript.head := by
  rintro t u ⟨r, hr⟩
  simp only [Transcript.head, List.append_assoc] at hr
  rcases quoted_isPrefixCode.split (List.append_cancel_left hr) with ⟨hsuite, hr⟩
  rcases quoted_isPrefixCode.split (List.append_cancel_left hr) with ⟨hrecipient, hr⟩
  rcases quoted_isPrefixCode.split (List.append_cancel_left hr) with ⟨hsender, -⟩
  exact Transcript.ext hsuite hsender hrecipient

/-- The AAD is uniquely decodable, extra bytes included; no extra bytes are the
same as empty ones. -/
theorem downgradeLockAad_eq_iff [F64 φ] {S : Serde φ} (serde : S.Laws) {ε : Type}
    (suite sender recipient suite' sender' recipient' : String) (extra extra' : Option Bytes) :
    (downgradeLockAad S suite sender recipient extra : Outcome ε Bytes) =
        downgradeLockAad S suite' sender' recipient' extra' ↔
      suite = suite' ∧ sender = sender' ∧ recipient = recipient' ∧
        extra.getD [] = extra'.getD [] := by
  have haad := downgradeLockAad_eq serde (ε := ε) ⟨suite, sender, recipient⟩ extra
  have haad' := downgradeLockAad_eq serde (ε := ε) ⟨suite', sender', recipient'⟩ extra'
  rw [haad, haad', Outcome.ok.injEq]
  constructor
  · intro h
    rcases head_isPrefixCode.split h with ⟨htranscript, hextra⟩
    cases htranscript
    exact ⟨rfl, rfl, rfl, hextra⟩
  · rintro ⟨rfl, rfl, rfl, hextra⟩
    rw [hextra]

/-- A sender named like the end of the head is not confused with extra bytes
that read the same: without the escaped quote the two AADs would be one text. -/
theorem imitated_head_ne :
    (downgradeLockAad (Serde.documented Int) hybridSuite "a" "b"
        (some (byteLit "\",\"v\":1\x7d")) : Outcome PqDmError Bytes) ≠
      downgradeLockAad (Serde.documented Int) hybridSuite "a\",\"v\":1\x7d" "b" none := by
  intro h
  have hsame := (downgradeLockAad_eq_iff (Serde.documented_laws Int) _ _ _ _ _ _ _ _).mp h
  exact absurd hsame.2.1 (by decide)

/-! ## Sealing and opening -/

/-- The wrap key of a shared secret and an AAD. -/
def derivedKey (shared aad : Bytes) : ByteBlock 32 :=
  P.hkdfSha256 [] shared (infoWrap ++ byteLit "|" ++ aad) 32

theorem wrapKey_eq {ε : Type} (shared aad : Bytes) :
    (wrapKey P shared aad : Outcome ε _) = .ok (derivedKey P shared aad) :=
  P.hkdfExpand_32 _ _ _

section Blob

variable [F64 φ] {P S}

/-- What a seal that returned has put into the blob. -/
theorem exists_of_seal_eq_ok (serde : S.Laws) {plaintext recipientHybridPub blob : Bytes}
    {sender recipient : String} {draws : SealDraws}
    (h : Pqdm.seal P S plaintext recipientHybridPub sender recipient draws = .ok blob) :
    ∃ ciphertext shared body,
      hybridEncap P recipientHybridPub draws.encap = .ok (ciphertext, shared) ∧
      P.aesGcmEncrypt
        (derivedKey P shared.toList (Transcript.head ⟨hybridSuite, sender, recipient⟩))
        draws.nonce (Transcript.head ⟨hybridSuite, sender, recipient⟩) plaintext = some body ∧
      blob = ciphertext ++ draws.nonce.toList ++ body := by
  have haad := downgradeLockAad_none serde PqDmError ⟨hybridSuite, sender, recipient⟩
  unfold Pqdm.seal at h
  rw [Outcome.guard_eq_ok_iff, haad, Outcome.ok_bind, Outcome.bind_eq_ok_iff] at h
  rcases h with ⟨-, ⟨ciphertext, shared⟩, hencap, h⟩
  simp only [wrapKey_eq, Outcome.ok_bind, Primitives.aes256GcmEncrypt_toList] at h
  rw [Outcome.bind_eq_ok_iff] at h
  rcases h with ⟨body, hbody, h⟩
  cases h
  refine ⟨ciphertext, shared, body, Outcome.mapErr_eq_ok_iff.mp hencap, ?_, rfl⟩
  exact Outcome.okOr_eq_ok_iff.mp hbody

variable (P) in
/-- Opening a blob given by its three fields. -/
theorem openSealed_append (serde : S.Laws) {ciphertext body : Bytes}
    (hciphertext : ciphertext.length = ciphertextLen) (hbody : aesgcmTagLen ≤ body.length)
    (nonce : ByteBlock wrapNonceLen) (debugStr : String → String) (hybridPrivate : Bytes)
    (t : Transcript) :
    openSealed P S debugStr (ciphertext ++ nonce.toList ++ body) hybridPrivate t.sender
        t.recipient t.negotiatedSuite =
      ((hybridDecap P ciphertext hybridPrivate).mapErr .kem >>= fun shared =>
        Outcome.okOr (.downgradeDetected (downgradeText debugStr t.negotiatedSuite))
          (P.aesGcmDecrypt (derivedKey P shared.toList t.head) nonce t.head body)) := by
  have haad := downgradeLockAad_none serde PqDmError t
  have hlen : (ciphertext ++ nonce.toList ++ body).length =
      ciphertextLen + wrapNonceLen + body.length := by
    rw [List.length_append, List.length_append, hciphertext, List.Vector.toList_length]
  have hmin : ¬ (ciphertext ++ nonce.toList ++ body).length < sealedMinLen := by
    rw [hlen]
    exact Nat.not_lt.mpr (Nat.add_le_add_left hbody _)
  unfold openSealed
  rw [if_neg hmin, List.append_assoc, slice_append_left hciphertext,
    ← List.append_assoc, slice_append_middle hciphertext (by simp),
    slice_append_right (by simp [hciphertext]) (by rw [hlen])]
  simp only [Outcome.ok_bind, haad, wrapKey_eq, Primitives.aes256GcmDecrypt_toList]

/-- A blob of at least the minimum length has its three fields. -/
theorem exists_fields {blob : Bytes} (h : sealedMinLen ≤ blob.length) :
    ∃ (ciphertext : Bytes) (nonce : ByteBlock wrapNonceLen) (body : Bytes),
      ciphertext.length = ciphertextLen ∧ aesgcmTagLen ≤ body.length ∧
        blob = ciphertext ++ nonce.toList ++ body := by
  have hfront : (blob.take (ciphertextLen + wrapNonceLen)).length =
      ciphertextLen + wrapNonceLen := by
    rw [List.length_take]
    exact Nat.min_eq_left (le_trans (Nat.le_add_right _ _) h)
  rcases exists_blocks hfront with ⟨ciphertext, nonce, hsplit⟩
  refine ⟨ciphertext.toList, nonce, blob.drop (ciphertextLen + wrapNonceLen), by simp, ?_, ?_⟩
  · rw [List.length_drop]
    exact Nat.le_sub_of_add_le' h
  · rw [← hsplit, List.take_append_drop]

/-- No key and no randomness make a seal panic. -/
theorem seal_ne_panic (serde : S.Laws) (plaintext recipientHybridPub : Bytes)
    (sender recipient : String) (draws : SealDraws) :
    Pqdm.seal P S plaintext recipientHybridPub sender recipient draws ≠ .panic := by
  have haad := downgradeLockAad_none serde PqDmError ⟨hybridSuite, sender, recipient⟩
  unfold Pqdm.seal
  rw [Outcome.guard_ne_panic_iff]
  intro _
  rw [haad, Outcome.ok_bind, Outcome.bind_ne_panic_iff, ne_eq, Outcome.mapErr_eq_panic_iff]
  refine ⟨hybridEncap_ne_panic P _ _, fun pair _ => ?_⟩
  simp only [wrapKey_eq, Outcome.ok_bind, Primitives.aes256GcmEncrypt_toList]
  rw [Outcome.bind_ne_panic_iff]
  exact ⟨Outcome.okOr_ne_panic _ _, by simp⟩

/-- No blob, no key and no party names make an open panic. -/
theorem openSealed_ne_panic (serde : S.Laws) (debugStr : String → String)
    (blob hybridPrivate : Bytes) (sender recipient expectedSuite : String) :
    openSealed P S debugStr blob hybridPrivate sender recipient expectedSuite ≠ .panic := by
  by_cases hshort : blob.length < sealedMinLen
  · simp [openSealed, hshort]
  · rcases exists_fields (Nat.le_of_not_lt hshort) with ⟨ciphertext, nonce, body, hct, htag, rfl⟩
    rw [openSealed_append P serde hct htag nonce debugStr hybridPrivate
      ⟨expectedSuite, sender, recipient⟩, Outcome.bind_ne_panic_iff, ne_eq,
      Outcome.mapErr_eq_panic_iff]
    exact ⟨hybridDecap_ne_panic P _ _, fun shared _ => Outcome.okOr_ne_panic _ _⟩

/-- A sealed blob opens under the suite and the parties it was sealed for, and
every other choice of the three is a detected downgrade. -/
theorem downgrade_lock (kem : P.KemLaws) (aead : P.AeadLaws) (serde : S.Laws)
    {keys : KeypairDraws} {draws : SealDraws} {plaintext blob : Bytes} {s r : String}
    (hseal : Pqdm.seal P S plaintext (hybridKeypair P keys).publicKey s r draws = .ok blob)
    (hideal : P.IdealBody plaintext (blob.drop (ciphertextLen + wrapNonceLen)))
    (debugStr : String → String) (s' r' suite' : String) :
    (s' = s ∧ r' = r ∧ suite' = hybridSuite →
      openSealed P S debugStr blob (hybridKeypair P keys).privateKey s' r' suite' =
        .ok plaintext) ∧
    (¬ (s' = s ∧ r' = r ∧ suite' = hybridSuite) →
      ∃ msg, openSealed P S debugStr blob (hybridKeypair P keys).privateKey s' r' suite' =
        .err (.downgradeDetected msg)) := by
  rcases exists_of_seal_eq_ok serde hseal with ⟨ciphertext, shared, body, hencap, hbody, rfl⟩
  have hciphertext := length_of_hybridEncap P hencap
  have hdecap := hybridDecap_hybridEncap kem hencap
  have htag : aesgcmTagLen ≤ body.length := by
    rw [aead.length_encrypt _ _ _ _ _ hbody]
    exact Nat.le_add_left _ _
  have hopen := openSealed_append P serde hciphertext htag draws.nonce debugStr
    (hybridKeypair P keys).privateKey ⟨suite', s', r'⟩
  rw [hdecap, Outcome.mapErr_ok, Outcome.ok_bind] at hopen
  rw [List.drop_left' (by simp [hciphertext])] at hideal
  constructor
  · rintro ⟨rfl, rfl, rfl⟩
    rw [hopen, aead.decrypt_encrypt _ _ _ _ _ hbody, Outcome.okOr_some]
  · intro hother
    refine ⟨downgradeText debugStr suite', ?_⟩
    rw [hopen]
    cases hplain : P.aesGcmDecrypt (derivedKey P shared.toList (Transcript.head ⟨suite', s', r'⟩))
        draws.nonce (Transcript.head ⟨suite', s', r'⟩) body with
    | none => rfl
    | some plain =>
        rcases hideal _ _ _ hbody _ _ _ _ hplain with ⟨-, -, haad⟩
        cases head_isPrefixCode.injective haad
        exact absurd ⟨rfl, rfl, rfl⟩ hother

end Blob

/-! ## A sample blob -/

namespace Sample

def keys : KeypairDraws := ⟨List.Vector.replicate 32 7, List.Vector.replicate 64 7⟩

def draws : SealDraws where
  encap := ⟨List.Vector.replicate 32 7, List.Vector.replicate 32 7⟩
  nonce := List.Vector.replicate 12 7

/-- The AEAD seals once, from `alice` to `bob`. -/
def primitives : Primitives :=
  Primitives.tagged (Primitives.onlyTag (List.Vector.replicate 32 14)
    (List.Vector.replicate 12 7) (Transcript.head ⟨hybridSuite, "alice", "bob"⟩))

def serde : Serde Int := Serde.documented Int

def sealed : Outcome PqDmError Bytes :=
  Pqdm.seal primitives serde [104, 105] (hybridKeypair primitives keys).publicKey "alice" "bob"
    draws

def blob : Bytes :=
  match sealed with
  | .ok blob => blob
  | _ => []

/-- The `{:?}` of a string without special characters. -/
def debugStr (s : String) : String := "\"" ++ s ++ "\""

/-- What the recipient gets for a sender and a suite of its choice. -/
def opened (sender suite : String) : Outcome PqDmError Bytes :=
  openSealed primitives serde debugStr blob (hybridKeypair primitives keys).privateKey sender
    "bob" suite

end Sample

/-- The sample opens as it was sealed, and under no other sender or suite. -/
theorem downgrade_lock_sample :
    Sample.opened "alice" hybridSuite = .ok [104, 105] ∧
      (∃ msg, Sample.opened "alice" classicalSuite = .err (.downgradeDetected msg)) ∧
      (∃ msg, Sample.opened "alice\",\"v\":1\x7d" hybridSuite = .err (.downgradeDetected msg)) := by
  have hseal : Sample.sealed = .ok Sample.blob := by decide +kernel
  have hbody : List.replicate 16 1 <:+ Sample.blob.drop (ciphertextLen + wrapNonceLen) := by
    decide +kernel
  have kem : Sample.primitives.KemLaws := Primitives.tagged_kemLaws _
  have aead : Sample.primitives.AeadLaws := Primitives.tagged_aeadLaws _
  have serde : Sample.serde.Laws := Serde.documented_laws Int
  have hideal : Sample.primitives.IdealBody [104, 105]
      (Sample.blob.drop (ciphertextLen + wrapNonceLen)) :=
    Primitives.onlyTag_idealBody _ hbody
  have hlock := downgrade_lock kem aead serde hseal hideal Sample.debugStr
  refine ⟨?_, ?_, ?_⟩
  · exact (hlock "alice" "bob" hybridSuite).1 ⟨rfl, rfl, rfl⟩
  · exact (hlock "alice" "bob" classicalSuite).2 (by decide)
  · exact (hlock "alice\",\"v\":1\x7d" "bob" hybridSuite).2 (by decide)

end Pqdm
end SkPqc
