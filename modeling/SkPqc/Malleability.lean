import SkPqc.Pqdm
import SkPqc.IdealPrimitives

/-!
# Modified blobs

A sealed blob is an X25519 public value, an ML-KEM ciphertext, a nonce and an
AEAD body.  The body and the nonce are protected by the AEAD, the ML-KEM
ciphertext by its secret.  The X25519 value is bound only through the secret of
the exchange, and several byte strings stand for one value: RFC 7748 ignores
the top bit.

Whoever has the public key can seal blobs of their own.  The AEAD keeps a log of
all its sealings, and a body opens only where the log has it.

Main results:

- Theorem `open_of_leadsTo`: a blob that leads to a record of the log opens to
  the message of the record.
- Theorem `modified_blob_refused_iff`: with ideal primitives, a blob is refused
  exactly unless it is that of another sealing, or differs from the sealed one
  in the X25519 value only and leads to the same X25519 secret.
- Theorem `flipped_top_bit_opens`: flipping the top bit of the X25519 value is
  such a difference.
-/

namespace SkPqc
namespace Pqdm

open Rust Kem Json Primitives

/-! ## What a seal has computed -/

/-- The secrets of a seal, its ML-KEM ciphertext and its body. -/
structure SealParts (P : Primitives) (keys : KeypairDraws) (draws : SealDraws) (t : Transcript)
    (plaintext blob : Bytes) (xSs mlkemSs : ByteBlock 32) (ct : ByteBlock 1088)
    (body : Bytes) : Prop where
  exchanged : P.diffieHellman draws.encap.xEph (P.x25519Public keys.xSeed) = xSs
  encapsulated : P.mlkemEncapsulate (P.mlkemGenerate keys.mlkemSeed).2 draws.encap.coins =
    some (ct, mlkemSs)
  sealed : P.aesGcmEncrypt (derivedKey P (sharedSecret P xSs mlkemSs).toList t.head) draws.nonce
    t.head plaintext = some body
  layout : blob = (P.x25519Public draws.encap.xEph).toList ++ ct.toList ++ draws.nonce.toList ++
    body

/-- The AEAD's record of a seal. -/
def sealRecord (P : Primitives) (draws : SealDraws) (t : Transcript) (xSs mlkemSs : ByteBlock 32)
    (body : Bytes) : SealRecord :=
  ⟨⟨derivedKey P (sharedSecret P xSs mlkemSs).toList t.head, draws.nonce, t.head⟩, body⟩

/-- The primitives are ideal towards the parts of a seal; the AEAD, which has also
made the sealings of `others`, is handed `body'`. -/
structure IdealSeal (P : Primitives) (keys : KeypairDraws) (draws : SealDraws) (t : Transcript)
    (xSs mlkemSs : ByteBlock 32) (ct : ByteBlock 1088) (body : Bytes) (others : List SealRecord)
    (body' : Bytes) : Prop where
  mlkem : P.EncapsulationUnique (P.mlkemGenerate keys.mlkemSeed).1 ct
  combiner : P.KdfUnique [] (xSs.toList ++ mlkemSs.toList) hkdfInfo
  wrap : P.KdfUnique [] (sharedSecret P xSs mlkemSs).toList (infoWrap ++ byteLit "|" ++ t.head)
  aead : P.OpensOnlyLogged (sealRecord P draws t xSs mlkemSs body :: others) body'

/-- The private key leads from a ciphertext, a nonce and a body to this record: it
has the nonce and the body, and the key derived from the shared secret. -/
def LeadsTo (P : Primitives) (keys : KeypairDraws) (key : ByteBlock sharedSecretLen → ByteBlock 32)
    (aad part : Bytes) (e : SealRecord) : Prop :=
  ∃ ciphertext shared, ciphertext.length = ciphertextLen ∧
    hybridDecap P ciphertext (hybridKeypair P keys).privateKey = .ok shared ∧
    part = ciphertext ++ e.nonce.toList ++ e.body ∧ e.key = key shared ∧ e.aad = aad

/-- A blob that leads to the record, opened for the parties and the suite. -/
def BlobLeadsTo (P : Primitives) (keys : KeypairDraws) (t : Transcript) (blob : Bytes)
    (e : SealRecord) : Prop :=
  LeadsTo P keys (fun shared => derivedKey P shared.toList t.head) t.head blob e

/-- The blobs differ at most in their X25519 values, and the private key computes
one X25519 secret from both. -/
def SameExchange (P : Primitives) (xSeed : ByteBlock 32) (blob blob' : Bytes) : Prop :=
  ∃ (u u' : ByteBlock 32) (rest : Bytes), blob = u.toList ++ rest ∧ blob' = u'.toList ++ rest ∧
    P.diffieHellman xSeed u' = P.diffieHellman xSeed u

section Modified

variable {φ : Type} [F64 φ] {P : Primitives} {S : Serde φ}
  {keys : KeypairDraws} {draws : SealDraws} {plaintext blob : Bytes} {s r : String}

/-- A seal that returned has all its parts. -/
theorem exists_sealParts (serde : S.Laws)
    (hseal : Pqdm.seal P S plaintext (hybridKeypair P keys).publicKey s r draws = .ok blob) :
    ∃ xSs mlkemSs ct body,
      SealParts P keys draws ⟨hybridSuite, s, r⟩ plaintext blob xSs mlkemSs ct body := by
  rcases exists_of_seal_eq_ok serde hseal with ⟨ciphertext, shared, body, hencap, hbody, rfl⟩
  rcases exists_parts_of_hybridEncap hencap with ⟨ct, mlkemSs, hct, rfl, rfl⟩
  exact ⟨_, mlkemSs, ct, body, rfl, hct, hbody, rfl⟩

variable {t : Transcript} {xSs mlkemSs : ByteBlock 32} {ct : ByteBlock 1088} {body : Bytes}

/-- The body of a seal carries a tag. -/
theorem SealParts.tagLen_le (aead : P.AeadLaws)
    (h : SealParts P keys draws t plaintext blob xSs mlkemSs ct body) :
    aesgcmTagLen ≤ body.length := by
  rw [aead.length_encrypt _ _ _ _ _ h.sealed]
  exact Nat.le_add_left _ _

/-- Both ends of the exchange have the secret of the seal. -/
theorem SealParts.diffieHellman_eq (kem : P.KemLaws)
    (h : SealParts P keys draws t plaintext blob xSs mlkemSs ct body) :
    P.diffieHellman keys.xSeed (P.x25519Public draws.encap.xEph) = xSs := by
  rw [kem.dh_comm, h.exchanged]

/-- A blob whose X25519 value leads to the same secret opens. -/
theorem SealParts.open_sameExchange (kem : P.KemLaws) (aead : P.AeadLaws) (serde : S.Laws)
    (h : SealParts P keys draws t plaintext blob xSs mlkemSs ct body) {blob' : Bytes}
    (hsame : SameExchange P keys.xSeed blob blob') (debugStr : String → String) :
    openSealed P S debugStr blob' (hybridKeypair P keys).privateKey t.sender t.recipient
      t.negotiatedSuite = .ok plaintext := by
  rcases hsame with ⟨u, u', rest, hblob, rfl, hdh⟩
  rw [h.layout, List.append_assoc, List.append_assoc] at hblob
  rcases List.append_inj hblob (by simp) with ⟨hu, rfl⟩
  cases List.Vector.toList_injective hu
  rw [h.diffieHellman_eq kem] at hdh
  have hct : (u'.toList ++ ct.toList).length = ciphertextLen := length_append_blocks u' ct
  rw [← List.append_assoc, ← List.append_assoc,
    openSealed_append P serde hct (h.tagLen_le aead) draws.nonce debugStr _ t]
  simp only [hybridKeypair]
  rw [hybridDecap_append, kem.decapsulate_encapsulate _ _ _ _ h.encapsulated]
  simp only [Outcome.mapErr_ok, Outcome.ok_bind]
  rw [hdh, aead.decrypt_encrypt _ _ _ _ _ h.sealed, Outcome.okOr_some]

omit [F64 φ] in
/-- The body of a sealing carries a tag. -/
theorem tagLen_le_of_record (aead : P.AeadLaws) {e : SealRecord} {msg : Bytes} (he : e.Of P msg) :
    aesgcmTagLen ≤ e.body.length := by
  rw [aead.length_encrypt _ _ _ _ _ he]
  exact Nat.le_add_left _ _

/-- A blob that leads to a record opens to the message that was sealed there. -/
theorem open_of_leadsTo (aead : P.AeadLaws) (serde : S.Laws) {blob' : Bytes} {e : SealRecord}
    (hleads : BlobLeadsTo P keys t blob' e) {msg : Bytes} (he : e.Of P msg)
    (debugStr : String → String) :
    openSealed P S debugStr blob' (hybridKeypair P keys).privateKey t.sender t.recipient
      t.negotiatedSuite = .ok msg := by
  rcases hleads with ⟨ciphertext, shared, hciphertext, hdecap, rfl, hkey, haad⟩
  have hopened := aead.decrypt_encrypt _ _ _ _ _ he
  rw [hkey, haad] at hopened
  rw [openSealed_append P serde hciphertext (tagLen_le_of_record aead he) e.nonce debugStr _ t,
    hdecap, Outcome.mapErr_ok, Outcome.ok_bind, hopened, Outcome.okOr_some]

/-- A blob that opens leads to the secrets of the seal, or to another record. -/
theorem SealParts.sameExchange_of_open (kem : P.KemLaws) (serde : S.Laws)
    (h : SealParts P keys draws t plaintext blob xSs mlkemSs ct body) {blob' : Bytes}
    {others : List SealRecord}
    (hideal : IdealSeal P keys draws t xSs mlkemSs ct body others
      (blob'.drop (ciphertextLen + wrapNonceLen)))
    {debugStr : String → String} {plain : Bytes}
    (hopen : openSealed P S debugStr blob' (hybridKeypair P keys).privateKey t.sender t.recipient
      t.negotiatedSuite = .ok plain) :
    SameExchange P keys.xSeed blob blob' ∨ ∃ e ∈ others, BlobLeadsTo P keys t blob' e := by
  have hmin : sealedMinLen ≤ blob'.length := by
    by_contra hshort
    simp [openSealed, Nat.lt_of_not_le hshort] at hopen
  rcases exists_fields hmin with ⟨ciphertext, nonce, body', hciphertext, htag, rfl⟩
  rcases exists_blocks hciphertext with ⟨u', ct', rfl⟩
  have hdrop : (u'.toList ++ ct'.toList ++ nonce.toList ++ body').drop
      (ciphertextLen + wrapNonceLen) = body' :=
    List.drop_left' (by rw [List.length_append, hciphertext, List.Vector.toList_length])
  rw [hdrop] at hideal
  rw [openSealed_append P serde hciphertext htag nonce debugStr _ t] at hopen
  have hdecap := hybridDecap_append P u' ct' keys.xSeed (P.mlkemGenerate keys.mlkemSeed).1
  simp only [hybridKeypair] at hopen
  rw [hdecap] at hopen
  cases hss : P.mlkemDecapsulate (P.mlkemGenerate keys.mlkemSeed).1 ct' with
  | none => simp [hss] at hopen
  | some mlkemSs' =>
      simp only [hss, Outcome.mapErr_ok, Outcome.ok_bind, Outcome.okOr_eq_ok_iff] at hopen
      rw [hss] at hdecap
      rcases List.mem_cons.mp (hideal.aead _ _ _ _ hopen) with hown | hother
      · left
        simp only [sealRecord, SealRecord.mk.injEq, Sealing.mk.injEq, and_true] at hown
        rcases hown with ⟨⟨hkey, hnonce⟩, hbody⟩
        -- From the body inwards: the AEAD key, the shared secret, the two secrets.
        rcases hideal.wrap _ _ _ hkey with ⟨-, hshared, -⟩
        rcases hideal.combiner _ _ _ (List.Vector.toList_injective hshared) with ⟨-, hikm, -⟩
        rcases List.append_inj hikm (by simp) with ⟨hx, hmlkem⟩
        have hct : ct' = ct := by
          apply hideal.mlkem
          rw [hss, List.Vector.toList_injective hmlkem,
            kem.decapsulate_encapsulate _ _ _ _ h.encapsulated]
        refine ⟨P.x25519Public draws.encap.xEph, u', ct.toList ++ (draws.nonce.toList ++ body), ?_,
          ?_, ?_⟩
        · rw [h.layout, List.append_assoc, List.append_assoc]
        · rw [hct, hnonce, hbody, List.append_assoc, List.append_assoc]
        · rw [h.diffieHellman_eq kem, List.Vector.toList_injective hx]
      · right
        exact ⟨_, hother, _, _, hciphertext, hdecap, rfl, rfl, rfl⟩

/-- A blob is refused, exactly unless it keeps the X25519 exchange of the sealed
one and changes nothing else, or is that of another sealing. -/
theorem modified_blob_refused_iff (kem : P.KemLaws) (aead : P.AeadLaws) (serde : S.Laws)
    (hseal : Pqdm.seal P S plaintext (hybridKeypair P keys).publicKey s r draws = .ok blob)
    {others : List SealRecord} (hothers : ∀ e ∈ others, ∃ msg, e.Of P msg) {blob' : Bytes}
    (hideal : ∀ xSs mlkemSs ct body,
      SealParts P keys draws ⟨hybridSuite, s, r⟩ plaintext blob xSs mlkemSs ct body →
        IdealSeal P keys draws ⟨hybridSuite, s, r⟩ xSs mlkemSs ct body others
          (blob'.drop (ciphertextLen + wrapNonceLen)))
    (debugStr : String → String) :
    (∃ e, openSealed P S debugStr blob' (hybridKeypair P keys).privateKey s r hybridSuite =
        .err e) ↔
      ¬ SameExchange P keys.xSeed blob blob' ∧
        ∀ e ∈ others, ¬ BlobLeadsTo P keys ⟨hybridSuite, s, r⟩ blob' e := by
  rcases exists_sealParts serde hseal with ⟨xSs, mlkemSs, ct, body, hparts⟩
  constructor
  · rintro ⟨err, herr⟩
    refine ⟨fun hsame => ?_, fun e he hleads => ?_⟩
    · rw [hparts.open_sameExchange kem aead serde hsame debugStr] at herr
      cases herr
    · rcases hothers e he with ⟨msg, hmsg⟩
      rw [open_of_leadsTo aead serde hleads hmsg debugStr] at herr
      cases herr
  · rintro ⟨hother, hunlogged⟩
    have hpanic := openSealed_ne_panic (P := P) serde debugStr blob'
      (hybridKeypair P keys).privateKey s r hybridSuite
    cases hopen : openSealed P S debugStr blob' (hybridKeypair P keys).privateKey s r
        hybridSuite with
    | ok plain =>
        rcases hparts.sameExchange_of_open kem serde (hideal _ _ _ _ hparts) hopen with
          hsame | ⟨e, he, hleads⟩
        · exact absurd hsame hother
        · exact absurd hleads (hunlogged e he)
    | err e => exact ⟨e, rfl⟩
    | panic => exact absurd hopen hpanic

/-! ## The top bit -/

/-- A public value with its top bit flipped. -/
def flipTop (u : ByteBlock 32) : ByteBlock 32 :=
  u.set (Fin.last 31) (u.get (Fin.last 31) ^^^ 0x80)

theorem flip_and_mask (b : UInt8) : (b ^^^ 0x80) &&& 0x7f = b &&& 0x7f := by
  have hmask : ∀ n : Nat, n &&& 127 = n % 2 ^ 7 := fun n => Nat.and_two_pow_sub_one_eq_mod n 7
  apply UInt8.toNat.inj
  simp only [UInt8.toNat_and, UInt8.toNat_xor, UInt8.reduceToNat, hmask, Nat.xor_mod_two_pow]
  simp

omit [F64 φ] in
/-- Flipping the top bit keeps the X25519 exchange. -/
theorem sameExchange_flipTop (x25519 : P.X25519Laws) (xSeed u : ByteBlock 32) (rest : Bytes) :
    SameExchange P xSeed (u.toList ++ rest) ((flipTop u).toList ++ rest) := by
  have hmask : maskTop (flipTop u) = maskTop u := by
    apply List.Vector.ext
    intro i
    by_cases hi : i = 31
    · subst hi
      simp [maskTop, flipTop, flip_and_mask]
    · simp [maskTop, flipTop, List.Vector.get_set_of_ne, Ne.symm hi]
  refine ⟨u, flipTop u, rest, rfl, rfl, ?_⟩
  rw [← x25519.diffieHellman_maskTop, hmask, x25519.diffieHellman_maskTop]

end Modified

/-! ## A sample blob -/

namespace Sample

def transcript : Transcript := ⟨hybridSuite, "alice", "bob"⟩

/-- The inputs of the combiner and of the wrap key. -/
def kdfInputs : List KdfInput :=
  [⟨List.replicate 64 0, List.replicate 32 14 ++ List.replicate 32 7, hkdfInfo⟩,
    ⟨List.replicate 64 0, List.replicate 32 0, infoWrap ++ byteLit "|" ++ transcript.head⟩]

/-- The two sealings that the AEAD has made, of "hi" and of "o". -/
def first : SealRecord :=
  ⟨⟨List.Vector.replicate 32 1, List.Vector.replicate 12 7, transcript.head⟩,
    [104, 105] ++ List.replicate 16 0⟩

def second : SealRecord :=
  ⟨⟨List.Vector.replicate 32 2, List.Vector.replicate 12 9, transcript.head⟩,
    [111] ++ List.replicate 16 1⟩

def ideal : Primitives := tabled kdfInputs [first.toSealing, second.toSealing]

/-- The ephemeral public value of the sealed blob. -/
def ephemeral : ByteBlock 32 := List.Vector.replicate 32 7

/-- A blob with the given public value and body. -/
def blobWith (u : ByteBlock 32) (body : Bytes) : Bytes :=
  u.toList ++ ((resize 1088 (List.replicate 32 7)).toList ++ (List.replicate 12 7 ++ body))

theorem seal_eq_ok :
    Pqdm.seal ideal serde [104, 105] (hybridKeypair ideal keys).publicKey "alice" "bob" draws =
      .ok (blobWith ephemeral first.body) := by
  decide +kernel

/-- The ciphertext of the second seal, with other draws. -/
def secondCiphertext : Bytes :=
  List.replicate 32 9 ++ (resize 1088 (List.replicate 32 9)).toList

def secondBlob : Bytes := secondCiphertext ++ second.nonce.toList ++ second.body

/-- The draws of the second seal. -/
def secondDraws : SealDraws :=
  ⟨⟨List.Vector.replicate 32 9, List.Vector.replicate 32 9⟩, List.Vector.replicate 12 9⟩

theorem second_seal_eq_ok :
    Pqdm.seal ideal serde [111] (hybridKeypair ideal keys).publicKey "alice" "bob" secondDraws =
      .ok secondBlob := by
  decide +kernel

theorem second_of : second.Of ideal [111] := by
  unfold SealRecord.Of
  decide +kernel

theorem secondBlob_leadsTo : BlobLeadsTo ideal keys transcript secondBlob second := by
  refine ⟨secondCiphertext, List.Vector.replicate 32 2, by decide +kernel, by decide +kernel, rfl,
    by decide +kernel, rfl⟩

theorem encapsulation_unique (dk : ByteBlock 2400) :
    ideal.EncapsulationUnique dk (resize 1088 ephemeral.toList) := by
  have hcoins : ephemeral ≠ List.Vector.replicate 32 0 := by decide +kernel
  exact tabled_encapsulationUnique dk hcoins

/-- The sample primitives are ideal towards the first seal. -/
theorem idealSeal {others : List SealRecord} {body' : Bytes}
    (hbody' : ideal.OpensOnlyLogged (first :: others) body') :
    ∀ xSs mlkemSs ct body,
      SealParts ideal keys draws transcript [104, 105] (blobWith ephemeral first.body) xSs
        mlkemSs ct body →
          IdealSeal ideal keys draws transcript xSs mlkemSs ct body others body' := by
  rintro xSs mlkemSs ct body ⟨hx, hct, hbody, -⟩
  have hx' : xSs = List.Vector.replicate 32 14 := by
    rw [← hx]
    decide +kernel
  obtain ⟨rfl, rfl⟩ : resize 1088 (List.replicate 32 7) = ct ∧
      List.Vector.replicate 32 7 = mlkemSs := by
    simpa [ideal, tabled, tagged, draws] using hct
  subst hx'
  have hshared : sharedSecret ideal (List.Vector.replicate 32 14) (List.Vector.replicate 32 7) =
      List.Vector.replicate 32 0 := by
    decide +kernel
  have hkey : derivedKey ideal (List.replicate 32 0) transcript.head =
      List.Vector.replicate 32 1 := by
    decide +kernel
  have hzero : (List.Vector.replicate 32 0 : ByteBlock 32).toList = List.replicate 32 0 := rfl
  rw [hshared, hzero, hkey] at hbody
  have hsealed : ideal.aesGcmEncrypt (List.Vector.replicate 32 1) draws.nonce transcript.head
      [104, 105] = some first.body := by
    decide +kernel
  rw [hsealed, Option.some.injEq] at hbody
  subst hbody
  constructor
  · exact encapsulation_unique _
  · exact tabled_kdfUnique (by decide) (by decide +kernel)
  · rw [hshared]
    exact tabled_kdfUnique (by decide) (by decide +kernel)
  · rw [sealRecord, hshared, hzero, hkey]
    exact hbody'

end Sample

/-- In place of the first blob, the first one with another tag is refused, and the
second one, which was sealed as well, is not. -/
theorem modified_blob_refused_tag :
    let refused := fun blob' => ∃ e, openSealed Sample.ideal Sample.serde Sample.debugStr blob'
      (hybridKeypair Sample.ideal Sample.keys).privateKey "alice" "bob" hybridSuite = .err e
    refused (Sample.blobWith Sample.ephemeral ([104, 105] ++ List.replicate 15 0 ++ [2])) ∧
      Pqdm.seal Sample.ideal Sample.serde [111] (hybridKeypair Sample.ideal Sample.keys).publicKey
        "alice" "bob" Sample.secondDraws = .ok Sample.secondBlob ∧
      ¬ refused Sample.secondBlob := by
  have hothers : ∀ e ∈ [Sample.second], ∃ msg, e.Of Sample.ideal msg := by
    intro e he
    rw [List.mem_singleton.mp he]
    exact ⟨_, Sample.second_of⟩
  refine ⟨?_, Sample.second_seal_eq_ok, ?_⟩
  · refine (modified_blob_refused_iff tabled_kemLaws tabled_aeadLaws (Serde.documented_laws Int)
      Sample.seal_eq_ok hothers (Sample.idealSeal ?_) Sample.debugStr).mpr ⟨?_, ?_⟩
    · exact tabled_opensOnlyLogged_of_untagged (by decide +kernel) _
    · rintro ⟨u, u', rest, hblob, hblob', -⟩
      have hrest := (List.append_inj hblob (by simp)).2
      have hrest' := (List.append_inj hblob' (by simp)).2
      rw [← hrest] at hrest'
      revert hrest'
      decide +kernel
    · intro e he
      rw [List.mem_singleton.mp he]
      rintro ⟨ciphertext, shared, hciphertext, -, hblob, -, -⟩
      have hbody := congrArg (List.drop (ciphertextLen + wrapNonceLen)) hblob
      rw [List.drop_left' (by rw [List.length_append, hciphertext, List.Vector.toList_length])]
        at hbody
      revert hbody
      decide +kernel
  · have hideal : Sample.ideal.OpensOnlyLogged [Sample.first, Sample.second]
        (Sample.secondBlob.drop (ciphertextLen + wrapNonceLen)) := by
      have hdrop : Sample.secondBlob.drop (ciphertextLen + wrapNonceLen) = Sample.second.body := by
        decide +kernel
      rw [hdrop]
      exact tabled_opensOnlyLogged (by decide) (by simp) (by simp) (by decide +kernel)
    intro hrefused
    have hunlogged := (modified_blob_refused_iff tabled_kemLaws tabled_aeadLaws
      (Serde.documented_laws Int) Sample.seal_eq_ok hothers (Sample.idealSeal hideal)
      Sample.debugStr).mp hrefused
    exact hunlogged.2 _ List.mem_cons_self Sample.secondBlob_leadsTo

/-- Ideal primitives, a sealed blob, and the same blob with the top bit of its
public value flipped: it is another blob, and it opens. -/
theorem flipped_top_bit_opens :
    (Sample.ideal.KemLaws ∧ Sample.ideal.AeadLaws ∧ Sample.ideal.X25519Laws ∧
      Sample.serde.Laws) ∧
    Pqdm.seal Sample.ideal Sample.serde [104, 105]
      (hybridKeypair Sample.ideal Sample.keys).publicKey "alice" "bob" Sample.draws =
        .ok (Sample.blobWith Sample.ephemeral Sample.first.body) ∧
    (∃ xSs mlkemSs ct body,
      SealParts Sample.ideal Sample.keys Sample.draws Sample.transcript [104, 105]
        (Sample.blobWith Sample.ephemeral Sample.first.body) xSs mlkemSs ct body ∧
      IdealSeal Sample.ideal Sample.keys Sample.draws Sample.transcript xSs mlkemSs ct body
        [Sample.second] Sample.first.body) ∧
    Sample.blobWith (flipTop Sample.ephemeral) Sample.first.body ≠
      Sample.blobWith Sample.ephemeral Sample.first.body ∧
    openSealed Sample.ideal Sample.serde Sample.debugStr
      (Sample.blobWith (flipTop Sample.ephemeral) Sample.first.body)
      (hybridKeypair Sample.ideal Sample.keys).privateKey "alice" "bob" hybridSuite =
        .ok [104, 105] := by
  have serde : Sample.serde.Laws := Serde.documented_laws Int
  rcases exists_sealParts serde Sample.seal_eq_ok with ⟨xSs, mlkemSs, ct, body, hparts⟩
  have hlogged : Sample.ideal.OpensOnlyLogged [Sample.first, Sample.second] Sample.first.body :=
    tabled_opensOnlyLogged (by decide) (by simp) (by simp) (by decide +kernel)
  have hideal := Sample.idealSeal hlogged _ _ _ _ hparts
  refine ⟨⟨tabled_kemLaws, tabled_aeadLaws, tabled_x25519Laws, serde⟩, Sample.seal_eq_ok,
    ⟨xSs, mlkemSs, ct, body, hparts, hideal⟩, by decide +kernel, ?_⟩
  exact hparts.open_sameExchange tabled_kemLaws tabled_aeadLaws serde
    (sameExchange_flipTop tabled_x25519Laws _ _ _) Sample.debugStr

end Pqdm
end SkPqc
