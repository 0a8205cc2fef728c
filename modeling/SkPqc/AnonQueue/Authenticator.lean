import SkPqc.Foundations.Hmac

/-!
# The deniable authenticator

This module embeds `auth_tag` and `verify_tag` of `anon_queue.rs`.  The MAC
reads the nonce and the message one after the other, without the length of
either, and fills a short secret with zeros.  SHA-256 is a parameter.

Main results:

- Theorem `verifyTag_iff`: what a genuine tag verifies.
- Theorem `verify_binds_iff`: for which inputs a genuine tag binds the secret,
  the nonce and the message.
- Theorem `verify_binds_of_length`: with fixed lengths it always does.
- Theorems `verifyTag_shifted` and `verifyTag_zeros`: what it does not bind, for
  every hash.
-/

namespace SkPqc
namespace AnonQueue

open Rust Hmac

/-- The block of SHA-256. -/
abbrev sha256Block : Nat := 64

/-- Length of a tag. -/
abbrev authTagLen : Nat := 32

section Authenticator

variable (sha256 : Bytes → ByteBlock authTagLen)

/-- The tag of a message: `HMAC-SHA256(secret, nonce ‖ message)`. -/
def authTag (secret message nonce : Bytes) : Bytes :=
  (hmac sha256Block sha256 secret (nonce ++ message)).toList

/-- Recompute the tag and compare. -/
def verifyTag (secret message nonce tag : Bytes) : Bool :=
  let expected := authTag sha256 secret message nonce
  decide (expected = tag)

variable {sha256} {secret nonce message secret' nonce' message' : Bytes}

/-- A genuine tag verifies under every secret with the same block key, for
every nonce and message with the same concatenation. -/
theorem verifyTag_iff (hunique : TagUnique sha256Block sha256 secret (nonce ++ message)) :
    verifyTag sha256 secret' message' nonce' (authTag sha256 secret message nonce) = true ↔
      blockKey sha256Block sha256 secret' = blockKey sha256Block sha256 secret ∧
        nonce' ++ message' = nonce ++ message := by
  simp only [verifyTag, decide_eq_true_eq]
  constructor
  · intro htag
    exact hunique _ _ (List.Vector.toList_injective htag)
  · rintro ⟨hkey, hinput⟩
    unfold authTag hmac outerInput innerInput
    rw [hinput, hkey]

/-- A genuine tag binds its inputs exactly where the other block key or the
other concatenation differs, or the secret and the nonce length agree. -/
theorem verify_binds_iff (hunique : TagUnique sha256Block sha256 secret (nonce ++ message))
    (secret' nonce' message' : Bytes) :
    (verifyTag sha256 secret' message' nonce' (authTag sha256 secret message nonce) = true →
        secret' = secret ∧ nonce' = nonce ∧ message' = message) ↔
      blockKey sha256Block sha256 secret' ≠ blockKey sha256Block sha256 secret ∨
        nonce' ++ message' ≠ nonce ++ message ∨
        secret' = secret ∧ nonce'.length = nonce.length := by
  rw [verifyTag_iff hunique]
  constructor
  · intro hbinds
    by_cases hkey : blockKey sha256Block sha256 secret' = blockKey sha256Block sha256 secret
    · by_cases hinput : nonce' ++ message' = nonce ++ message
      · obtain ⟨hsecret, hnonce, -⟩ := hbinds ⟨hkey, hinput⟩
        exact .inr (.inr ⟨hsecret, by rw [hnonce]⟩)
      · exact .inr (.inl hinput)
    · exact .inl hkey
  · rintro hcondition ⟨hkey, hinput⟩
    rcases hcondition with hother | hother | ⟨hsecret, hlen⟩
    · exact absurd hkey hother
    · exact absurd hinput hother
    · obtain ⟨hnonce, hmessage⟩ := List.append_inj hinput hlen
      exact ⟨hsecret, hnonce, hmessage⟩

/-- Secrets of one length up to the block and nonces of one length are bound. -/
theorem verify_binds_of_length
    (hunique : TagUnique sha256Block sha256 secret (nonce ++ message))
    (hsecret : secret.length ≤ sha256Block) (hsecret' : secret'.length = secret.length)
    (hnonce : nonce'.length = nonce.length)
    (hverify : verifyTag sha256 secret' message' nonce' (authTag sha256 secret message nonce) =
      true) :
    secret' = secret ∧ nonce' = nonce ∧ message' = message := by
  obtain ⟨hkey, -⟩ := (verifyTag_iff hunique).mp hverify
  have hsame := eq_of_blockKey_eq hsecret hsecret' hkey
  exact (verify_binds_iff hunique secret' nonce' message').mpr (.inr (.inr ⟨hsame, hnonce⟩)) hverify

/-- Whatever the hash, the nonce can take over from the message. -/
theorem verifyTag_shifted (secret nonce moved message : Bytes) :
    verifyTag sha256 secret message (nonce ++ moved)
      (authTag sha256 secret (moved ++ message) nonce) = true := by
  simp [verifyTag, authTag]

/-- Whatever the hash, zeros behind a secret that leaves room for them do not
change its tags. -/
theorem verifyTag_zeros {n : Nat} (hfits : secret.length + n ≤ sha256Block)
    (nonce message : Bytes) :
    verifyTag sha256 (secret ++ List.replicate n 0) message nonce
      (authTag sha256 secret message nonce) = true := by
  have hkey : blockKey sha256Block sha256 (secret ++ List.replicate n 0) =
      blockKey sha256Block sha256 secret := blockKey_append_zeros hfits
  simp [verifyTag, authTag, hmac, outerInput, innerInput, hkey]

end Authenticator

/-! ## A hash with one ideal tag -/

namespace Sample

/-- The secret `k`, as one block. -/
def block : Bytes := [107] ++ List.replicate 63 0

def inner : Bytes := mask 0x36 block ++ [97, 98]

def outer : Bytes := mask 0x5c block ++ List.replicate 32 1

/-- The two hash inputs behind one tag have outputs of their own. -/
def sha256 (x : Bytes) : ByteBlock authTagLen :=
  if x = inner then List.Vector.replicate 32 1
  else if x = outer then List.Vector.replicate 32 2
  else List.Vector.replicate 32 0

theorem inner_ne_outer : inner ≠ outer := by decide

theorem tagUnique_sample : TagUnique sha256Block sha256 [107] [97, 98] := by
  have hinnerInput : innerInput sha256Block sha256 [107] [97, 98] = inner := rfl
  have hinner : sha256 inner = List.Vector.replicate 32 1 := if_pos rfl
  have houter : sha256 outer = List.Vector.replicate 32 2 := by
    rw [sha256, if_neg inner_ne_outer.symm, if_pos rfl]
  have houterInput : outerInput sha256Block sha256 [107] [97, 98] = outer := by
    rw [outerInput, hinnerInput, hinner]
    rfl
  apply tagUnique (by decide)
  · rw [hinnerInput]
    intro y hy
    by_contra hne
    rw [hinner, sha256, if_neg hne] at hy
    split at hy
    · exact absurd hy (by decide)
    · exact absurd hy (by decide)
  · rw [houterInput]
    intro y hy
    by_contra hne
    rw [houter, sha256, if_neg hne] at hy
    split at hy
    · exact absurd hy (by decide)
    · exact absurd hy (by decide)

end Sample

/-- Under its secret and with its nonce, the sample tag binds the message. -/
theorem verify_binds_sample :
    verifyTag Sample.sha256 [107] [98] [97] (authTag Sample.sha256 [107] [98] [97]) = true ∧
      ∀ message',
        verifyTag Sample.sha256 [107] message' [97] (authTag Sample.sha256 [107] [98] [97]) =
          true → message' = [98] := by
  have hunique : TagUnique sha256Block Sample.sha256 [107] ([97] ++ [98]) :=
    Sample.tagUnique_sample
  constructor
  · exact (verifyTag_iff hunique).mpr ⟨rfl, rfl⟩
  · intro message' hverify
    have hbinds := (verify_binds_iff hunique [107] [97] message').mpr (.inr (.inr ⟨rfl, rfl⟩))
    exact (hbinds hverify).2.2

/-- The tag of nonce `a` and message `b` verifies for nonce `ab` and no message,
and under the secret `k` with a zero byte after it. -/
theorem shifted_nonce_verifies :
    TagUnique sha256Block Sample.sha256 [107] ([97] ++ [98]) ∧
      verifyTag Sample.sha256 [107] [] [97, 98] (authTag Sample.sha256 [107] [98] [97]) = true ∧
      verifyTag Sample.sha256 [107, 0] [98] [97] (authTag Sample.sha256 [107] [98] [97]) =
        true := by
  have hfits : ([107] : Bytes).length + 1 ≤ sha256Block := by decide
  have hshifted : verifyTag Sample.sha256 [107] [] ([97] ++ [98])
      (authTag Sample.sha256 [107] ([98] ++ []) [97]) = true := verifyTag_shifted [107] [97] [98] []
  have hzeros : verifyTag Sample.sha256 ([107] ++ List.replicate 1 0) [98] [97]
      (authTag Sample.sha256 [107] [98] [97]) = true := verifyTag_zeros hfits [97] [98]
  rw [List.append_nil] at hshifted
  exact ⟨Sample.tagUnique_sample, hshifted, hzeros⟩

end AnonQueue
end SkPqc
