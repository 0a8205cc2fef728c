import SkPqc.EpochWraps

/-!
# One epoch of a group

The sender of an epoch wraps its secret for each member and then takes message
keys from its ratchet, one call after the other.  A member unwraps the secret and
derives the key of a message from the index it carries: its own counter, which it
uses when it sends itself, plays no part.

Main results:

- Theorem `takeKeys_eq`: the keys that a ratchet hands out are those of
  consecutive indices.
- Theorem `group_epoch_agreement`: each member derives the key of every message,
  in any order and whatever it has sent itself; the indices are those from 0 on,
  and the ratchet calls for a new epoch from the message bound on.
-/

namespace SkPqc
namespace GroupRatchet

open Rust Kem

/-! ## Taking keys -/

section Keys

variable (P : Primitives) {φ ε : Type}

/-- What `n` calls of `next_outbound_key` return, and the ratchet they leave. -/
def takeKeys : Nat → EpochRatchet φ →
    Outcome ε (List (UInt64 × ByteBlock messageKeyLen) × EpochRatchet φ)
  | 0, r => .ok ([], r)
  | n + 1, r => do
      let (key, r) ← r.nextOutboundKey P
      let (keys, r) ← takeKeys n r
      pure (key :: keys, r)

/-- The first `n` slots from an index on, with their keys.  The index wraps. -/
def slotKeys (epochSecret : ByteBlock epochSecretLen) (epoch start : UInt64) (n : Nat) :
    List (UInt64 × ByteBlock messageKeyLen) :=
  (List.range n).map fun i =>
    (start + UInt64.ofNat i, slotKey P epochSecret epoch (start + UInt64.ofNat i))

/-- The slot after the next ones is one further from the next start. -/
theorem add_ofNat_succ (start : UInt64) (i : Nat) :
    start + UInt64.ofNat (i + 1) = start + 1 + UInt64.ofNat i := by
  rw [UInt64.ofNat_add, UInt64.add_assoc, UInt64.add_comm 1]
  rfl

theorem slotKeys_succ (epochSecret : ByteBlock epochSecretLen) (epoch start : UInt64) (n : Nat) :
    slotKeys P epochSecret epoch start (n + 1) =
      (start, slotKey P epochSecret epoch start) ::
        slotKeys P epochSecret epoch (start + 1) n := by
  unfold slotKeys
  rw [List.range_succ_eq_map, List.map_cons, List.map_map]
  congr 1
  · simp
  · apply List.map_congr_left
    intro i _
    simp only [Function.comp_apply, Nat.succ_eq_add_one, add_ofNat_succ]

/-- A ratchet hands out the keys of consecutive indices, and only its counter
moves. -/
theorem takeKeys_eq (n : Nat) (r : EpochRatchet φ) :
    (takeKeys P n r : Outcome ε _) =
      .ok (slotKeys P r.epochSecret r.epoch r.messageIndex n,
        { r with messageIndex := r.messageIndex + UInt64.ofNat n }) := by
  induction n generalizing r with
  | zero => simp [takeKeys, slotKeys]
  | succ n ih =>
      rw [takeKeys, EpochRatchet.nextOutboundKey_eq, Outcome.ok_bind]
      dsimp only
      rw [ih, Outcome.ok_bind, slotKeys_succ, add_ofNat_succ]
      rfl

variable {P}

/-- A key that was handed out is the key of its index. -/
theorem eq_slotKey_of_mem {epochSecret : ByteBlock epochSecretLen} {epoch start index : UInt64}
    {n : Nat} {key : ByteBlock messageKeyLen}
    (h : (index, key) ∈ slotKeys P epochSecret epoch start n) :
    key = slotKey P epochSecret epoch index := by
  rcases List.mem_map.mp h with ⟨i, _, heq⟩
  cases heq
  rfl

/-- An ideal KDF gives the slots of an epoch distinct keys. -/
theorem nodup_keys {epochSecret : ByteBlock epochSecretLen} {epoch : UInt64} {n : Nat}
    (hn : n ≤ 2 ^ 64)
    (hkdf : ∀ i < n, P.KdfUnique (msgSaltPrefix ++ u64Be epoch) epochSecret.toList
      (msgInfoPrefix ++ u64Be (UInt64.ofNat i))) :
    ((slotKeys P epochSecret epoch 0 n).map Prod.snd).Nodup := by
  rw [slotKeys, List.map_map]
  refine List.Nodup.map_on ?_ List.nodup_range
  intro i hi j hj hkey
  rw [List.mem_range] at hi hj
  simp only [Function.comp_apply, UInt64.zero_add] at hkey
  rcases hkdf j hj _ _ _ hkey with ⟨-, -, hinfo⟩
  have hindex := u64Be_injective (List.append_cancel_left hinfo)
  have hnat := congrArg UInt64.toNat hindex
  rwa [UInt64.toNat_ofNat_of_lt' (hi.trans_le hn),
    UInt64.toNat_ofNat_of_lt' (hj.trans_le hn)] at hnat

end Keys

/-! ## Members -/

section Members

variable {P : Primitives} {φ ψ ε : Type} [F64 φ]

/-- Take a sender with a fresh ratchet that has taken `n` keys, and a member that
the epoch secret was wrapped for and that has taken any number of keys itself.
The member unwraps the secret and derives the key of every message from its index;
the indices are those below `n`, in order; with an ideal KDF no two messages have
one key; and the sender's ratchet calls for a new epoch when it has reached the
message bound or the age. -/
theorem group_epoch_agreement (kem : P.KemLaws) (aead : P.AeadLaws) {keys : KeypairDraws}
    {secret : ByteBlock epochSecretLen} {draws : WrapDraws} {payload : Bytes}
    (hwrap : wrapEpochSecret P secret.toList (hybridKeypair P keys).publicKey draws = .ok payload)
    (epoch : UInt64) (clock : φ) (memberClock : ψ) {n : Nat} (hn : n < 2 ^ 64) (m : Nat) :
    ∃ sent sender memberSecret sentByMember member,
      takeKeys P n (EpochRatchet.new epoch secret clock) =
        (.ok (sent, sender) : Outcome ε _) ∧
      unwrapEpochSecret P payload (hybridKeypair P keys).privateKey = .ok memberSecret ∧
      takeKeys P m (EpochRatchet.new epoch memberSecret memberClock) =
        (.ok (sentByMember, member) : Outcome ε _) ∧
      (∀ index key, (index, key) ∈ sent →
        (member.messageKey P index : Outcome ε _) = .ok key) ∧
      sent.map Prod.fst = (List.range n).map UInt64.ofNat ∧
      ((∀ i < n, P.KdfUnique (msgSaltPrefix ++ u64Be epoch) secret.toList
        (msgInfoPrefix ++ u64Be (UInt64.ofNat i))) → (sent.map Prod.snd).Nodup) ∧
      ∀ now, sender.shouldRekey now = true ↔
        50 ≤ n ∨ F64.ge (F64.sub now clock) (F64.ofU64 defaultRekeyAgeSeconds) = true := by
  refine ⟨_, _, secret, _, _, takeKeys_eq P n _, unwrapEpochSecret_wrap kem aead hwrap,
    takeKeys_eq P m _, ?_, ?_, ?_, ?_⟩
  · intro index key hmem
    rw [EpochRatchet.messageKey_eq]
    exact congrArg _ (eq_slotKey_of_mem hmem).symm
  · rw [slotKeys, List.map_map]
    apply List.map_congr_left
    intro i _
    simp [EpochRatchet.new]
  · intro hkdf
    exact nodup_keys hn.le hkdf
  · intro now
    have hcount : defaultRekeyMsgBound ≤ 0 + UInt64.ofNat n ↔ 50 ≤ n := by
      rw [UInt64.zero_add, UInt64.le_iff_toNat_le, UInt64.toNat_ofNat_of_lt' hn]
      rfl
    simp only [EpochRatchet.shouldRekey, EpochRatchet.new, ge_iff_le, hcount]
    split
    · rename_i hbound
      simp [hbound]
    · rename_i hbound
      simp [hbound]

end Members

/-- Two messages of epoch 4, and a member that has sent one itself. -/
theorem group_epoch_agreement_sample :
    ∃ payload sent sender memberSecret sentByMember member,
      takeKeys EpochWraps.Sample.primitives 2
          (EpochRatchet.new 4 (List.Vector.replicate 32 9) (0 : Int)) =
        (.ok (sent, sender) : Outcome Unit _) ∧
      unwrapEpochSecret EpochWraps.Sample.primitives payload
        (hybridKeypair EpochWraps.Sample.primitives EpochWraps.Sample.keys).privateKey =
          .ok memberSecret ∧
      takeKeys EpochWraps.Sample.primitives 1 (EpochRatchet.new 4 memberSecret (7 : Int)) =
        (.ok (sentByMember, member) : Outcome Unit _) ∧
      (∀ index key, (index, key) ∈ sent →
        (member.messageKey EpochWraps.Sample.primitives index : Outcome Unit _) = .ok key) ∧
      sent.map Prod.fst = [0, 1] := by
  have kem : EpochWraps.Sample.primitives.KemLaws := Primitives.tabled_kemLaws
  have total : EpochWraps.Sample.primitives.MlkemTotal := Primitives.tabled_mlkemTotal
  have aead : EpochWraps.Sample.primitives.AeadLaws := Primitives.tabled_aeadLaws
  rcases EpochWraps.exists_wrappedUnder total aead EpochWraps.Sample.keys
    (List.Vector.replicate 32 9) EpochWraps.Sample.encap EpochWraps.Sample.nonce epochWrapInfo with
    ⟨payload, hpayload⟩
  have hwrap : wrapEpochSecret EpochWraps.Sample.primitives (List.Vector.replicate 32 9).toList
      (hybridKeypair EpochWraps.Sample.primitives EpochWraps.Sample.keys).publicKey
      ⟨EpochWraps.Sample.encap, EpochWraps.Sample.nonce⟩ = .ok payload :=
    wrapEpochSecret_eq_ok_iff.mpr hpayload
  have htwo : 2 < 2 ^ 64 := by decide
  rcases group_epoch_agreement kem aead hwrap 4 (0 : Int) (7 : Int) htwo 1 with
    ⟨sent, sender, memberSecret, sentByMember, member, hsent, hunwrap, hmember, hkeys, hindices, -⟩
  exact ⟨payload, sent, sender, memberSecret, sentByMember, member, hsent, hunwrap, hmember,
    hkeys, hindices⟩

end GroupRatchet
end SkPqc
