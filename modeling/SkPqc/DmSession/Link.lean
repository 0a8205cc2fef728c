import SkPqc.DmSession.Lifecycle
import SkPqc.Foundations.NumberedStore

/-!
# Two sessions and the network between them

A link is a pair of sessions, each sealing to the other's public key and
opening with its own private key, together with the logs of what was sealed
and what was delivered.  Each session refines a store with two writers: a seal
that rekeys begins the owner's next number, an open learns a number from the
peer.

Main results:

- Theorems `Refines.begun` and `Refines.learned`: beginning an epoch and
  learning a secret refine the operations of the store.
- Theorem `mem_logged`: a logged frame is the one the rekeyed ratchet sealed.
-/

namespace SkPqc
namespace DmSession

open Rust Kem Ratchet NumberedStore

/-! ## The machine -/

inductive Party where
  | a
  | b
deriving DecidableEq, Repr

def Party.peer : Party → Party
  | .a => .b
  | .b => .a

@[simp] theorem Party.peer_peer (p : Party) : p.peer.peer = p := by
  cases p <;> rfl

theorem Party.peer_ne (p : Party) : p.peer ≠ p := by
  cases p <;> decide

theorem Party.eq_or_eq_peer (p q : Party) : q = p ∨ q = p.peer := by
  cases p <;> cases q <;> simp [Party.peer]

theorem Party.exists_iff {Q : Party → Prop} : (∃ p, Q p) ↔ Q .a ∨ Q .b := by
  constructor
  · rintro ⟨_ | _, hp⟩
    · exact .inl hp
    · exact .inr hp
  · rintro (ha | hb)
    · exact ⟨.a, ha⟩
    · exact ⟨.b, hb⟩

instance (Q : Party → Prop) [DecidablePred Q] : Decidable (∃ p, Q p) :=
  decidable_of_iff _ Party.exists_iff.symm

/-- A frame as its sender logs it, with the plaintext and the message key. -/
structure Sealed where
  frame : SealedDmFrame
  plaintext : Bytes
  key : Option (ByteBlock messageKeyLen)

/-- Two sessions, the frames each has sealed and the frames each was handed. -/
structure Link (φ : Type) where
  session : Party → DmSession φ
  sealed : Party → List Sealed
  delivered : Party → List SealedDmFrame

inductive Event (φ : Type) where
  | seal (p : Party) (plaintext : Bytes) (draws : SealDraws φ)
  | deliver (p : Party) (frame : SealedDmFrame)

section Machine

variable {φ : Type} [F64 φ] (P : Primitives) (keys : Party → KeypairDraws)

def publicKey (p : Party) : Bytes := (hybridKeypair P (keys p)).publicKey

def privateKey (p : Party) : Bytes := (hybridKeypair P (keys p)).privateKey

/-- The key that the next seal takes from its ratchet. -/
def sealingKey (s : DmSession φ) (peerHybridPub : Bytes) (draws : SealDraws φ) :
    Option (ByteBlock messageKeyLen) :=
  match (rekeyIfDue P peerHybridPub draws >>= fun _ => outboundKey P).run s with
  | (.ok (_, key, _), _) => some key
  | _ => none

/-- What a seal adds to the sender's log. -/
def logged (s : DmSession φ) (plaintext peerHybridPub : Bytes) (draws : SealDraws φ) :
    List Sealed :=
  match ((DmSession.seal P plaintext peerHybridPub draws).run s).1 with
  | .ok frame => [⟨frame, plaintext, sealingKey P s peerHybridPub draws⟩]
  | _ => []

def Link.next (L : Link φ) : Event φ → Link φ
  | .seal p plaintext draws =>
      let pub := publicKey P keys p.peer
      { L with
        session := Function.update L.session p
          ((DmSession.seal P plaintext pub draws).run (L.session p)).2
        sealed := Function.update L.sealed p
          (logged P (L.session p) plaintext pub draws ++ L.sealed p) }
  | .deliver p frame =>
      { L with
        session := Function.update L.session p
          ((DmSession.open P frame (privateKey P keys p)).run (L.session p)).2
        delivered := Function.update L.delivered p (frame :: L.delivered p) }

/-- Two fresh sessions with any bounds. -/
def Link.Fresh (L : Link φ) : Prop :=
  (∀ p, ∃ peer bound age, L.session p = withBounds peer bound age) ∧
    (∀ p, L.sealed p = []) ∧ ∀ p, L.delivered p = []

/-- The link over a network that may deliver anything. -/
def link (φ : Type) [F64 φ] : StateMachine (Link φ) (Event φ) where
  init := Link.Fresh
  accepts _ _ := True
  next := Link.next P keys

/-- Deliveries of frames the peer sealed, possibly lost, reordered or repeated;
rekeys with a next epoch number. -/
def Faithful (L : Link φ) : Event φ → Prop
  | .seal p _ draws => EpochFits (L.session p) draws
  | .deliver p frame => ∃ m ∈ L.sealed p.peer, m.frame = frame

/-- Only the first party seals, and only the other one is handed frames. -/
def OneWay (_ : Link φ) : Event φ → Prop
  | .seal p _ _ => p = .a
  | .deliver p _ => p = .b

instance (L : Link φ) (e : Event φ) : Decidable ((link P keys φ).accepts L e) :=
  inferInstanceAs (Decidable True)

instance (L : Link φ) : ∀ e, Decidable (Faithful L e)
  | .seal p _ draws => inferInstanceAs (Decidable (EpochFits (L.session p) draws))
  | .deliver p frame => inferInstanceAs (Decidable (∃ m ∈ L.sealed p.peer, m.frame = frame))

instance (L : Link φ) : ∀ e, Decidable (OneWay L e)
  | .seal p _ _ => inferInstanceAs (Decidable (p = .a))
  | .deliver p _ => inferInstanceAs (Decidable (p = .b))

end Machine

section Log

variable {φ : Type} [F64 φ] {P : Primitives}

theorem sealingKey_eq {s s₁ : DmSession φ} {peerHybridPub : Bytes} {draws : SealDraws φ}
    {r : DmRatchet φ} (hrekey : (rekeyIfDue P peerHybridPub draws).run s = (.ok (), s₁))
    (hratchet : s₁.ratchet = some r) :
    sealingKey P s peerHybridPub draws = some (nextKey P r) := by
  unfold sealingKey
  rw [Mut.run_bind_of_ok hrekey, outboundKey_eq P hratchet]

/-- A logged frame is the one that the rekeyed ratchet sealed. -/
theorem mem_logged {s s₁ : DmSession φ} {plaintext peerHybridPub : Bytes} {draws : SealDraws φ}
    {r : DmRatchet φ} {m : Sealed}
    (hrekey : (rekeyIfDue P peerHybridPub draws).run s = (.ok (), s₁))
    (hratchet : s₁.ratchet = some r) (hm : m ∈ logged P s plaintext peerHybridPub draws) :
    sealBody P s₁ r plaintext draws = .ok m.frame ∧ m.plaintext = plaintext ∧
      m.key = some (nextKey P r) := by
  have hstep := seal_step P s plaintext peerHybridPub draws
  unfold logged at hm
  generalize (DmSession.seal P plaintext peerHybridPub draws).run s = res at hstep hm
  cases hstep with
  | refused hrekey' =>
      rw [hrekey] at hrekey'
      cases hrekey'
  | took hrekey' hratchet' =>
      rw [hrekey] at hrekey'
      cases hrekey'
      rw [hratchet] at hratchet'
      cases hratchet'
      cases hbody : sealBody P s₁ r plaintext draws with
      | ok frame =>
          simp only [hbody, List.mem_singleton] at hm
          subst hm
          exact ⟨rfl, rfl, sealingKey_eq hrekey hratchet⟩
      | err e => simp [hbody] at hm
      | panic => simp [hbody] at hm

end Log

/-- The session has begun the epoch itself. -/
def HasBegun {φ : Type} (s : DmSession φ) (epoch : UInt64) : Prop :=
  ∃ r, s.ratchet = some r ∧ epoch ≤ r.epoch

/-- A KAM of the epoch was delivered. -/
def KamDelivered (delivered : List SealedDmFrame) (epoch : UInt64) : Prop :=
  ∃ f ∈ delivered, f.epoch = epoch ∧ f.kam.isSome

instance (delivered : List SealedDmFrame) (epoch : UInt64) :
    Decidable (KamDelivered delivered epoch) :=
  inferInstanceAs (Decidable (∃ f ∈ delivered, _))

/-! ## Sessions refine numbered stores -/

section Refinement

variable {φ : Type}

/-- The number of the next epoch of a session. -/
def nextEpoch (s : DmSession φ) : Nat :=
  match s.ratchet with
  | none => 0
  | some r => r.epoch.toNat + 1

theorem nextEpoch_of_ratchet {s : DmSession φ} {r : DmRatchet φ} (h : s.ratchet = some r) :
    s.nextEpoch = r.epoch.toNat + 1 := by
  simp [nextEpoch, h]

theorem hasBegun_iff {s : DmSession φ} {epoch : UInt64} :
    HasBegun s epoch ↔ epoch.toNat < s.nextEpoch := by
  unfold HasBegun nextEpoch
  cases s.ratchet with
  | none => simp
  | some r =>
    simp only [Option.some.injEq, exists_eq_left', UInt64.le_iff_toNat_le]
    exact Nat.lt_succ_iff.symm

instance (s : DmSession φ) (epoch : UInt64) : Decidable (HasBegun s epoch) :=
  decidable_of_iff _ hasBegun_iff.symm

/-- The session keeps the entries and the numbering of the store. -/
structure Refines (s : DmSession φ) (st : Store (ByteBlock epochSecretLen)) : Prop where
  entry : ∀ e : UInt64, s.epochSecrets[e]? = st.entry e.toNat
  next : st.next = s.nextEpoch

variable {s : DmSession φ} {st : Store (ByteBlock epochSecretLen)}

theorem Refines.withBounds (peer : String) (bound age : UInt64) :
    Refines (DmSession.withBounds peer bound age : DmSession φ) .empty where
  entry e := by simp [DmSession.withBounds, Store.empty]
  next := rfl

/-- Beginning the next epoch refines beginning the next number. -/
theorem Refines.begun (h : Refines s st) {epoch : UInt64} {draws : SealDraws φ} {kam : Bytes}
    (hepoch : epoch.toNat = s.nextEpoch) :
    Refines (s.begun epoch draws kam) (st.begin draws.epochSecret) where
  entry e := by
    rw [getElem?_begun]
    by_cases he : e = epoch
    · simp [he, hepoch, Store.begin, h.next]
    · have hne : e.toNat ≠ st.next := by
        rw [h.next, ← hepoch]
        exact fun heq => he (UInt64.toNat.inj heq)
      rw [if_neg he, st.entry_begin_of_ne _ hne, h.entry e]
  next := by
    change st.next + 1 = epoch.toNat + 1
    rw [h.next, hepoch]

/-- Learning the secret of a vacant epoch refines learning its number. -/
theorem Refines.learned (h : Refines s st) {epoch : UInt64}
    (secret : ByteBlock epochSecretLen) (hvacant : s.epochSecrets[epoch]? = none) :
    Refines (s.learned epoch secret) (st.learn epoch.toNat secret) where
  entry e := by
    rw [getElem?_learned, h.entry e]
    rw [h.entry epoch] at hvacant
    simp [Store.learn, hvacant, UInt64.toNat_inj]
  next := h.next

/-- Taking a key from the ratchet changes neither entries nor numbering. -/
theorem Refines.advance (h : Refines s st) {r : DmRatchet φ} (hratchet : s.ratchet = some r) :
    Refines (s.advance r) st where
  entry := h.entry
  next := by
    rw [h.next, nextEpoch_of_ratchet hratchet]
    rfl

/-- A rekey begins the epoch after the last one. -/
theorem toNat_of_beginAt [F64 φ] {draws : SealDraws φ} {epoch : UInt64}
    (hfits : EpochFits s draws) (hdue : s.beginAt draws.rekeyClock = some epoch) :
    epoch.toNat = s.nextEpoch := by
  rcases beginAt_eq_some_iff.mp hdue with ⟨hratchet, rfl⟩ | ⟨r, hratchet, hshould, rfl⟩
  · simp [nextEpoch, hratchet]
  · rw [nextEpoch_of_ratchet hratchet]
    exact hfits.toNat_succ hratchet hshould

end Refinement

/-! ## A sample run -/

namespace Sample

/-- Draws when an epoch that began at 0 has reached its age. -/
def lateDraws (b : UInt8) : SealDraws Int :=
  { draws b with rekeyClock := 604800, startClock := 604800 }

/-- The frame that a party sealed after `n` others, or a blank one. -/
def nthFrame (L : Link Int) (p : Party) (n : Nat) : SealedDmFrame :=
  match (L.sealed p).reverse[n]? with
  | some m => m.frame
  | none => { epoch := 0, index := 0, nonce := [], body := [], kam := none }

def linkKeys : Party → KeypairDraws
  | .a => ⟨block 32 1, block 64 1⟩
  | .b => ⟨block 32 2, block 64 2⟩

/-- Two fresh sessions. -/
def start : Link Int where
  session _ := DmSession.new "peer"
  sealed _ := []
  delivered _ := []

/-- The first party has sealed one message. -/
def sealedOnce : Link Int :=
  start.next Primitives.transparent linkKeys (.seal .a [104, 105] (draws 7))

/-- Then the other party has sealed one of its own. -/
def sealedBoth : Link Int :=
  sealedOnce.next Primitives.transparent linkKeys (.seal .b [121, 111] (draws 8))

theorem start_fresh : start.Fresh :=
  ⟨fun _ => ⟨_, _, _, rfl⟩, fun _ => rfl, fun _ => rfl⟩

theorem sealedOnce_reachable :
    (((link Primitives.transparent linkKeys Int).restrict Faithful).restrict OneWay).Reachable
      sealedOnce := by
  have hstart : (((link Primitives.transparent linkKeys Int).restrict Faithful).restrict
      OneWay).Reachable start := .init start_fresh
  refine hstart.step (.seal .a [104, 105] (draws 7)) ⟨⟨trivial, ?_⟩, ?_⟩
  · intro r hr
    cases hr
  · rfl

theorem sealedBoth_reachable :
    ((link Primitives.transparent linkKeys Int).restrict Faithful).Reachable sealedBoth := by
  refine sealedOnce_reachable.of_restrict.step (.seal .b [121, 111] (draws 8)) ⟨trivial, ?_⟩
  intro r hr
  have hfresh : sealedOnce.session .b = DmSession.new "peer" := by
    simp [sealedOnce, start, Link.next, Function.update_of_ne]
  rw [hfresh] at hr
  cases hr

end Sample

end DmSession
end SkPqc
