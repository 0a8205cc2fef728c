import SkPqc.DmSession.Link

/-!
# Slot integrity against a recombining network

The network may put any body of the sender into any slot and attach any KAM to
any epoch number, so the receiver's store may disagree with the sender's.  What
remains is the AAD: a body opens only in the slot it was sealed for.

Main results:

- Theorem `frameAad_injective`: the AAD determines the slot.
- Theorem `genuine`: every logged frame holds the AEAD body of its plaintext
  under its key, its nonce and the AAD of its slot.
- Theorem `slot_integrity`: whatever opens in a slot is what the sender sealed
  in that slot under that nonce.
-/

namespace SkPqc
namespace DmSession

open Rust Kem Ratchet PrefixCode

/-- The AAD of a frame determines its slot. -/
theorem frameAad_injective {epoch epoch' index index' : UInt64}
    (h : frameAad epoch index = frameAad epoch' index') : epoch = epoch' ∧ index = index' := by
  unfold frameAad at h
  rw [List.append_assoc, List.append_assoc _ (u64Be epoch')] at h
  have htail := List.append_cancel_left h
  rcases u64Be_isPrefixCode.split htail with ⟨hepoch, hindex⟩
  exact ⟨hepoch, u64Be_injective hindex⟩

variable {φ : Type} [F64 φ] {P : Primitives} {keys : Party → KeypairDraws}

/-! ## What the log records -/

/-- The frame holds the AEAD body of the plaintext under the logged key. -/
def Sealed.Genuine (P : Primitives) (m : Sealed) : Prop :=
  ∃ key nonce, m.key = some key ∧ m.frame.nonce = List.Vector.toList nonce ∧
    P.aesGcmEncrypt key nonce (frameAad m.frame.epoch m.frame.index) m.plaintext =
      some m.frame.body

/-- What one seal logs is genuine. -/
theorem genuine_of_mem_logged {s : DmSession φ} {plaintext peerHybridPub : Bytes}
    {draws : SealDraws φ} {m : Sealed} (hm : m ∈ logged P s plaintext peerHybridPub draws) :
    m.Genuine P := by
  have hstep := seal_step P s plaintext peerHybridPub draws
  generalize hrun : (DmSession.seal P plaintext peerHybridPub draws).run s = res at hstep
  cases hstep with
  | refused _ => simp [logged, hrun] at hm
  | @took s₁ r hrekey hratchet =>
      rcases mem_logged hrekey hratchet hm with ⟨hbody, hplain, hkey⟩
      rcases (sealBody_eq_ok_iff P).mp hbody with ⟨body, hseal, hframe⟩
      refine ⟨nextKey P r, draws.frameNonce, hkey, ?_, ?_⟩
      · rw [hframe]
      · rw [hframe, hplain]
        exact hseal

/-- Every logged frame is genuine, in every run over any network. -/
theorem genuine {L : Link φ} (hL : (link P keys φ).Reachable L) (p : Party) :
    ∀ m ∈ L.sealed p, m.Genuine P := by
  revert p
  refine hL.invariant (fun L => ∀ p, ∀ m ∈ L.sealed p, m.Genuine P) ?_ ?_
  · rintro L ⟨_, hsealed, _⟩ p m hm
    rw [hsealed p] at hm
    cases hm
  · rintro L (⟨q, plaintext, draws⟩ | ⟨q, frame⟩) _ hinv _ p m hm
    · by_cases hp : p = q
      · subst hp
        simp only [link, Link.next, Function.update_self, List.mem_append] at hm
        rcases hm with hnew | hold
        · exact genuine_of_mem_logged hnew
        · exact hinv p m hold
      · simp only [link, Link.next, Function.update_of_ne hp] at hm
        exact hinv p m hm
    · exact hinv p m hm

/-! ## Recombined frames -/

/-- The network's frames: any slot, any KAM, a 12-byte nonce, and a body that
the sender produced or that decrypts under no key. -/
def Recombined (P : Primitives) (sent : List Sealed) (frame : SealedDmFrame) : Prop :=
  frame.nonce.length = frameNonceLen ∧
    ((∃ m ∈ sent, m.frame.body = frame.body) ∨
      ∀ key nonce aad, P.aesGcmDecrypt key nonce aad frame.body = none)

/-- One sender, and a network that recombines its frames. -/
def Recombining (P : Primitives) (L : Link φ) : Event φ → Prop
  | .seal p _ _ => p = .a
  | .deliver p frame => p = .b ∧ Recombined P (L.sealed .a) frame

/-- An idealised AEAD for the bodies sent: each decrypts only under a key, a
nonce and an AAD under which it was sealed. -/
def IdealFor (P : Primitives) (sent : List Sealed) : Prop :=
  ∀ m ∈ sent, ∀ key nonce aad plain,
    P.aesGcmDecrypt key nonce aad m.frame.body = some plain →
      ∃ m' ∈ sent, m'.frame.body = m.frame.body ∧ m'.key = some key ∧
        m'.frame.nonce = List.Vector.toList nonce ∧
        frameAad m'.frame.epoch m'.frame.index = aad

omit [F64 φ] in
/-- An open that returned a plaintext decrypted the frame's body under some
secret, in the slot of the frame. -/
theorem decrypt_of_open_eq_ok {s : DmSession φ} {frame : SealedDmFrame} {myPriv plain : Bytes}
    (hlen : frame.nonce.length = frameNonceLen)
    (hopen : ((DmSession.open P frame myPriv).run s).1 = .ok plain) :
    ∃ secret nonce, frame.nonce = List.Vector.toList nonce ∧
      P.aesGcmDecrypt (messageKey P secret frame.epoch frame.index) nonce
        (frameAad frame.epoch frame.index) frame.body = some plain := by
  have hbody : ∃ secret, openBody P secret frame = .ok plain := by
    have hstep := open_step P s frame myPriv
    generalize (DmSession.open P frame myPriv).run s = res at hstep hopen
    cases hstep with
    | known _ => exact ⟨_, hopen⟩
    | learned _ _ _ => exact ⟨_, hopen⟩
    | refused _ _ _ => cases hopen
    | missing _ _ => cases hopen
  rcases hbody with ⟨secret, hbody⟩
  rcases exists_block hlen with ⟨nonce, hnonce⟩
  refine ⟨secret, nonce, hnonce, ?_⟩
  unfold openBody at hbody
  rw [hnonce, Primitives.aes256GcmDecrypt_toList, Outcome.ok_bind] at hbody
  cases hplain : P.aesGcmDecrypt (messageKey P secret frame.epoch frame.index) nonce
      (frameAad frame.epoch frame.index) frame.body with
  | none => simp [hplain] at hbody
  | some plain' =>
      rw [hplain, Outcome.okOr_some] at hbody
      cases hbody
      rfl

/-- Whatever the receiver opens in a slot is the plaintext of a frame that the
sender sealed with exactly that epoch, index and nonce. -/
theorem slot_integrity (aead : P.AeadLaws) {L : Link φ}
    (hL : ((link P keys φ).restrict (Recombining P)).Reachable L)
    (hideal : IdealFor P (L.sealed .a)) {frame : SealedDmFrame}
    (hframe : Recombining P L (.deliver .b frame)) {plain : Bytes}
    (hopen : ((DmSession.open P frame (privateKey P keys .b)).run (L.session .b)).1 =
      .ok plain) :
    ∃ m ∈ L.sealed .a, m.frame.epoch = frame.epoch ∧ m.frame.index = frame.index ∧
      m.frame.nonce = frame.nonce ∧ m.plaintext = plain := by
  rcases hframe with ⟨_, hlen, hbody⟩
  rcases decrypt_of_open_eq_ok hlen hopen with ⟨secret, nonce, hnonce, hplain⟩
  rcases hbody with ⟨m, hm, hsame⟩ | hjunk
  · rw [← hsame] at hplain
    rcases hideal m hm _ _ _ _ hplain with ⟨m', hm', hbody', hkey', hnonce', haad'⟩
    rcases frameAad_injective haad' with ⟨hepoch, hindex⟩
    rcases genuine hL.of_restrict .a m' hm' with ⟨key, nonce'', hkey, hnonce'', hseal⟩
    have hkeys : key = messageKey P secret frame.epoch frame.index := by
      rw [hkey'] at hkey
      exact (Option.some.inj hkey).symm
    have hnonces : nonce'' = nonce := List.Vector.toList_injective (hnonce''.symm.trans hnonce')
    have hdecrypt := aead.decrypt_encrypt _ _ _ _ _ hseal
    rw [haad', hkeys, hnonces, hbody', hplain] at hdecrypt
    exact ⟨m', hm', hepoch, hindex, hnonce'.trans hnonce.symm,
      (Option.some.inj hdecrypt).symm⟩
  · rw [hjunk] at hplain
    cases hplain

/-! ## A sample run -/

namespace Sample

/-- The AEAD seals once, in slot `(0, 0)`. -/
def slotPrimitives : Primitives :=
  Primitives.tagged (Primitives.onlyTag (block 32 7) (block 12 7) (frameAad 0 0))

/-- One message was sealed, in slot `(0, 0)`. -/
def slotLink : Link Int :=
  start.next slotPrimitives linkKeys (.seal .a [104, 105] (draws 7))

/-- The frame of that message. -/
def slotFrame : SealedDmFrame :=
  match slotLink.sealed .a with
  | [m] => m.frame
  | _ => { epoch := 0, index := 0, nonce := [], body := [], kam := none }

theorem slotLink_ideal : IdealFor slotPrimitives (slotLink.sealed .a) := by
  have hlog : ∀ m ∈ slotLink.sealed .a, m.key = some (block 32 7) ∧
      m.frame.nonce = (block 12 7).toList ∧ frameAad m.frame.epoch m.frame.index = frameAad 0 0 ∧
      List.replicate 16 1 <:+ m.frame.body := by
    decide +kernel
  intro m hm key nonce aad plain hdecrypt
  rcases hlog m hm with ⟨hkey, hnonce, haad, hsuffix⟩
  rcases Primitives.onlyTag_opensOnlyUnder hsuffix _ _ _ _ hdecrypt with ⟨rfl, rfl, rfl⟩
  exact ⟨m, hm, rfl, hkey, hnonce, haad⟩

/-- The frame with another epoch number, its KAM and its body untouched. -/
def misnumbered : SealedDmFrame := { slotFrame with epoch := 5 }

/-- The receiver was handed that frame first. -/
def misled : Link Int := slotLink.next slotPrimitives linkKeys (.deliver .b misnumbered)

theorem misled_ideal : IdealFor slotPrimitives (misled.sealed .a) := slotLink_ideal

theorem slotFrame_spec :
    (∃ m ∈ slotLink.sealed .a, m.frame.body = slotFrame.body) ∧
      (∃ m ∈ slotLink.sealed .a, m.frame.body = misnumbered.body) ∧
      misnumbered.nonce.length = frameNonceLen ∧ slotFrame.epoch = 0 ∧ slotFrame.index = 0 ∧
      slotFrame.nonce = (block 12 7).toList := by
  decide +kernel

theorem misled_reachable :
    ((link slotPrimitives linkKeys Int).restrict (Recombining slotPrimitives)).Reachable
      misled := by
  have hstart : ((link slotPrimitives linkKeys Int).restrict
      (Recombining slotPrimitives)).Reachable start := .init start_fresh
  have hsealed : ((link slotPrimitives linkKeys Int).restrict
      (Recombining slotPrimitives)).Reachable slotLink := by
    refine hstart.step (.seal .a [104, 105] (draws 7)) ⟨trivial, ?_⟩
    rfl
  rcases slotFrame_spec with ⟨-, hbody, hlen, -⟩
  have hacc : Recombining slotPrimitives slotLink (.deliver .b misnumbered) :=
    ⟨rfl, hlen, .inl hbody⟩
  exact hsealed.step _ ⟨trivial, hacc⟩

end Sample

/-- The receiver has learned the secret under a wrong number, and what opens is
still the sealed frame in its own slot. -/
theorem slot_integrity_misled :
    (Sample.misled.session .b).epochSecrets[(5 : UInt64)]? = some (Sample.block 32 7) ∧
    ((DmSession.open Sample.slotPrimitives Sample.misnumbered
      (privateKey Sample.slotPrimitives Sample.linkKeys .b)).run
      (Sample.misled.session .b)).1 = .err .openFailed ∧
    ∃ m ∈ Sample.misled.sealed .a, m.frame.epoch = 0 ∧ m.frame.index = 0 ∧
      m.frame.nonce = (Sample.block 12 7).toList ∧ m.plaintext = [104, 105] := by
  refine ⟨by decide +kernel, by decide +kernel, ?_⟩
  rcases Sample.slotFrame_spec with ⟨hsent, -, -, hepoch, hindex, hnonce⟩
  have hopen : ((DmSession.open Sample.slotPrimitives Sample.slotFrame
      (privateKey Sample.slotPrimitives Sample.linkKeys .b)).run
      (Sample.misled.session .b)).1 = .ok [104, 105] := by
    decide +kernel
  have hlen : Sample.slotFrame.nonce.length = frameNonceLen := by
    rw [hnonce]
    rfl
  have aead : Sample.slotPrimitives.AeadLaws := Primitives.tagged_aeadLaws _
  have hmain := slot_integrity aead Sample.misled_reachable Sample.misled_ideal
    ⟨rfl, hlen, .inl hsent⟩ hopen
  rwa [hepoch, hindex, hnonce] at hmain

end DmSession
end SkPqc
