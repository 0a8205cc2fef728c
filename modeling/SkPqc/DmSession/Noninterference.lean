import SkPqc.DmSession.FailedRekey
import SkPqc.DmSession.Link
import Mathlib.Data.List.Forall2

/-!
# What the contents of messages influence

A seal encrypts its plaintext last: the epoch, the index, the KAM and the nonce
are settled before, and so is the state that it leaves, even where the AEAD
refuses the plaintext.  An open touches the session through the epoch and the KAM
of its frame alone.  So nothing but the bodies of the frames depends on what the
parties write.

The network follows a schedule: it relays frames by their position in the
sender's log, any number of times and in any order, and injects frames of its
own.

Main results:

- Theorems `seal_state_eq` and `open_state_eq`: the state that a call leaves does
  not depend on the plaintext, nor on the body, the index and the nonce.
- Theorem `session_ignores_contents`: calls that differ in such contents leave
  one session.
- Theorem `traffic_ignores_contents`: over any schedule, contents of equal length
  leave equal sessions and frames that differ in their bodies alone.
-/

namespace SkPqc
namespace DmSession

open Rust Kem Ratchet

variable {φ : Type} [F64 φ] {P : Primitives}

/-! ## One call -/

theorem rekeyIfDue_of_none {s : DmSession φ} {draws : SealDraws φ}
    (hdue : s.beginAt draws.rekeyClock = none) (peerHybridPub : Bytes) :
    (rekeyIfDue P peerHybridPub draws).run s = (.ok (), s) := by
  unfold rekeyIfDue
  rw [Mut.run_get_bind, hdue]
  rfl

/-- A seal after a rekey that returned takes the next key of the ratchet. -/
theorem seal_of_rekey {s s₁ : DmSession φ} {r : DmRatchet φ} {peerHybridPub : Bytes}
    {draws : SealDraws φ} (hrekey : (rekeyIfDue P peerHybridPub draws).run s = (.ok (), s₁))
    (hratchet : s₁.ratchet = some r) (plaintext : Bytes) :
    (DmSession.seal P plaintext peerHybridPub draws).run s =
      (sealBody P s₁ r plaintext draws, s₁.advance r) := by
  have hstep := seal_step P s plaintext peerHybridPub draws
  generalize (DmSession.seal P plaintext peerHybridPub draws).run s = res at hstep ⊢
  cases hstep with
  | refused hrekey' =>
      rw [hrekey] at hrekey'
      cases hrekey'
  | took hrekey' hratchet' =>
      rw [hrekey] at hrekey'
      cases hrekey'
      rw [hratchet] at hratchet'
      cases hratchet'
      rfl

/-- A seal settles everything but the body before it looks at the plaintext. -/
theorem seal_plaintext_last (s : DmSession φ) (peerHybridPub : Bytes) (draws : SealDraws φ) :
    (∃ e, ∀ plaintext, (DmSession.seal P plaintext peerHybridPub draws).run s =
      (.err (.ratchet e), s)) ∨
    ∃ s₁ r, ∀ plaintext, (DmSession.seal P plaintext peerHybridPub draws).run s =
      (sealBody P s₁ r plaintext draws, s₁.advance r) := by
  have hfirst := seal_step P s [] peerHybridPub draws
  generalize (DmSession.seal P [] peerHybridPub draws).run s = res at hfirst
  cases hfirst with
  | @refused e hrekey =>
      left
      refine ⟨e, fun plaintext => ?_⟩
      exact Mut.run_bind_of_err hrekey
  | @took s₁ r hrekey hratchet =>
      right
      exact ⟨s₁, r, seal_of_rekey hrekey hratchet⟩

/-- The state that a seal leaves does not depend on the plaintext, whether or not
the AEAD accepts it. -/
theorem seal_state_eq (s : DmSession φ) (plaintext plaintext' peerHybridPub : Bytes)
    (draws : SealDraws φ) :
    ((DmSession.seal P plaintext peerHybridPub draws).run s).2 =
      ((DmSession.seal P plaintext' peerHybridPub draws).run s).2 := by
  rcases seal_plaintext_last (P := P) s peerHybridPub draws with ⟨e, hrun⟩ | ⟨s₁, r, hrun⟩
  · rw [hrun, hrun]
  · rw [hrun, hrun]

/-- What a frame shows beside its body. -/
def SealedDmFrame.header (frame : SealedDmFrame) : UInt64 × UInt64 × Bytes × Option Bytes :=
  (frame.epoch, frame.index, frame.nonce, frame.kam)

/-- What a frame shows on the wire: its header and the length of its body. -/
def SealedDmFrame.visible (frame : SealedDmFrame) :
    (UInt64 × UInt64 × Bytes × Option Bytes) × Nat :=
  (frame.header, frame.body.length)

omit [F64 φ] in
/-- Two plaintexts sealed on one ratchet have one header. -/
theorem header_of_sealBody {s₁ : DmSession φ} {r : DmRatchet φ} {plaintext plaintext' : Bytes}
    {draws : SealDraws φ} {frame frame' : SealedDmFrame}
    (hframe : sealBody P s₁ r plaintext draws = .ok frame)
    (hframe' : sealBody P s₁ r plaintext' draws = .ok frame') : frame.header = frame'.header := by
  rcases (sealBody_eq_ok_iff P).mp hframe with ⟨body, _, rfl⟩
  rcases (sealBody_eq_ok_iff P).mp hframe' with ⟨body', _, rfl⟩
  rfl

/-- The state that an open leaves, in terms of the epoch and the KAM. -/
def afterOpen (P : Primitives) (s : DmSession φ) (epoch : UInt64) (kam : Option Bytes)
    (myHybridPriv : Bytes) : DmSession φ :=
  match s.epochSecrets[epoch]?, kam with
  | none, some kam =>
      match unwrapDmEpochSecret P kam myHybridPriv with
      | .ok secret => s.learned epoch secret
      | _ => s
  | _, _ => s

omit [F64 φ] in
theorem open_state_eq (s : DmSession φ) (frame : SealedDmFrame) (myHybridPriv : Bytes) :
    ((DmSession.open P frame myHybridPriv).run s).2 =
      s.afterOpen P frame.epoch frame.kam myHybridPriv := by
  have hstep := open_step P s frame myHybridPriv
  generalize (DmSession.open P frame myHybridPriv).run s = res at hstep ⊢
  cases hstep with
  | known hstored => simp [afterOpen, hstored]
  | learned hvacant hkam hunwrap => simp [afterOpen, hvacant, hkam, hunwrap]
  | refused hvacant hkam hunwrap => simp [afterOpen, hvacant, hkam, hunwrap]
  | missing hvacant hkam => simp [afterOpen, hvacant, hkam]

/-! ## Calls of one session -/

/-- Calls that differ at most in contents: plaintexts of any length, and the
bodies, indices and nonces of opened frames. -/
inductive SameButContents : Call φ → Call φ → Prop where
  | seal (plaintext plaintext' peerHybridPub : Bytes) (draws : SealDraws φ) :
      SameButContents (.seal plaintext peerHybridPub draws) (.seal plaintext' peerHybridPub draws)
  | open {frame frame' : SealedDmFrame} (hepoch : frame.epoch = frame'.epoch)
      (hkam : frame.kam = frame'.kam) (myHybridPriv : Bytes) :
      SameButContents (.open frame myHybridPriv) (.open frame' myHybridPriv)

theorem SameButContents.call_eq {c c' : Call φ} (h : SameButContents c c') (s : DmSession φ) :
    (s.call P c).2 = (s.call P c').2 := by
  cases h with
  | «seal» plaintext plaintext' peerHybridPub draws =>
      exact seal_state_eq s plaintext plaintext' peerHybridPub draws
  | «open» hepoch hkam myHybridPriv =>
      have hopened := open_state_eq (P := P) s
      simp only [call, Prod.map_snd, id_eq, hopened, hepoch, hkam]

/-- The frames of two replies, where both sealed one, have one header. -/
def SameHeader (reply reply' : Reply) : Prop :=
  ∀ frame frame', reply = .sealed (.ok frame) → reply' = .sealed (.ok frame') →
    frame.header = frame'.header

theorem SameButContents.sameHeader {c c' : Call φ} (h : SameButContents c c')
    (s : DmSession φ) : SameHeader (s.call P c).1 (s.call P c').1 := by
  cases h with
  | «seal» plaintext plaintext' peerHybridPub draws =>
      intro frame frame' hframe hframe'
      rcases seal_plaintext_last (P := P) s peerHybridPub draws with ⟨e, hrun⟩ | ⟨s₁, r, hrun⟩
      · rw [call, hrun] at hframe
        cases hframe
      · simp only [call, hrun, Prod.map_fst, Reply.sealed.injEq] at hframe hframe'
        exact header_of_sealBody hframe hframe'
  | «open» hepoch hkam myHybridPriv =>
      intro frame frame' hframe
      cases hframe

/-- Calls that differ in contents only leave one session, and the frames that both
sequences seal at one place have one header.  A plaintext that the AEAD refuses
counts like any other. -/
theorem session_ignores_contents {calls calls' : List (Call φ)}
    (h : List.Forall₂ SameButContents calls calls') (s : DmSession φ) :
    s.after P calls = s.after P calls' ∧
      List.Forall₂ SameHeader (s.replies P calls) (s.replies P calls') := by
  induction h generalizing s with
  | nil => exact ⟨rfl, .nil⟩
  | @cons c c' cs cs' hcall _ ih =>
      have hafter : ∀ (c : Call φ) cs, s.after P (c :: cs) = (s.call P c).2.after P cs :=
        fun _ _ => rfl
      have hrest := ih (s.call P c).2
      rw [hafter, hafter, replies, replies, ← hcall.call_eq s]
      exact ⟨hrest.1, .cons (hcall.sameHeader s) hrest.2⟩

/-! ## Two sessions and a schedule -/

/-- A step of the parties and the network: a party seals, the network hands a
party the frame at a position of its peer's log, or one of its own. -/
inductive Move (φ : Type) where
  | seal (p : Party) (plaintext : Bytes) (draws : SealDraws φ)
  | relay (p : Party) (position : Nat)
  | inject (p : Party) (frame : SealedDmFrame)

section Schedules

variable (P : Primitives) (keys : Party → KeypairDraws)

/-- A position without a frame is skipped. -/
def Link.move (L : Link φ) : Move φ → Link φ
  | .seal p plaintext draws => L.next P keys (.seal p plaintext draws)
  | .relay p position =>
      match (L.sealed p.peer)[position]? with
      | some m => L.next P keys (.deliver p m.frame)
      | none => L
  | .inject p frame => L.next P keys (.deliver p frame)

/-- The link after a schedule. -/
def Link.follow (L : Link φ) (moves : List (Move φ)) : Link φ :=
  moves.foldl (Link.move P keys) L

end Schedules

/-- Moves that differ at most in contents: plaintexts of one length, within the
limit of AES-GCM, and the bodies, indices and nonces of injected frames. -/
inductive SameSchedule : Move φ → Move φ → Prop where
  | seal (p : Party) {plaintext plaintext' : Bytes} (hlength : plaintext.length = plaintext'.length)
      (hmax : plaintext.length ≤ aesGcmMax) (draws : SealDraws φ) :
      SameSchedule (.seal p plaintext draws) (.seal p plaintext' draws)
  | relay (p : Party) (position : Nat) : SameSchedule (.relay p position) (.relay p position)
  | inject (p : Party) {frame frame' : SealedDmFrame} (hepoch : frame.epoch = frame'.epoch)
      (hkam : frame.kam = frame'.kam) : SameSchedule (.inject p frame) (.inject p frame')

/-- The links have the same sessions, and show the same traffic. -/
structure SameTraffic (L L' : Link φ) : Prop where
  session : L.session = L'.session
  visible : ∀ p, (L.sealed p).map (fun m => m.frame.visible) =
    (L'.sealed p).map fun m => m.frame.visible

omit [F64 φ] in
theorem visible_of_sealBody (aead : P.AeadLaws) {s₁ : DmSession φ} {r : DmRatchet φ}
    {plaintext plaintext' : Bytes} (hlength : plaintext.length = plaintext'.length)
    {draws : SealDraws φ} {frame frame' : SealedDmFrame}
    (hframe : sealBody P s₁ r plaintext draws = .ok frame)
    (hframe' : sealBody P s₁ r plaintext' draws = .ok frame') :
    frame.visible = frame'.visible := by
  have hheader := header_of_sealBody hframe hframe'
  rcases (sealBody_eq_ok_iff P).mp hframe with ⟨body, hbody, rfl⟩
  rcases (sealBody_eq_ok_iff P).mp hframe' with ⟨body', hbody', rfl⟩
  have hbodies : body.length = body'.length := by
    rw [aead.length_encrypt _ _ _ _ _ hbody, aead.length_encrypt _ _ _ _ _ hbody', hlength]
  exact Prod.ext hheader hbodies

/-- What a seal adds to the log shows the length of the plaintext, not more. -/
theorem visible_logged (aead : P.AeadLaws) (s : DmSession φ) {plaintext plaintext' : Bytes}
    (hlength : plaintext.length = plaintext'.length) (hmax : plaintext.length ≤ aesGcmMax)
    (peerHybridPub : Bytes) (draws : SealDraws φ) :
    (logged P s plaintext peerHybridPub draws).map (fun m => m.frame.visible) =
      (logged P s plaintext' peerHybridPub draws).map fun m => m.frame.visible := by
  rcases seal_plaintext_last (P := P) s peerHybridPub draws with ⟨e, hrun⟩ | ⟨s₁, r, hrun⟩
  · simp [logged, hrun]
  · rcases exists_sealBody_eq_ok aead s₁ r draws hmax with ⟨frame, hframe⟩
    rcases exists_sealBody_eq_ok aead s₁ r draws (hlength ▸ hmax) with ⟨frame', hframe'⟩
    simp [logged, hrun, hframe, hframe', visible_of_sealBody aead hlength hframe hframe']

section Steps

variable {keys : Party → KeypairDraws}

/-- Frames with one epoch and one KAM do the same to a receiver. -/
theorem SameTraffic.deliver {L L' : Link φ} (h : SameTraffic L L') (p : Party)
    {frame frame' : SealedDmFrame} (hepoch : frame.epoch = frame'.epoch)
    (hkam : frame.kam = frame'.kam) :
    SameTraffic (L.next P keys (.deliver p frame)) (L'.next P keys (.deliver p frame')) where
  session := by
    simp only [Link.next, open_state_eq, h.session, hepoch, hkam]
  visible := h.visible

/-- Moves that differ in contents keep the traffic the same. -/
theorem SameTraffic.move (aead : P.AeadLaws) {L L' : Link φ} (h : SameTraffic L L')
    {m m' : Move φ} (hmove : SameSchedule m m') :
    SameTraffic (L.move P keys m) (L'.move P keys m') := by
  cases hmove with
  | @«seal» p plaintext plaintext' hlength hmax draws =>
      have hstate := seal_state_eq (P := P) (L'.session p) plaintext plaintext'
        (publicKey P keys p.peer) draws
      have hlogged := visible_logged aead (L'.session p) hlength hmax
        (publicKey P keys p.peer) draws
      constructor
      · simp only [Link.move, Link.next, h.session, hstate]
      · intro q
        rcases p.eq_or_eq_peer q with rfl | rfl
        · simp only [Link.move, Link.next, Function.update_self, List.map_append, h.session,
            hlogged, h.visible]
        · simp only [Link.move, Link.next, Function.update_of_ne p.peer_ne, h.visible]
  | relay p position =>
      have hframe := congrArg (fun log => log[position]?) (h.visible p.peer)
      simp only [List.getElem?_map] at hframe
      cases hm : (L.sealed p.peer)[position]? with
      | none =>
          cases hm' : (L'.sealed p.peer)[position]? with
          | none => simpa only [Link.move, hm, hm'] using h
          | some m' => simp [hm, hm'] at hframe
      | some m =>
          cases hm' : (L'.sealed p.peer)[position]? with
          | none => simp [hm, hm'] at hframe
          | some m' =>
              simp only [hm, hm', Option.map_some, Option.some.injEq, SealedDmFrame.visible,
                SealedDmFrame.header, Prod.mk.injEq] at hframe
              have hdelivered : SameTraffic (L.next P keys (.deliver p m.frame))
                  (L'.next P keys (.deliver p m'.frame)) :=
                h.deliver p hframe.1.1 hframe.1.2.2.2
              simpa only [Link.move, hm, hm'] using hdelivered
  | inject p hepoch hkam => exact h.deliver p hepoch hkam

/-- Over any schedule of seals, relays and injected frames, in any order, the
contents of the messages influence nothing but the bytes of the bodies: contents
of equal length leave both sessions with the same secrets, indices and KAMs, and
the network sees the same frames but for their bodies. -/
theorem traffic_ignores_contents (aead : P.AeadLaws) (L : Link φ) {moves moves' : List (Move φ)}
    (h : List.Forall₂ SameSchedule moves moves') :
    SameTraffic (L.follow P keys moves) (L.follow P keys moves') := by
  have hstep : Relator.LiftFun (SameTraffic (φ := φ))
      (Relator.LiftFun SameSchedule SameTraffic) (Link.move P keys) (Link.move P keys) := by
    intro K K' hlinks m m' hmoves
    exact hlinks.move aead hmoves
  exact List.rel_foldl hstep ⟨rfl, fun _ => rfl⟩ h

end Steps

/-- "hi" and "yo", relayed twice, lead to the same traffic. -/
theorem traffic_ignores_contents_sample :
    SameTraffic
      (Sample.start.follow Primitives.transparent Sample.linkKeys
        [.seal .a [104, 105] (Sample.draws 7), .relay .b 0, .relay .b 0])
      (Sample.start.follow Primitives.transparent Sample.linkKeys
        [.seal .a [121, 111] (Sample.draws 7), .relay .b 0, .relay .b 0]) := by
  have hlength : List.length [(104 : UInt8), 105] = List.length [(121 : UInt8), 111] := rfl
  have hmax : List.length [(104 : UInt8), 105] ≤ aesGcmMax := by simp [aesGcmMax]
  apply traffic_ignores_contents (Primitives.tagged_aeadLaws _)
  exact .cons (.seal .a hlength hmax _) (.cons (.relay .b 0) (.cons (.relay .b 0) .nil))

/-- So do the session and the headers of one party, for contents of any length. -/
theorem session_ignores_contents_sample :
    let s : DmSession Int := DmSession.new "bob"
    let long := s.after Primitives.transparent [.seal [104, 105] (Sample.keys 2).publicKey
      (Sample.draws 7)]
    let short := s.after Primitives.transparent [.seal [] (Sample.keys 2).publicKey
      (Sample.draws 7)]
    long = short :=
  (session_ignores_contents (.cons (.seal _ _ _ _) .nil) _).1

end DmSession
end SkPqc
