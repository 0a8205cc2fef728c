import SkPqc.DmSession.Codec

/-!
# Frames too large for their length fields

The encoder casts every length to 32 bits, so the decoder takes a prefix of an
oversized field and reads on inside it.  Most such tokens are refused, since no
decodable frame is as long; the others decode to a frame that was never sealed.

Main results:

- Theorem `fieldCode_append_eq_iff`: where a truncated length field ends.
- Theorem `misread_iff`: which oversized frames have the token of another frame.
- Theorem `decodes_faithfully_iff`: a token decodes to its own frame or not at
  all, exactly when the frame is not misread.
-/

namespace SkPqc
namespace DmSession

open Rust

/-! ## Which frames are misread -/

/-- The bytes read as a body field and a KAM: a length field, a presence flag
behind as many bytes, and a second length field that reaches the end. -/
def ReadsAsBodyAndKam (bs : Bytes) : Prop :=
  ∃ bodyLen kamLen, lengthAt bs 0 = some bodyLen ∧ bs[4 + bodyLen]? = some 1 ∧
    lengthAt bs (5 + bodyLen) = some kamLen ∧ bs.length = 9 + bodyLen + kamLen

/-- What the decoder has left after the nonce. -/
def SealedDmFrame.spill (frame : SealedDmFrame) : Bytes :=
  frame.nonce.drop (frame.nonce.length % 2 ^ 32) ++ (fieldCode frame.body ++ kamBlob frame.kam)

/-- The frame has the token of another one. -/
inductive SealedDmFrame.Misread (frame : SealedDmFrame) : Prop where
  /-- The bytes behind the truncated body read as a KAM of `2 ^ 32 - 4` bytes,
  the last of which is the presence flag of the frame. -/
  | body (hnonce : frame.nonce.length < 2 ^ 32) (hkam : frame.kam = none)
      (hlow : 2 ^ 32 ≤ frame.body.length) (hhigh : frame.body.length < 2 ^ 33)
      (hbytes : [1, 0xFF, 0xFF, 0xFF, 0xFC] <+: frame.body.drop (frame.body.length - 2 ^ 32))
  /-- The bytes behind the truncated nonce read as a body and a KAM. -/
  | nonce (hnonce : 2 ^ 32 ≤ frame.nonce.length) (hreads : ReadsAsBodyAndKam frame.spill)

/-! ## Truncated fields -/

/-- A field that fits stands where the truncated length of another one ends. -/
theorem fieldCode_append_eq_iff {bs bs' rest rest' : Bytes} (hfits : bs'.length < 2 ^ 32) :
    fieldCode bs' ++ rest' = fieldCode bs ++ rest ↔
      bs' = bs.take (bs.length % 2 ^ 32) ∧ rest' = bs.drop (bs.length % 2 ^ 32) ++ rest := by
  have hle : bs.length % 2 ^ 32 ≤ bs.length := Nat.mod_le _ _
  have htake : (bs.take (bs.length % 2 ^ 32)).length = bs.length % 2 ^ 32 :=
    List.length_take_of_le hle
  have hsplit : bs.take (bs.length % 2 ^ 32) ++ (bs.drop (bs.length % 2 ^ 32) ++ rest) =
      bs ++ rest := by
    rw [← List.append_assoc, List.take_append_drop]
  unfold fieldCode
  rw [List.append_assoc, List.append_assoc]
  constructor
  · intro h
    obtain ⟨hlen, hbytes⟩ := List.append_inj h (by simp)
    rw [← u32LenBe_mod bs.length] at hlen
    have hlength := u32LenBe_inj hfits (Nat.mod_lt _ (by decide)) hlen
    rw [← hsplit] at hbytes
    exact List.append_inj hbytes (hlength.trans htake.symm)
  · rintro ⟨rfl, rfl⟩
    rw [htake, u32LenBe_mod, hsplit]

theorem length_kamBlob_pos (kam : Option Bytes) : 0 < (kamBlob kam).length := by
  cases kam with
  | none => exact Nat.one_pos
  | some kam =>
      rw [kamBlob_some, List.length_append]
      exact Nat.lt_of_lt_of_le Nat.one_pos (Nat.le_add_right _ _)

theorem length_kamBlob_some (kam : Bytes) : (kamBlob (some kam)).length = 5 + kam.length := by
  simp only [kamBlob_some, fieldCode, List.length_append, length_u32LenBe, List.length_singleton]
  omega

/-- Bytes that read so are a body and a KAM. -/
theorem ReadsAsBodyAndKam.exists_fields {bs : Bytes} (h : ReadsAsBodyAndKam bs) :
    ∃ body kam : Bytes, body.length < 2 ^ 32 ∧ kam.length < 2 ^ 32 ∧
      fieldCode body ++ kamBlob (some kam) = bs := by
  obtain ⟨bodyLen, kamLen, hbody, hflag, hkam, hend⟩ := h
  obtain ⟨hbodyLen, rest, hrest⟩ := lengthAt_eq_some_iff.mp hbody
  obtain ⟨hkamLen, kam, hkamBytes⟩ := lengthAt_eq_some_iff.mp hkam
  have hflagAt : rest.drop bodyLen = [1] ++ (u32LenBe kamLen ++ kam) := by
    obtain ⟨hlt, hone⟩ := List.getElem?_eq_some_iff.mp hflag
    have hrestAt : bs.drop 4 = rest := by
      rw [List.drop_zero] at hrest
      rw [hrest]
      exact List.drop_left' (length_u32LenBe bodyLen)
    have hnext : 4 + bodyLen + 1 = 5 + bodyLen := by omega
    rw [← hrestAt, List.drop_drop, List.drop_eq_getElem_cons hlt, hone, hnext, hkamBytes]
    rfl
  have hrestLen := congrArg List.length hrest
  have hkamBytesLen := congrArg List.length hkamBytes
  simp only [List.length_drop, List.length_append, length_u32LenBe] at hrestLen hkamBytesLen
  have hbodyTake : (rest.take bodyLen).length = bodyLen := by
    rw [List.length_take]
    omega
  have hkamTake : kam.length = kamLen := by omega
  refine ⟨rest.take bodyLen, kam, by omega, by omega, ?_⟩
  rw [List.drop_zero] at hrest
  rw [kamBlob_some, fieldCode, fieldCode, hbodyTake, hkamTake, hrest, List.append_assoc,
    ← hflagAt, List.take_append_drop]

/-- A body and a KAM that fit read so. -/
theorem readsAsBodyAndKam_append {body kam : Bytes} (hbody : body.length < 2 ^ 32)
    (hkam : kam.length < 2 ^ 32) : ReadsAsBodyAndKam (fieldCode body ++ kamBlob (some kam)) := by
  have hlayout : fieldCode body ++ kamBlob (some kam) =
      u32LenBe body.length ++ body ++ [1] ++ (u32LenBe kam.length ++ kam) := by
    simp only [kamBlob_some, fieldCode, List.append_assoc]
  have hfront : (u32LenBe body.length ++ body).length = 4 + body.length := by simp
  have hflagged : (u32LenBe body.length ++ body ++ [1]).length = 5 + body.length := by
    rw [List.length_append, hfront, List.length_singleton]
    omega
  refine ⟨body.length, kam.length, ?_, ?_, ?_, ?_⟩
  · refine lengthAt_eq_some_iff.mpr ⟨hbody, body ++ kamBlob (some kam), ?_⟩
    rw [List.drop_zero, fieldCode, List.append_assoc]
  · rw [hlayout, List.append_assoc _ [1], List.getElem?_append_right (Nat.le_of_eq hfront),
      hfront, Nat.sub_self]
    rfl
  · refine lengthAt_eq_some_iff.mpr ⟨hkam, kam, ?_⟩
    rw [hlayout]
    exact List.drop_left' hflagged
  · rw [hlayout, List.length_append, hflagged, List.length_append, length_u32LenBe]
    omega

theorem readsAsBodyAndKam_iff {bs : Bytes} :
    ReadsAsBodyAndKam bs ↔ ∃ body kam : Bytes, body.length < 2 ^ 32 ∧ kam.length < 2 ^ 32 ∧
      fieldCode body ++ kamBlob (some kam) = bs := by
  constructor
  · exact ReadsAsBodyAndKam.exists_fields
  · rintro ⟨body, kam, hbody, hkam, rfl⟩
    exact readsAsBodyAndKam_append hbody hkam

/-! ## Oversized fields -/

theorem kamBlob_injective : Function.Injective kamBlob := by
  intro kam kam' h
  cases kam with
  | none =>
      cases kam' with
      | none => rfl
      | some kam' =>
          rw [kamBlob_some] at h
          cases h
  | some kam =>
      cases kam' with
      | none =>
          rw [kamBlob_some] at h
          cases h
      | some kam' =>
          simp only [kamBlob_some, fieldCode, ← List.append_assoc] at h
          rw [(List.append_inj h (by simp)).2]

/-- A KAM that fits is no longer than `2 ^ 32` excess bytes and a flag. -/
theorem eq_none_of_kamBlob_eq {excess : Bytes} {kam kam' : Option Bytes} {n : Nat}
    (hexcess : excess.length = 2 ^ 32 * (n + 1))
    (hfits : ∀ bs, kam' = some bs → bs.length < 2 ^ 32)
    (hblob : kamBlob kam' = excess ++ kamBlob kam) :
    kam = none ∧ excess.length = 2 ^ 32 ∧
      ∃ bs, kam' = some bs ∧ bs.length = 2 ^ 32 - 4 := by
  have hflag : (kamBlob none).length = 1 := rfl
  have htotal := congrArg List.length hblob
  rw [List.length_append] at htotal
  have hpos := length_kamBlob_pos kam
  cases kam' with
  | none => omega
  | some bs =>
      have hlt := hfits bs rfl
      rw [length_kamBlob_some] at htotal
      cases kam with
      | some kam =>
          rw [length_kamBlob_some] at htotal
          omega
      | none => exact ⟨rfl, by omega, bs, rfl, by omega⟩

/-- The flag and the length field of a KAM of `2 ^ 32 - 4` bytes. -/
theorem kamBlob_of_length {bs : Bytes} (hlen : bs.length = 2 ^ 32 - 4) :
    kamBlob (some bs) = [1, 0xFF, 0xFF, 0xFF, 0xFC] ++ bs := by
  have hfour : u32LenBe (2 ^ 32 - 4) = [0xFF, 0xFF, 0xFF, 0xFC] := by decide
  rw [kamBlob_some, fieldCode, hlen, hfour]
  rfl

/-- What a truncated body leaves in front of the KAM reads as a KAM only when it
is empty, or `2 ^ 32` bytes that begin like one. -/
theorem kamBlob_eq_append_iff {excess : Bytes} {kam : Option Bytes}
    (hexcess : ∃ n, excess.length = 2 ^ 32 * n) :
    (∃ kam' : Option Bytes, (∀ bs, kam' = some bs → bs.length < 2 ^ 32) ∧
        kamBlob kam' = excess ++ kamBlob kam) ↔
      (excess = [] ∧ ∀ bs, kam = some bs → bs.length < 2 ^ 32) ∨
        kam = none ∧ excess.length = 2 ^ 32 ∧ [1, 0xFF, 0xFF, 0xFF, 0xFC] <+: excess := by
  constructor
  · rintro ⟨kam', hfits, hblob⟩
    obtain ⟨n, hn⟩ := hexcess
    cases n with
    | zero =>
        have hnil : excess = [] := List.eq_nil_of_length_eq_zero hn
        rw [hnil, List.nil_append] at hblob
        rw [← kamBlob_injective hblob]
        exact .inl ⟨hnil, hfits⟩
    | succ n =>
        obtain ⟨rfl, hlen, bs, rfl, hbs⟩ := eq_none_of_kamBlob_eq hn hfits hblob
        refine .inr ⟨rfl, hlen, ?_⟩
        rw [kamBlob_of_length hbs] at hblob
        have hfront : [1, 0xFF, 0xFF, 0xFF, 0xFC] <+: excess ++ kamBlob none := ⟨bs, hblob⟩
        apply List.prefix_of_prefix_length_le hfront (List.prefix_append _ _)
        rw [hlen]
        decide
  · rintro (⟨rfl, hfits⟩ | ⟨rfl, hlen, ⟨tail, rfl⟩⟩)
    · exact ⟨kam, hfits, rfl⟩
    · have htail : (tail ++ [0]).length = 2 ^ 32 - 4 := by
        rw [List.length_append] at hlen ⊢
        simp only [List.length_cons, List.length_nil] at hlen ⊢
        omega
      refine ⟨some (tail ++ [0]), ?_, ?_⟩
      · intro bs hbs
        cases hbs
        rw [htail]
        decide
      · rw [kamBlob_of_length htail, ← List.append_assoc]
        rfl

section Frames

variable {frame : SealedDmFrame}

/-- The rest of a token, behind the nonce, reads as a body and a KAM that fit. -/
def SealedDmFrame.SpillDecodes (frame : SealedDmFrame) : Prop :=
  ∃ (body : Bytes) (kam : Option Bytes), body.length < 2 ^ 32 ∧
    (∀ bs, kam = some bs → bs.length < 2 ^ 32) ∧ fieldCode body ++ kamBlob kam = frame.spill

/-- Some frame that fits has the layout of this one exactly when the rest of the
token decodes. -/
theorem exists_blob_eq_iff :
    (∃ other : SealedDmFrame, other.FieldsFit ∧ other.blob = frame.blob) ↔
      frame.SpillDecodes := by
  constructor
  · rintro ⟨other, ⟨hnonce, hbody, hkam⟩, hblob⟩
    rw [other.blob_eq, frame.blob_eq] at hblob
    obtain ⟨-, hblob⟩ := u64Be_isPrefixCode.split hblob
    obtain ⟨-, hblob⟩ := u64Be_isPrefixCode.split hblob
    obtain ⟨-, hspill⟩ := (fieldCode_append_eq_iff hnonce).mp hblob
    exact ⟨other.body, other.kam, hbody, hkam, hspill⟩
  · rintro ⟨body, kam, hbody, hkam, hspill⟩
    have hnonce : (frame.nonce.take (frame.nonce.length % 2 ^ 32)).length < 2 ^ 32 := by
      rw [List.length_take]
      omega
    refine ⟨{ epoch := frame.epoch, index := frame.index,
              nonce := frame.nonce.take (frame.nonce.length % 2 ^ 32), body := body,
              kam := kam }, ⟨hnonce, hbody, hkam⟩, ?_⟩
    rw [SealedDmFrame.blob_eq, frame.blob_eq]
    dsimp only
    rw [(fieldCode_append_eq_iff hnonce).mpr ⟨rfl, hspill⟩]

/-- With a nonce that fits, the rest of the token is the body field and the KAM. -/
theorem spillDecodes_of_nonce_lt (hnonce : frame.nonce.length < 2 ^ 32) :
    frame.SpillDecodes ↔ frame.FieldsFit ∨ frame.Misread := by
  have hspill : frame.spill = fieldCode frame.body ++ kamBlob frame.kam := by
    rw [SealedDmFrame.spill, Nat.mod_eq_of_lt hnonce, List.drop_length, List.nil_append]
  have hoverLen : (frame.body.drop (frame.body.length % 2 ^ 32)).length =
      frame.body.length - frame.body.length % 2 ^ 32 := List.length_drop
  have hover : ∃ n, (frame.body.drop (frame.body.length % 2 ^ 32)).length = 2 ^ 32 * n :=
    ⟨frame.body.length / 2 ^ 32, by omega⟩
  have htake : (frame.body.take (frame.body.length % 2 ^ 32)).length < 2 ^ 32 := by
    rw [List.length_take]
    omega
  have hdecodes : frame.SpillDecodes ↔ ∃ kam' : Option Bytes,
      (∀ bs, kam' = some bs → bs.length < 2 ^ 32) ∧ kamBlob kam' =
        frame.body.drop (frame.body.length % 2 ^ 32) ++ kamBlob frame.kam := by
    unfold SealedDmFrame.SpillDecodes
    rw [hspill]
    constructor
    · rintro ⟨body, kam, hbody, hkam, heq⟩
      exact ⟨kam, hkam, ((fieldCode_append_eq_iff hbody).mp heq).2⟩
    · rintro ⟨kam, hkam, heq⟩
      exact ⟨_, kam, htake, hkam, (fieldCode_append_eq_iff htake).mpr ⟨rfl, heq⟩⟩
  rw [hdecodes, kamBlob_eq_append_iff hover]
  constructor
  · rintro (⟨hnil, hkam⟩ | ⟨hkam, hlen, hbytes⟩)
    · have hbody := congrArg List.length hnil
      rw [hoverLen, List.length_nil] at hbody
      exact .inl ⟨hnonce, by omega, hkam⟩
    · have hmod : frame.body.length % 2 ^ 32 = frame.body.length - 2 ^ 32 := by omega
      rw [hmod] at hbytes
      exact .inr (.body hnonce hkam (by omega) (by omega) hbytes)
  · rintro (⟨-, hbody, hkam⟩ | hmisread)
    · refine .inl ⟨?_, hkam⟩
      rw [Nat.mod_eq_of_lt hbody, List.drop_length]
    · cases hmisread with
      | body _ hkam hlow hhigh hbytes =>
          have hmod : frame.body.length % 2 ^ 32 = frame.body.length - 2 ^ 32 := by omega
          refine .inr ⟨hkam, by omega, ?_⟩
          rwa [hmod]
      | nonce hlarge _ => omega

/-- With a larger nonce, it begins inside the nonce. -/
theorem spillDecodes_of_le_nonce (hnonce : 2 ^ 32 ≤ frame.nonce.length) :
    frame.SpillDecodes ↔ frame.Misread := by
  have hlong : 2 ^ 32 + 5 ≤ frame.spill.length := by
    have hpos := length_kamBlob_pos frame.kam
    simp only [SealedDmFrame.spill, fieldCode, List.length_append, List.length_drop,
      length_u32LenBe]
    omega
  constructor
  · rintro ⟨body, kam, hbody, hkam, hspill⟩
    refine .nonce hnonce (readsAsBodyAndKam_iff.mpr ?_)
    cases kam with
    | some kam => exact ⟨body, kam, hbody, hkam kam rfl, hspill⟩
    | none =>
        have htotal := congrArg List.length hspill
        have hflag : (kamBlob none).length = 1 := rfl
        simp only [fieldCode, List.length_append, length_u32LenBe, hflag] at htotal
        omega
  · intro hmisread
    cases hmisread with
    | body hsmall _ _ _ _ => omega
    | nonce _ hreads =>
        obtain ⟨body, kam, hbody, hkam, hspill⟩ := readsAsBodyAndKam_iff.mp hreads
        refine ⟨body, some kam, hbody, ?_, hspill⟩
        intro bs hbs
        cases hbs
        exact hkam

theorem SealedDmFrame.Misread.not_fieldsFit (h : frame.Misread) : ¬ frame.FieldsFit := by
  rintro ⟨hnonce, hbody, -⟩
  cases h with
  | body _ _ hlow _ _ => omega
  | nonce hlarge _ => omega

/-- A frame is misread exactly when it does not fit and another frame, which
does, has its token. -/
theorem misread_iff :
    frame.Misread ↔ ¬ frame.FieldsFit ∧
      ∃ other : SealedDmFrame, other.FieldsFit ∧ other.blob = frame.blob := by
  rw [exists_blob_eq_iff]
  by_cases hnonce : frame.nonce.length < 2 ^ 32
  · rw [spillDecodes_of_nonce_lt hnonce]
    constructor
    · intro hmisread
      exact ⟨hmisread.not_fieldsFit, .inr hmisread⟩
    · rintro ⟨hlarge, hfits | hmisread⟩
      · exact absurd hfits hlarge
      · exact hmisread
  · rw [spillDecodes_of_le_nonce (by omega)]
    constructor
    · intro hmisread
      exact ⟨hmisread.not_fieldsFit, hmisread⟩
    · exact And.right

/-- The token of a frame decodes to that frame or not at all, exactly when the
frame is not misread.  A Rust vector has less than `2 ^ 63` bytes. -/
theorem decodes_faithfully_iff {B : Base64.Engine} (exact : B.Exact) (frame : SealedDmFrame)
    (hlen : frame.blob.length < 2 ^ 63) :
    (∀ other, fromToken B 64 (frame.toToken B) = .ok other → other = frame) ↔
      ¬ frame.Misread := by
  have hcursor : CursorFits 64 frame.blob := by
    unfold CursorFits
    omega
  rw [fromToken_toToken_eq exact, misread_iff]
  constructor
  · rintro hfaithful ⟨hlarge, other, hfits, hblob⟩
    have hsame := hfaithful other ((fromBlob_eq_ok_iff hcursor).mpr ⟨hblob.symm, hfits⟩)
    rw [hsame] at hfits
    exact hlarge hfits
  · intro hnot other hother
    obtain ⟨hblob, hfits⟩ := (fromBlob_eq_ok_iff hcursor).mp hother
    by_cases hframe : frame.FieldsFit
    · have hown := fromBlob_blob hcursor hframe
      rw [hother, Outcome.ok.injEq] at hown
      exact hown
    · exact absurd ⟨hframe, other, hfits, hblob.symm⟩ hnot

end Frames

/-! ## A frame that is misread -/

namespace Sample

/-- A body that begins like a KAM, and no KAM. -/
def oversized (rest : Bytes) : SealedDmFrame where
  epoch := 0
  index := 0
  nonce := List.replicate 12 0
  body := [1, 0xFF, 0xFF, 0xFF, 0xFC] ++ rest
  kam := none

/-- What comes back: no body, and a KAM. -/
def misread (rest : Bytes) : SealedDmFrame where
  epoch := 0
  index := 0
  nonce := List.replicate 12 0
  body := []
  kam := some (rest ++ [0])

theorem misread_fieldsFit {rest : Bytes} (hrest : rest.length = 2 ^ 32 - 5) :
    (misread rest).FieldsFit := by
  refine ⟨by simp [misread], by simp [misread], ?_⟩
  intro kam hkam
  cases hkam
  rw [List.length_append, hrest]
  decide

/-- Where the body has `2 ^ 32` bytes, the two frames have the same layout. -/
theorem blob_misread {rest : Bytes} (hrest : rest.length = 2 ^ 32 - 5) :
    (misread rest).blob = (oversized rest).blob := by
  have hbody : (oversized rest).body.length = 2 ^ 32 := by
    rw [oversized, List.length_append, hrest]
    decide
  have hkam : (rest ++ [0]).length = 2 ^ 32 - 4 := by
    rw [List.length_append, hrest]
    decide
  have hzero : u32LenBe (2 ^ 32) = fieldCode [] := by decide
  have hfields : fieldCode (misread rest).body ++ kamBlob (misread rest).kam =
      fieldCode (oversized rest).body ++ kamBlob (oversized rest).kam := by
    rw [fieldCode.eq_def (oversized rest).body, hbody, hzero]
    change fieldCode [] ++ kamBlob (some (rest ++ [0])) = _
    rw [kamBlob_of_length hkam, List.append_assoc]
    rfl
  rw [SealedDmFrame.blob_eq, SealedDmFrame.blob_eq, hfields]
  rfl

/-- As many zeros as fill the body up. -/
def zeros : Bytes := List.replicate (2 ^ 32 - 5) 0

theorem length_zeros : zeros.length = 2 ^ 32 - 5 := List.length_replicate

/-- The oversized body beside a KAM. -/
def oversizedKeyed : SealedDmFrame := { oversized zeros with kam := some [5, 6, 7] }

theorem length_body_oversizedKeyed : oversizedKeyed.body.length = 2 ^ 32 := by
  rw [oversizedKeyed, oversized, List.length_append, length_zeros]
  decide

theorem oversizedKeyed_not_misread : ¬ oversizedKeyed.Misread := by
  rintro (⟨-, hkam, -⟩ | ⟨hnonce, -⟩)
  · cases hkam
  · exact absurd hnonce (by decide)

end Sample

/-- An oversized frame with a KAM is too large for its token, which decodes to no
other frame. -/
theorem decodes_faithfully_oversizedKeyed :
    ¬ Sample.oversizedKeyed.FieldsFit ∧
      ∀ other, fromToken Base64.standard 64 (Sample.oversizedKeyed.toToken Base64.standard) =
        .ok other → other = Sample.oversizedKeyed := by
  have hbody := Sample.length_body_oversizedKeyed
  constructor
  · rintro ⟨-, hfits, -⟩
    omega
  · have hlen : Sample.oversizedKeyed.blob.length < 2 ^ 63 := by
      have hnonce : Sample.oversizedKeyed.nonce.length = 12 := rfl
      have hkam : (kamBlob Sample.oversizedKeyed.kam).length = 8 := rfl
      rw [SealedDmFrame.blob_eq]
      simp only [fieldCode, List.length_append, length_u64Be, length_u32LenBe, hbody, hnonce, hkam]
      omega
    exact (decodes_faithfully_iff Base64.standard_exact Sample.oversizedKeyed hlen).mpr
      Sample.oversizedKeyed_not_misread

/-- A body of `2 ^ 32` bytes comes back as a frame with no body and a KAM. -/
theorem oversized_frame_misread :
    fromToken Base64.standard 64 ((Sample.oversized Sample.zeros).toToken Base64.standard) =
        .ok (Sample.misread Sample.zeros) ∧
      Sample.misread Sample.zeros ≠ Sample.oversized Sample.zeros := by
  have hfits := Sample.misread_fieldsFit Sample.length_zeros
  constructor
  · rw [fromToken_toToken_eq Base64.standard_exact, ← Sample.blob_misread Sample.length_zeros]
    exact fromBlob_blob hfits.cursorFits hfits
  · intro heq
    have hkam := congrArg SealedDmFrame.kam heq
    cases hkam

end DmSession
end SkPqc
