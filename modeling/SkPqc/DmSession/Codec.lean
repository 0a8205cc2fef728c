import SkPqc.DmSession.Token

/-!
# Exactness of the `pqdr1:` codec

The decoder moves a cursor over the blob.  A reader is exact when it returns a
value at a position precisely if the code of the value stands there, and leaves
the cursor behind the code.  The three kinds of field are exact, so the frame
is, and with a canonical Base64 engine so is the token.

Main results:

- Theorem `fromBlob_eq_ok_iff`: a blob decodes to a frame exactly if it is the
  layout of that frame and the lengths of its fields fit.
- Theorem `token_codec_exact`: so do tokens, and every other token is a
  `BadToken`.
-/

namespace SkPqc
namespace DmSession

open Rust

/-- The fields of the frame have lengths that their length prefixes can hold. -/
def SealedDmFrame.FieldsFit (frame : SealedDmFrame) : Prop :=
  frame.nonce.length < 2 ^ 32 ∧ frame.body.length < 2 ^ 32 ∧
    ∀ kam, frame.kam = some kam → kam.length < 2 ^ 32

/-! ## Exact readers -/

section Readers

variable {w : Nat} {α : Type}

/-- At every position the reader returns the value whose code stands there, if
the value fits, and only that. -/
structure Reads (w : Nat) (read : Bytes → Nat → Outcome DmSessionError (α × Nat))
    (code : α → Bytes) (fits : α → Prop) : Prop where
  complete : ∀ {blob front rest : Bytes} {v : α}, CursorFits w blob →
    blob = front ++ (code v ++ rest) → fits v →
      read blob front.length = .ok (v, (front ++ code v).length)
  sound : ∀ {blob front rest : Bytes} {v : α} {off : Nat}, CursorFits w blob →
    blob = front ++ rest → read blob front.length = .ok (v, off) →
      fits v ∧ (∃ rest', rest = code v ++ rest') ∧ off = (front ++ code v).length

/-- `take` reads the bytes themselves. -/
theorem take_reads (n : Nat) (hn : n < 2 ^ 32) :
    Reads w (fun blob off => take w blob off n) id fun chunk => chunk.length = n where
  complete {blob front rest chunk} hfits hblob hlen := by
    have htotal := congrArg List.length hblob
    simp only [id_eq, List.length_append] at htotal hblob ⊢
    have hstop : (front.length + n) % 2 ^ w = front.length + n := by
      unfold CursorFits at hfits
      exact Nat.mod_eq_of_lt (by omega)
    unfold take
    simp only [hstop]
    rw [if_neg (by omega), hblob, ← List.append_assoc, slice_append_middle rfl (by rw [hlen]), hlen]
    rfl
  sound {blob front rest chunk off} hfits hblob hread := by
    have htotal := congrArg List.length hblob
    rw [List.length_append] at htotal
    have hstop : (front.length + n) % 2 ^ w = front.length + n := by
      unfold CursorFits at hfits
      exact Nat.mod_eq_of_lt (by omega)
    unfold take at hread
    simp only [hstop] at hread
    split at hread
    · cases hread
    · rename_i hle
      have htake : (rest.take n).length = n := by
        rw [List.length_take]
        omega
      have hsplit : blob = front ++ rest.take n ++ rest.drop n := by
        rw [List.append_assoc, List.take_append_drop, hblob]
      rw [hsplit, slice_append_middle rfl (by rw [htake])] at hread
      cases hread
      refine ⟨htake, ⟨rest.drop n, (List.take_append_drop n rest).symm⟩, ?_⟩
      rw [id_eq, List.length_append, htake]

theorem takeU64_reads : Reads w (takeU64 w) u64Be fun _ => True where
  complete {blob front rest x} hfits hblob _ := by
    have htake := (take_reads 8 (by decide)).complete (v := u64Be x) hfits hblob (length_u64Be x)
    simp only [id_eq] at htake
    rcases exists_block (length_u64Be x) with ⟨b, hb⟩
    unfold takeU64
    rw [htake, Outcome.ok_bind]
    simp only [hb, fromSlice_toList, Outcome.ok_bind, u64OfBe_of_toList_eq hb.symm]
    rfl
  sound {blob front rest x off} hfits hblob hread := by
    unfold takeU64 at hread
    rcases Outcome.bind_eq_ok_iff.mp hread with ⟨⟨chunk, off'⟩, htake, hread⟩
    rcases (take_reads 8 (by decide)).sound hfits hblob htake with ⟨hlen, hrest, hoff⟩
    rcases exists_block hlen with ⟨b, rfl⟩
    simp only [fromSlice_toList, Outcome.ok_bind, Outcome.pure_eq, Outcome.ok.injEq,
      Prod.mk.injEq] at hread
    obtain ⟨rfl, rfl⟩ := hread
    rw [u64Be_u64OfBe]
    exact ⟨trivial, hrest, hoff⟩

/-- A length prefix and as many bytes. -/
def fieldCode (bs : Bytes) : Bytes := u32LenBe bs.length ++ bs

theorem takeField_reads : Reads w (takeField w) fieldCode fun bs => bs.length < 2 ^ 32 where
  complete {blob front rest bs} hfits hblob hlen := by
    have hblob' : blob = front ++ u32LenBe bs.length ++ (bs ++ rest) := by
      rw [hblob, fieldCode, List.append_assoc, List.append_assoc]
    have hlenField := (take_reads 4 (by decide)).complete (v := u32LenBe bs.length) hfits
      (hblob'.trans (List.append_assoc _ _ _)) (length_u32LenBe _)
    have hchunk := (take_reads bs.length hlen).complete (v := bs) hfits hblob' rfl
    simp only [id_eq] at hlenField hchunk
    rcases exists_block (length_u32LenBe bs.length) with ⟨b, hb⟩
    unfold takeField
    rw [hlenField, Outcome.ok_bind]
    simp only [hb, fromSlice_toList, Outcome.ok_bind, u32OfBe_of_toList_eq hlen hb.symm]
    rw [← hb, hchunk, fieldCode, List.append_assoc]
  sound {blob front rest bs off} hfits hblob hread := by
    unfold takeField at hread
    rcases Outcome.bind_eq_ok_iff.mp hread with ⟨⟨chunk, off'⟩, htake, hread⟩
    rcases (take_reads 4 (by decide)).sound hfits hblob htake with ⟨hlen, ⟨rest', rfl⟩, rfl⟩
    rcases exists_block hlen with ⟨b, rfl⟩
    simp only [fromSlice_toList, Outcome.ok_bind, id_eq] at hread hblob
    rw [← List.append_assoc] at hblob
    rcases (take_reads _ (u32OfBe_lt b)).sound hfits hblob hread with ⟨hbs, ⟨rest'', rfl⟩, rfl⟩
    have hcode : fieldCode bs = b.toList ++ bs := by
      rw [fieldCode, hbs, u32LenBe_u32OfBe]
    rw [hcode]
    refine ⟨hbs ▸ u32OfBe_lt b, ⟨rest'', ?_⟩, ?_⟩
    · simp only [id_eq, List.append_assoc]
    · simp only [id_eq, List.append_assoc]

theorem kamBlob_some (kam : Bytes) : kamBlob (some kam) = [1] ++ fieldCode kam := by
  rw [kamBlob, fieldCode, List.append_assoc]

theorem takeKam_reads :
    Reads w (takeKam w) kamBlob fun kam => ∀ bs, kam = some bs → bs.length < 2 ^ 32 where
  complete {blob front rest kam} hfits hblob hkam := by
    cases kam with
    | none =>
        have hflag := (take_reads 1 (by decide)).complete (v := [0]) hfits hblob rfl
        unfold takeKam
        rw [hflag]
        rfl
    | some bs =>
        have hblob' : blob = front ++ [1] ++ (fieldCode bs ++ rest) := by
          rw [hblob, kamBlob_some, List.append_assoc, List.append_assoc]
        have hflag := (take_reads 1 (by decide)).complete (v := [1]) hfits
          (hblob'.trans (List.append_assoc _ _ _)) rfl
        have hfield := takeField_reads.complete hfits hblob' (hkam bs rfl)
        simp only [id_eq] at hflag
        unfold takeKam
        rw [hflag, Outcome.ok_bind]
        have hindex : (index ([1] : Bytes) 0 : Outcome DmSessionError UInt8) = .ok 1 := rfl
        simp only [hindex, Outcome.ok_bind]
        rw [if_neg (by decide), if_pos trivial, hfield, kamBlob_some, List.append_assoc]
        rfl
  sound {blob front rest kam off} hfits hblob hread := by
    unfold takeKam at hread
    rcases Outcome.bind_eq_ok_iff.mp hread with ⟨⟨chunk, off'⟩, htake, hread⟩
    rcases (take_reads 1 (by decide)).sound hfits hblob htake with ⟨hlen, ⟨rest', rfl⟩, rfl⟩
    rcases List.length_eq_one_iff.mp hlen with ⟨flag, rfl⟩
    have hindex : (index [flag] 0 : Outcome DmSessionError UInt8) = .ok flag := rfl
    simp only [hindex, Outcome.ok_bind, id_eq] at hread hblob
    split at hread
    · rename_i hzero
      cases hread
      exact ⟨by simp, ⟨rest', by rw [hzero]; rfl⟩, by rw [hzero]; rfl⟩
    · split at hread
      · rename_i _ hone
        subst hone
        rcases Outcome.bind_eq_ok_iff.mp hread with ⟨⟨bs, off''⟩, hfield, hread⟩
        cases hread
        rw [← List.append_assoc] at hblob
        rcases takeField_reads.sound hfits hblob hfield with ⟨hbs, ⟨rest'', rfl⟩, rfl⟩
        refine ⟨?_, ⟨rest'', ?_⟩, ?_⟩
        · rintro bs' ⟨⟩
          exact hbs
        · rw [kamBlob_some, id_eq, List.append_assoc]
        · rw [kamBlob_some, List.append_assoc]
      · cases hread

end Readers

/-! ## Frames -/

section Frames

variable {w : Nat} {blob : Bytes} {frame : SealedDmFrame}

theorem SealedDmFrame.blob_eq (frame : SealedDmFrame) :
    frame.blob = u64Be frame.epoch ++ (u64Be frame.index ++ (fieldCode frame.nonce ++
      (fieldCode frame.body ++ kamBlob frame.kam))) := by
  simp only [SealedDmFrame.blob, fieldCode, List.append_assoc]

/-- The layout of a frame decodes to the frame. -/
theorem fromBlob_blob (hfits : CursorFits w frame.blob) (hfields : frame.FieldsFit) :
    fromBlob w frame.blob = .ok frame := by
  have hblob := frame.blob_eq
  have hblob₁ : frame.blob = u64Be frame.epoch ++ u64Be frame.index ++ (fieldCode frame.nonce ++
      (fieldCode frame.body ++ kamBlob frame.kam)) := by
    rw [hblob, List.append_assoc]
  have hblob₂ := hblob₁.trans (List.append_assoc _ _ _).symm
  have hblob₃ : frame.blob = u64Be frame.epoch ++ u64Be frame.index ++ fieldCode frame.nonce ++
      fieldCode frame.body ++ (kamBlob frame.kam ++ []) := by
    rw [hblob₂, List.append_nil, List.append_assoc _ (fieldCode frame.body)]
  have hblob₀ : frame.blob = [] ++ (u64Be frame.epoch ++ (u64Be frame.index ++
      (fieldCode frame.nonce ++ (fieldCode frame.body ++ kamBlob frame.kam)))) := hblob
  have hepoch := takeU64_reads.complete hfits hblob₀ trivial
  have hindex := takeU64_reads.complete hfits hblob trivial
  have hnonce := takeField_reads.complete hfits hblob₁ hfields.1
  have hbody := takeField_reads.complete hfits hblob₂ hfields.2.1
  have hkam := takeKam_reads.complete hfits hblob₃ hfields.2.2
  simp only [List.nil_append, List.length_nil] at hepoch
  unfold fromBlob
  rw [hepoch, Outcome.ok_bind]
  simp only [hindex, hnonce, hbody, hkam, Outcome.ok_bind]
  rw [if_neg (by rw [hblob₃]; simp)]
  rfl

/-- A blob that decodes is the layout of its frame. -/
theorem blob_of_fromBlob (hfits : CursorFits w blob) (h : fromBlob w blob = .ok frame) :
    blob = frame.blob ∧ frame.FieldsFit := by
  unfold fromBlob at h
  rcases Outcome.bind_eq_ok_iff.mp h with ⟨⟨epoch, off₁⟩, hepoch, h⟩
  have hblob₀ : blob = [] ++ blob := rfl
  rcases takeU64_reads.sound hfits hblob₀ hepoch with ⟨-, ⟨rest₁, hblob⟩, rfl⟩
  rcases Outcome.bind_eq_ok_iff.mp h with ⟨⟨index, off₂⟩, hindex, h⟩
  rcases takeU64_reads.sound hfits hblob hindex with ⟨-, ⟨rest₂, rfl⟩, rfl⟩
  rw [← List.append_assoc] at hblob
  rcases Outcome.bind_eq_ok_iff.mp h with ⟨⟨nonce, off₃⟩, hnonce, h⟩
  rcases takeField_reads.sound hfits hblob hnonce with ⟨hnonceFits, ⟨rest₃, rfl⟩, rfl⟩
  rw [← List.append_assoc] at hblob
  rcases Outcome.bind_eq_ok_iff.mp h with ⟨⟨body, off₄⟩, hbody, h⟩
  rcases takeField_reads.sound hfits hblob hbody with ⟨hbodyFits, ⟨rest₄, rfl⟩, rfl⟩
  rw [← List.append_assoc] at hblob
  rcases Outcome.bind_eq_ok_iff.mp h with ⟨⟨kam, off₅⟩, hkam, h⟩
  rcases takeKam_reads.sound hfits hblob hkam with ⟨hkamFits, ⟨rest₅, rfl⟩, rfl⟩
  rw [← List.append_assoc] at hblob
  -- Nothing may follow the KAM.
  rcases Outcome.guard_eq_ok_iff.mp h with ⟨hend, hframe⟩
  cases hframe
  have htotal := congrArg List.length hblob
  rw [List.length_append] at htotal
  have hnil : rest₅ = [] := List.eq_nil_of_length_eq_zero (by omega)
  refine ⟨?_, hnonceFits, hbodyFits, hkamFits⟩
  rw [hblob, hnil, SealedDmFrame.blob_eq]
  simp only [List.append_nil, List.append_assoc]

/-- A blob decodes to a frame exactly if it is the layout of that frame and the
fields of the frame fit. -/
theorem fromBlob_eq_ok_iff (hfits : CursorFits w blob) :
    fromBlob w blob = .ok frame ↔ blob = frame.blob ∧ frame.FieldsFit := by
  constructor
  · exact blob_of_fromBlob hfits
  · rintro ⟨rfl, hfields⟩
    exact fromBlob_blob hfits hfields

end Frames

/-! ## Errors of the decoder -/

section Errors

variable {w : Nat} {blob : Bytes}

/-- The one kind of error that the decoder has. -/
def IsBadToken (e : DmSessionError) : Prop := ∃ why, e = .badToken why

theorem take_failsOnly (off n : Nat) : (take w blob off n).FailsOnly IsBadToken := by
  unfold take
  dsimp only
  split
  · exact .err ⟨_, rfl⟩
  · exact (slice_failsOnly _ _ _ _).bind fun _ => .ok _ _

theorem takeU64_failsOnly (off : Nat) : (takeU64 w blob off).FailsOnly IsBadToken := by
  refine (take_failsOnly off 8).bind ?_
  rintro ⟨chunk, off'⟩
  exact (fromSlice_failsOnly _ _ _).bind fun _ => .ok _ _

theorem takeField_failsOnly (off : Nat) : (takeField w blob off).FailsOnly IsBadToken := by
  refine (take_failsOnly off 4).bind ?_
  rintro ⟨chunk, off'⟩
  exact (fromSlice_failsOnly _ _ _).bind fun _ => take_failsOnly _ _

theorem takeKam_failsOnly (off : Nat) : (takeKam w blob off).FailsOnly IsBadToken := by
  refine (take_failsOnly off 1).bind ?_
  rintro ⟨chunk, off'⟩
  refine (index_failsOnly _ _ _).bind fun flag => ?_
  split
  · exact .ok _ _
  · split
    · exact (takeField_failsOnly _).bind fun _ => .ok _ _
    · exact .err ⟨_, rfl⟩

theorem fromBlob_failsOnly : (fromBlob w blob).FailsOnly IsBadToken := by
  refine (takeU64_failsOnly _).bind ?_
  rintro ⟨epoch, off₁⟩
  refine (takeU64_failsOnly _).bind ?_
  rintro ⟨index, off₂⟩
  refine (takeField_failsOnly _).bind ?_
  rintro ⟨nonce, off₃⟩
  refine (takeField_failsOnly _).bind ?_
  rintro ⟨body, off₄⟩
  refine (takeKam_failsOnly _).bind ?_
  rintro ⟨kam, off₅⟩
  dsimp only
  split
  · exact .err ⟨_, rfl⟩
  · exact .ok _ _

theorem fromToken_failsOnly (B : Base64.Engine) (token : String) :
    (fromToken B w token).FailsOnly IsBadToken := by
  unfold fromToken
  cases stripPrefix pqdrScheme token with
  | none => exact .err ⟨_, rfl⟩
  | some body =>
      rw [Outcome.okOr_some, Outcome.ok_bind]
      cases B.decode (utf8 body) with
      | error e => exact .err ⟨_, rfl⟩
      | ok blob => exact fromBlob_failsOnly

end Errors

/-! ## Tokens -/

section Tokens

variable {B : Base64.Engine} {token : String} {frame : SealedDmFrame}

/-- The layout of a frame whose fields fit is far below the size of a string. -/
theorem SealedDmFrame.FieldsFit.length_blob_lt (h : frame.FieldsFit) :
    frame.blob.length < 2 ^ 35 := by
  rcases h with ⟨hnonce, hbody, hkam⟩
  have hkamLen : (kamBlob frame.kam).length < 2 ^ 33 := by
    cases hk : frame.kam with
    | none => decide
    | some kam =>
        have hlt := hkam kam hk
        simp only [kamBlob_some, fieldCode, List.length_append, length_u32LenBe,
          List.length_singleton]
        omega
  rw [frame.blob_eq]
  simp only [fieldCode, List.length_append, length_u64Be, length_u32LenBe]
  omega

/-- It is within the cursor of a 64-bit machine. -/
theorem SealedDmFrame.FieldsFit.cursorFits (h : frame.FieldsFit) : CursorFits 64 frame.blob := by
  have hlen := h.length_blob_lt
  unfold CursorFits
  omega

/-- The token of a frame whose fields fit is a string that a machine can hold. -/
theorem SealedDmFrame.FieldsFit.length_toToken_lt (padded : B.Padded) (h : frame.FieldsFit) :
    (utf8 (frame.toToken B)).length < 2 ^ 63 := by
  have hlen := h.length_blob_lt
  have hscheme : (utf8 pqdrScheme).length < 2 ^ 35 := by decide
  rw [SealedDmFrame.toToken, utf8_append, List.length_append, padded.length_encode]
  omega

/-- The token of a frame decodes as its layout does. -/
theorem fromToken_toToken_eq (exact : B.Exact) (w : Nat) (frame : SealedDmFrame) :
    fromToken B w (frame.toToken B) = fromBlob w frame.blob := by
  have hstrip : stripPrefix pqdrScheme (frame.toToken B) = some (B.encode frame.blob) :=
    stripPrefix_eq_some_iff.mpr rfl
  have hdecode : B.decode (utf8 (B.encode frame.blob)) = .ok frame.blob :=
    (exact.decode_eq_ok_iff _ _).mpr rfl
  unfold fromToken
  rw [hstrip, Outcome.okOr_some, Outcome.ok_bind, hdecode, Outcome.ofExcept_ok,
    Outcome.mapErr_ok, Outcome.ok_bind]

/-- Frames whose fields fit survive the round trip through their token. -/
theorem fromToken_toToken (exact : B.Exact) (hfields : frame.FieldsFit) :
    fromToken B 64 (frame.toToken B) = .ok frame := by
  rw [fromToken_toToken_eq exact]
  exact fromBlob_blob hfields.cursorFits hfields

/-- A token that decodes is the token of its frame. -/
theorem toToken_of_fromToken (laws : B.Laws) (exact : B.Exact)
    (hlen : (utf8 token).length < 2 ^ 63) (h : fromToken B 64 token = .ok frame) :
    token = frame.toToken B ∧ frame.FieldsFit := by
  unfold fromToken at h
  cases hbody : stripPrefix pqdrScheme token with
  | none => simp [hbody] at h
  | some body =>
      rw [hbody, Outcome.okOr_some, Outcome.ok_bind] at h
      cases hblob : B.decode (utf8 body) with
      | error e => simp [hblob, Outcome.ofExcept] at h
      | ok blob =>
          rw [hblob, Outcome.ofExcept_ok, Outcome.mapErr_ok, Outcome.ok_bind] at h
          have hsplit := congrArg List.length (utf8_stripPrefix hbody)
          have hdecoded := laws.length_decode _ _ hblob
          rw [List.length_append] at hsplit
          have hfits : CursorFits 64 blob := by
            unfold CursorFits
            omega
          rcases (fromBlob_eq_ok_iff hfits).mp h with ⟨rfl, hfields⟩
          refine ⟨?_, hfields⟩
          rw [stripPrefix_eq_some_iff.mp hbody, SealedDmFrame.toToken,
            utf8_injective ((exact.decode_eq_ok_iff _ _).mp hblob)]

/-- A token decodes to a frame exactly if it is the token of that frame and the
fields of the frame fit; every other token is a `BadToken`. -/
theorem token_codec_exact (laws : B.Laws) (exact : B.Exact)
    (hlen : (utf8 token).length < 2 ^ 63) :
    (∀ frame, fromToken B 64 token = .ok frame ↔ token = frame.toToken B ∧ frame.FieldsFit) ∧
      ((¬ ∃ frame : SealedDmFrame, token = frame.toToken B ∧ frame.FieldsFit) →
        ∃ why, fromToken B 64 token = .err (.badToken why)) := by
  have hiff : ∀ frame,
      fromToken B 64 token = .ok frame ↔ token = frame.toToken B ∧ frame.FieldsFit := by
    intro frame
    constructor
    · exact toToken_of_fromToken laws exact hlen
    · rintro ⟨rfl, hfields⟩
      exact fromToken_toToken exact hfields
  refine ⟨hiff, ?_⟩
  intro hother
  have hpanic := (fromToken_safe laws hlen).1
  have hbad := @fromToken_failsOnly 64 B token
  cases hres : fromToken B 64 token with
  | ok frame => exact absurd ⟨frame, (hiff frame).mp hres⟩ hother
  | err e =>
      rcases hbad e hres with ⟨why, rfl⟩
      exact ⟨why, rfl⟩
  | panic => exact absurd hres hpanic

namespace Sample

/-- A frame with a body of two bytes and a KAM of one. -/
def smallFrame : SealedDmFrame where
  epoch := 1
  index := 2
  nonce := [1, 2, 3, 4, 5, 6, 7, 8, 9, 10, 11, 12]
  body := [7, 8]
  kam := some [5]

/-- Its token. -/
def smallToken : String := "pqdr1:AAAAAAAAAAEAAAAAAAAAAgAAAAwBAgMEBQYHCAkKCwwAAAACBwgBAAAAAQU="

theorem smallFrame_fieldsFit : smallFrame.FieldsFit := by
  refine ⟨by decide, by decide, ?_⟩
  intro kam hkam
  cases hkam
  decide

theorem smallToken_eq : smallToken = smallFrame.toToken Base64.standard := by decide +kernel

end Sample

/-- The token decodes to its frame and not to the frame without the KAM; without
its scheme it is a `BadToken`. -/
theorem token_codec_exact_smallToken :
    fromToken Base64.standard 64 Sample.smallToken = .ok Sample.smallFrame ∧
      fromToken Base64.standard 64 Sample.smallToken ≠
        .ok { Sample.smallFrame with kam := none } ∧
      ∃ why, fromToken Base64.standard 64 "AAAAAAAAAAE=" = .err (.badToken why) := by
  have hshort : (utf8 Sample.smallToken).length < 2 ^ 63 := by decide +kernel
  have hcodec := (token_codec_exact Base64.standard_laws Base64.standard_exact hshort).1
  refine ⟨?_, ?_, ?_⟩
  · rw [hcodec]
    exact ⟨Sample.smallToken_eq, Sample.smallFrame_fieldsFit⟩
  · rw [ne_eq, hcodec]
    rintro ⟨htoken, -⟩
    revert htoken
    decide +kernel
  · have hshort' : (utf8 "AAAAAAAAAAE=").length < 2 ^ 63 := by decide +kernel
    apply (token_codec_exact Base64.standard_laws Base64.standard_exact hshort').2
    rintro ⟨frame, htoken, -⟩
    have hstrip := congrArg (stripPrefix pqdrScheme) htoken
    have hbody : stripPrefix pqdrScheme (frame.toToken Base64.standard) =
        some (Base64.standard.encode frame.blob) := stripPrefix_eq_some_iff.mpr rfl
    have hnone : stripPrefix pqdrScheme "AAAAAAAAAAE=" = none := by decide +kernel
    rw [hbody, hnone] at hstrip
    cases hstrip

end Tokens

end DmSession
end SkPqc
