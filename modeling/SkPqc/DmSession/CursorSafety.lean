import SkPqc.DmSession.Token
import SkPqc.Foundations.Traced

/-!
# The cursor of the token decoder

`from_token` adds length fields of the token to its cursor without a check.  The
traced decoder records these additions and the slices.  On a machine with
32-bit `usize` a length field can carry the cursor past the end, and the slice
that follows panics.

Main results:

- Theorem `tracedTake_bind_iff`: after one `take!`, the rest decides, unless the
  cursor wraps.
- Theorem `tracedFromBlob_inBounds_iff`: the decoder stays in bounds exactly
  when no length field carries the cursor past `usize`.
- Theorem `lengthsFit_64`: on a 64-bit machine none does.
-/

namespace SkPqc
namespace DmSession

open Rust Traced

/-! ## The traced decoder -/

/-- `take!(n)`, traced. -/
def tracedTake (w : Nat) (blob : Bytes) (off n : Nat) : Traced DmSessionError (Bytes × Nat) := do
  let stop ← addIndex w off n
  if stop > blob.length then
    lift (.err (.badToken "truncated frame"))
  else do
    let chunk ← Traced.slice blob off stop
    pure (chunk, stop)

def tracedTakeU64 (w : Nat) (blob : Bytes) (off : Nat) :
    Traced DmSessionError (UInt64 × Nat) := do
  let (chunk, off) ← tracedTake w blob off 8
  let bytes ← lift (fromSlice 8 chunk)
  pure (u64OfBe bytes, off)

def tracedTakeField (w : Nat) (blob : Bytes) (off : Nat) :
    Traced DmSessionError (Bytes × Nat) := do
  let (chunk, off) ← tracedTake w blob off 4
  let bytes ← lift (fromSlice 4 chunk)
  tracedTake w blob off (u32OfBe bytes)

def tracedTakeKam (w : Nat) (blob : Bytes) (off : Nat) :
    Traced DmSessionError (Option Bytes × Nat) := do
  let (chunk, off) ← tracedTake w blob off 1
  let kamFlag ← lift (index chunk 0)
  if kamFlag = 0 then
    pure (none, off)
  else if kamFlag = 1 then do
    let (kam, off) ← tracedTakeField w blob off
    pure (some kam, off)
  else
    lift (.err (.badToken s!"invalid kam presence flag: {kamFlag}"))

def tracedFromBlob (w : Nat) (blob : Bytes) : Traced DmSessionError SealedDmFrame := do
  let (epoch, off) ← tracedTakeU64 w blob 0
  let (index, off) ← tracedTakeU64 w blob off
  let (nonce, off) ← tracedTakeField w blob off
  let (frameBody, off) ← tracedTakeField w blob off
  let (kam, off) ← tracedTakeKam w blob off
  if off ≠ blob.length then
    lift (.err (.badToken "trailing bytes after frame"))
  else
    pure { epoch := epoch, index := index, nonce := nonce, body := frameBody, kam := kam }

/-- The decoder behind the two words. -/
def tracedFields (w : Nat) (blob : Bytes) (epoch index : UInt64) (off : Nat) :
    Traced DmSessionError SealedDmFrame := do
  let (nonce, off) ← tracedTakeField w blob off
  let (frameBody, off) ← tracedTakeField w blob off
  let (kam, off) ← tracedTakeKam w blob off
  if off ≠ blob.length then
    lift (.err (.badToken "trailing bytes after frame"))
  else
    pure { epoch := epoch, index := index, nonce := nonce, body := frameBody, kam := kam }

theorem tracedFromBlob_eq (w : Nat) (blob : Bytes) :
    tracedFromBlob w blob = tracedTakeU64 w blob 0 >>= fun epoch =>
      tracedTakeU64 w blob epoch.2 >>= fun index =>
        tracedFields w blob epoch.1 index.1 index.2 := rfl

/-- `from_token`, traced. -/
def tracedFromToken (B : Base64.Engine) (w : Nat) (token : String) :
    Traced DmSessionError SealedDmFrame := do
  let body ← lift (Outcome.okOr (.badToken s!"not a {pqdrScheme} token")
    (stripPrefix pqdrScheme token))
  let blob ← lift ((Outcome.ofExcept (B.decode (utf8 body))).mapErr
    fun e => .badToken s!"invalid base64: {e}")
  tracedFromBlob w blob

/-! ## Erasing -/

section Erasing

variable (w : Nat) (blob : Bytes) (off : Nat)

@[simp] theorem outcome_tracedTake (n : Nat) :
    (tracedTake w blob off n).outcome = take w blob off n := by
  simp only [tracedTake, take, outcome_bind, outcome_addIndex, Outcome.ok_bind, outcome_ite,
    outcome_lift, outcome_slice, outcome_pure]
  rfl

@[simp] theorem outcome_tracedTakeU64 :
    (tracedTakeU64 w blob off).outcome = takeU64 w blob off := by
  simp only [tracedTakeU64, takeU64, outcome_bind, outcome_tracedTake, outcome_lift, outcome_pure]
  rfl

@[simp] theorem outcome_tracedTakeField :
    (tracedTakeField w blob off).outcome = takeField w blob off := by
  simp only [tracedTakeField, takeField, outcome_bind, outcome_tracedTake, outcome_lift]

@[simp] theorem outcome_tracedTakeKam :
    (tracedTakeKam w blob off).outcome = takeKam w blob off := by
  simp only [tracedTakeKam, takeKam, outcome_bind, outcome_tracedTake, outcome_lift, outcome_ite,
    outcome_pure, outcome_tracedTakeField]
  rfl

/-- The traced decoder decodes as the decoder does. -/
@[simp] theorem outcome_tracedFromBlob :
    (tracedFromBlob w blob).outcome = fromBlob w blob := by
  simp only [tracedFromBlob, fromBlob, outcome_bind, outcome_tracedTakeU64, outcome_lift,
    outcome_tracedTakeField, outcome_tracedTakeKam, outcome_ite, outcome_pure]
  rfl

theorem outcome_tracedFromToken (B : Base64.Engine) (token : String) :
    (tracedFromToken B w token).outcome = fromToken B w token := by
  simp only [tracedFromToken, fromToken, outcome_bind, outcome_lift, outcome_tracedFromBlob]

end Erasing

/-! ## In bounds -/

section InBounds

variable {w : Nat} {blob : Bytes} {off : Nat} {α : Type}

/-- Without a wrap, `take` returns the bytes at the cursor or refuses. -/
theorem take_eq {n : Nat} (hfits : off + n < 2 ^ w) :
    take w blob off n = if off + n > blob.length then .err (.badToken "truncated frame")
      else .ok ((blob.drop off).take n, off + n) := by
  unfold take
  rw [Nat.mod_eq_of_lt hfits]
  dsimp only
  split
  · rfl
  · rw [slice_eq_ok (by omega) (by omega), Outcome.ok_bind, List.drop_take,
      Nat.add_sub_cancel_left]
    rfl

theorem tracedTake_inBounds_iff {n : Nat} :
    (tracedTake w blob off n).InBounds w ↔ off + n < 2 ^ w := by
  unfold tracedTake
  rw [inBounds_bind_iff, inBounds_addIndex_iff]
  constructor
  · exact And.left
  · intro hfits
    refine ⟨hfits, ?_⟩
    intro stop hstop
    rw [outcome_addIndex, Outcome.ok.injEq, Nat.mod_eq_of_lt hfits] at hstop
    rw [inBounds_guard]
    intro hroom
    apply inBounds_slice_bind (by omega) (Nat.not_lt.mp hroom)
    intro chunk _
    exact inBounds_pure _

/-- After one `take!`, the rest decides, unless the cursor wraps. -/
theorem tracedTake_bind_iff {n : Nat} {f : Bytes × Nat → Traced DmSessionError α} :
    (tracedTake w blob off n >>= f).InBounds w ↔ off + n < 2 ^ w ∧
      (off + n ≤ blob.length → (f ((blob.drop off).take n, off + n)).InBounds w) := by
  rw [inBounds_bind_iff, tracedTake_inBounds_iff, outcome_tracedTake]
  apply and_congr_right
  intro hfits
  rw [take_eq hfits]
  constructor
  · intro h hroom
    exact h _ (if_neg (by omega))
  · intro h r hr
    split at hr
    · cases hr
    · rename_i hroom
      cases hr
      exact h (by omega)

/-- The cursor is in the blob, and the fixed-width fields do not wrap it. -/
structure CursorIn (w : Nat) (blob : Bytes) (off : Nat) : Prop where
  short : blob.length + 8 < 2 ^ w
  le : off ≤ blob.length

theorem tracedTakeU64_bind_iff (hcursor : CursorIn w blob off)
    {f : UInt64 × Nat → Traced DmSessionError α} :
    (tracedTakeU64 w blob off >>= f).InBounds w ↔
      ∀ b : ByteBlock 8, b.toList = (blob.drop off).take 8 →
        (f (u64OfBe b, off + 8)).InBounds w := by
  have hfits : off + 8 < 2 ^ w := by
    have hshort := hcursor.short
    have hle := hcursor.le
    omega
  unfold tracedTakeU64
  rw [bind_assoc, tracedTake_bind_iff, and_iff_right hfits]
  dsimp only
  constructor
  · intro h b hb
    have hroom := congrArg List.length hb
    simp only [List.Vector.toList_length, List.length_take, List.length_drop] at hroom
    have hrest := h (by omega)
    rw [← hb, fromSlice_toList, bind_assoc, inBounds_lift_ok_bind] at hrest
    exact hrest
  · intro h hroom
    have hlen : ((blob.drop off).take 8).length = 8 := by
      rw [List.length_take, List.length_drop]
      omega
    obtain ⟨b, hb⟩ := exists_block hlen
    rw [hb, fromSlice_toList, bind_assoc, inBounds_lift_ok_bind]
    exact h b hb.symm

/-- After a field, the rest decides, unless its length carries the cursor past
`usize`. -/
theorem tracedTakeField_bind_iff (hcursor : CursorIn w blob off)
    {f : Bytes × Nat → Traced DmSessionError α} :
    (tracedTakeField w blob off >>= f).InBounds w ↔
      ∀ n, lengthAt blob off = some n → off + 4 + n < 2 ^ w ∧
        (off + 4 + n ≤ blob.length →
          (f ((blob.drop (off + 4)).take n, off + 4 + n)).InBounds w) := by
  have hfits : off + 4 < 2 ^ w := by
    have hshort := hcursor.short
    have hle := hcursor.le
    omega
  unfold tracedTakeField
  rw [bind_assoc, tracedTake_bind_iff, and_iff_right hfits]
  by_cases hroom : off + 4 ≤ blob.length
  · have hlen : ((blob.drop off).take 4).length = 4 := by
      rw [List.length_take, List.length_drop]
      omega
    obtain ⟨b, hb⟩ := exists_block hlen
    have hfield : lengthAt blob off = some (u32OfBe b) := by
      rw [lengthAt, if_pos hroom, hb, u32OfBe]
    rw [hfield]
    simp only [Option.some.injEq, forall_eq', hroom, forall_const]
    rw [hb, fromSlice_toList, bind_assoc, inBounds_lift_ok_bind, tracedTake_bind_iff]
  · have hfield : lengthAt blob off = none := if_neg hroom
    rw [hfield]
    constructor
    · intro _ n hn
      cases hn
    · intro _ hroom'
      exact absurd hroom' hroom

/-- The KAM, at the end of the layout. -/
theorem tracedTakeKam_bind_iff (hcursor : CursorIn w blob off)
    {f : Option Bytes × Nat → Traced DmSessionError α} (hf : ∀ r, (f r).InBounds w) :
    (tracedTakeKam w blob off >>= f).InBounds w ↔
      (blob[off]? = some 1 → ∀ n, lengthAt blob (off + 1) = some n → off + 5 + n < 2 ^ w) := by
  have hfits : off + 1 < 2 ^ w := by
    have hshort := hcursor.short
    have hle := hcursor.le
    omega
  unfold tracedTakeKam
  rw [bind_assoc, tracedTake_bind_iff, and_iff_right hfits]
  by_cases hroom : off + 1 ≤ blob.length
  · have hflag : blob[off]? = some blob[off] := List.getElem?_eq_getElem (by omega)
    have hchunk : (blob.drop off).take 1 = [blob[off]] := by
      rw [List.drop_eq_getElem_cons (by omega)]
      rfl
    have hindex : (index [blob[off]] 0 : Outcome DmSessionError UInt8) = .ok blob[off] := rfl
    have hcursor' : CursorIn w blob (off + 1) := ⟨hcursor.short, hroom⟩
    simp only [hroom, forall_const, hflag, Option.some.injEq]
    rw [hchunk, hindex, bind_assoc, inBounds_lift_ok_bind]
    by_cases hzero : blob[off] = 0
    · rw [if_pos hzero]
      apply iff_of_true
      · exact hf _
      · intro hone
        rw [hzero] at hone
        exact absurd hone (by decide)
    · rw [if_neg hzero]
      by_cases hone : blob[off] = 1
      · rw [if_pos hone, bind_assoc, tracedTakeField_bind_iff hcursor']
        simp only [hone, forall_const]
        apply forall₂_congr
        intro n _
        have hoff : off + 1 + 4 + n = off + 5 + n := by omega
        rw [hoff]
        exact and_iff_left fun _ => hf _
      · rw [if_neg hone]
        apply iff_of_true
        · exact inBounds_lift_err_bind _
        · intro hone'
          exact absurd hone' hone
  · have hflag : blob[off]? = none := List.getElem?_eq_none (by omega)
    rw [hflag]
    apply iff_of_true
    · intro hroom'
      exact absurd hroom' hroom
    · intro hone
      cases hone

/-! ## The length fields of a token -/

/-- No length field of the blob carries the cursor past `usize`, as far as the
blob goes. -/
structure LengthsFit (w : Nat) (blob : Bytes) : Prop where
  nonce : ∀ n, lengthAt blob 16 = some n → 20 + n < 2 ^ w
  body : ∀ n b, lengthAt blob 16 = some n → lengthAt blob (20 + n) = some b → 24 + n + b < 2 ^ w
  kam : ∀ n b k, lengthAt blob 16 = some n → lengthAt blob (20 + n) = some b →
    blob[24 + n + b]? = some 1 → lengthAt blob (25 + n + b) = some k → 29 + n + b + k < 2 ^ w

/-- A length field lies within the blob. -/
theorem room_of_lengthAt {n : Nat} (h : lengthAt blob off = some n) :
    off + 4 ≤ blob.length ∧ n < 2 ^ 32 := by
  refine ⟨?_, (lengthAt_eq_some_iff.mp h).1⟩
  unfold lengthAt at h
  split at h
  · assumption
  · cases h

/-- The two words at the head of a blob that is long enough. -/
theorem exists_words (hroom : 16 ≤ blob.length) :
    ∃ epoch index : ByteBlock 8, epoch.toList = (blob.drop 0).take 8 ∧
      index.toList = (blob.drop 8).take 8 := by
  have hwords : (blob.take 16).length = 8 + 8 := by
    rw [List.length_take]
    omega
  obtain ⟨epoch, index, hblob⟩ := exists_blocks hwords
  have hdrop : (epoch.toList ++ index.toList).drop 8 = index.toList :=
    List.drop_left' epoch.toList_length
  refine ⟨epoch, index, ?_, ?_⟩
  · rw [List.drop_zero, ← List.take_left' epoch.toList_length, ← hblob, List.take_take]
    rfl
  · rw [← hdrop, ← hblob, List.drop_take]

/-- A word that was read lies within the blob. -/
theorem room_of_word {b : ByteBlock 8} (h : b.toList = (blob.drop off).take 8)
    (hoff : off ≤ blob.length) : off + 8 ≤ blob.length := by
  have hlen := congrArg List.length h
  simp only [List.Vector.toList_length, List.length_take, List.length_drop] at hlen
  omega

/-- The fields stay in bounds exactly when no length carries the cursor past
`usize`, as far as the blob goes. -/
theorem tracedFields_inBounds_iff (hcursor : CursorIn w blob off) (epoch index : UInt64) :
    (tracedFields w blob epoch index off).InBounds w ↔
      ∀ n, lengthAt blob off = some n → off + 4 + n < 2 ^ w ∧
        (off + 4 + n ≤ blob.length →
          ∀ b, lengthAt blob (off + 4 + n) = some b → off + 4 + n + 4 + b < 2 ^ w ∧
            (off + 4 + n + 4 + b ≤ blob.length → blob[off + 4 + n + 4 + b]? = some 1 →
              ∀ k, lengthAt blob (off + 4 + n + 4 + b + 1) = some k →
                off + 4 + n + 4 + b + 5 + k < 2 ^ w)) := by
  have hend : ∀ (nonce body : Bytes) (r : Option Bytes × Nat),
      (if r.2 ≠ blob.length then
          (lift (.err (.badToken "trailing bytes after frame")) :
            Traced DmSessionError SealedDmFrame)
        else pure { epoch := epoch, index := index, nonce := nonce, body := body,
                    kam := r.1 }).InBounds w := by
    intro nonce body r
    rw [inBounds_guard]
    intro _
    exact inBounds_pure _
  unfold tracedFields
  rw [tracedTakeField_bind_iff hcursor]
  apply forall₂_congr
  intro n _
  apply and_congr_right
  intro _
  apply forall_congr'
  intro hroom
  rw [tracedTakeField_bind_iff ⟨hcursor.short, hroom⟩]
  apply forall₂_congr
  intro b _
  apply and_congr_right
  intro _
  apply forall_congr'
  intro hroom
  exact tracedTakeKam_bind_iff ⟨hcursor.short, hroom⟩ (hend _ _)

/-- The length fields fit, one behind the other. -/
theorem lengthsFit_iff :
    LengthsFit w blob ↔
      ∀ n, lengthAt blob 16 = some n → 16 + 4 + n < 2 ^ w ∧
        (16 + 4 + n ≤ blob.length →
          ∀ b, lengthAt blob (16 + 4 + n) = some b → 16 + 4 + n + 4 + b < 2 ^ w ∧
            (16 + 4 + n + 4 + b ≤ blob.length → blob[16 + 4 + n + 4 + b]? = some 1 →
              ∀ k, lengthAt blob (16 + 4 + n + 4 + b + 1) = some k →
                16 + 4 + n + 4 + b + 5 + k < 2 ^ w)) := by
  have hbodyAt : ∀ n b, 16 + 4 + n + 4 + b = 24 + n + b := by
    intro n b
    omega
  have hkamAt : ∀ n b, 24 + n + b + 1 = 25 + n + b := by
    intro n b
    omega
  have hkamEnd : ∀ n b k, 24 + n + b + 5 + k = 29 + n + b + k := by
    intro n b k
    omega
  simp only [hbodyAt, hkamAt, hkamEnd]
  constructor
  · intro hfits n hn
    refine ⟨hfits.nonce n hn, ?_⟩
    intro _ b hb
    refine ⟨hfits.body n b hn hb, ?_⟩
    intro _ hflag k hk
    exact hfits.kam n b k hn hb hflag hk
  · intro h
    have hbody : ∀ n b, lengthAt blob 16 = some n → lengthAt blob (20 + n) = some b →
        24 + n + b < 2 ^ w ∧ (24 + n + b ≤ blob.length → blob[24 + n + b]? = some 1 →
          ∀ k, lengthAt blob (25 + n + b) = some k → 29 + n + b + k < 2 ^ w) := by
      intro n b hn hb
      have hroom := (room_of_lengthAt hb).1
      exact (h n hn).2 (by omega) b hb
    refine ⟨fun n hn => (h n hn).1, fun n b hn hb => (hbody n b hn hb).1, ?_⟩
    intro n b k hn hb hflag hk
    have hroom := (room_of_lengthAt hk).1
    exact (hbody n b hn hb).2 (by omega) hflag k hk

/-- The decoder stays in bounds exactly when the length fields fit. -/
theorem tracedFromBlob_inBounds_iff (hw : 32 ≤ w) (hlen : blob.length < 2 ^ (w - 1)) :
    (tracedFromBlob w blob).InBounds w ↔ LengthsFit w blob := by
  have hpow : 2 ^ w = 2 * 2 ^ (w - 1) := by
    rw [← Nat.pow_succ']
    congr 1
    omega
  have hbig : 2 ^ 31 ≤ 2 ^ (w - 1) := Nat.pow_le_pow_right (by decide) (by omega)
  have hshort : blob.length + 8 < 2 ^ w := by omega
  rw [tracedFromBlob_eq, tracedTakeU64_bind_iff ⟨hshort, Nat.zero_le _⟩, lengthsFit_iff]
  constructor
  · intro h n hn
    -- A nonce length field stands behind the two words, so both were read.
    have hroom : 16 ≤ blob.length := le_trans (by decide) (room_of_lengthAt hn).1
    obtain ⟨epoch, index, hepoch, hindex⟩ := exists_words hroom
    have hwords := h epoch hepoch
    rw [tracedTakeU64_bind_iff ⟨hshort, le_trans (show 8 ≤ 16 by decide) hroom⟩] at hwords
    exact (tracedFields_inBounds_iff ⟨hshort, hroom⟩ _ _).mp (hwords index hindex) n hn
  · intro hfits epoch hepoch
    have hroom := room_of_word hepoch (Nat.zero_le _)
    rw [tracedTakeU64_bind_iff ⟨hshort, hroom⟩]
    intro index hindex
    have hroom := room_of_word hindex hroom
    exact (tracedFields_inBounds_iff ⟨hshort, hroom⟩ _ _).mpr hfits

/-- On a 64-bit machine every length field fits. -/
theorem lengthsFit_64 (hlen : blob.length < 2 ^ 63) : LengthsFit 64 blob where
  nonce n hn := by
    have hroom := room_of_lengthAt hn
    omega
  body n b hn hb := by
    have hroom := room_of_lengthAt hb
    omega
  kam n b k hn hb hflag hk := by
    have hroom := room_of_lengthAt hk
    omega

/-- The length fields of a token, if it has the scheme and decodes. -/
def TokenFits (B : Base64.Engine) (w : Nat) (token : String) : Prop :=
  ∀ body blob, stripPrefix pqdrScheme token = some body → B.decode (utf8 body) = .ok blob →
    LengthsFit w blob

theorem tracedFromToken_inBounds_iff {B : Base64.Engine} (laws : B.Laws) (hw : 32 ≤ w)
    {token : String} (hlen : (utf8 token).length < 2 ^ (w - 1)) :
    (tracedFromToken B w token).InBounds w ↔ TokenFits B w token := by
  unfold tracedFromToken TokenFits
  cases hbody : stripPrefix pqdrScheme token with
  | none =>
      apply iff_of_true
      · exact inBounds_lift_err_bind _
      · intro body blob hbody'
        cases hbody'
  | some body =>
      rw [Outcome.okOr_some, inBounds_lift_ok_bind]
      cases hblob : B.decode (utf8 body) with
      | error e =>
          apply iff_of_true
          · exact inBounds_lift_err_bind _
          · intro body' blob hbody' hblob'
            cases hbody'
            rw [hblob] at hblob'
            cases hblob'
      | ok blob =>
          have hsplit := congrArg List.length (utf8_stripPrefix hbody)
          have hdecoded := laws.length_decode _ _ hblob
          rw [List.length_append] at hsplit
          rw [Outcome.ofExcept_ok, Outcome.mapErr_ok, inBounds_lift_ok_bind,
            tracedFromBlob_inBounds_iff hw (by omega)]
          constructor
          · intro hfits body' blob' hbody' hblob'
            cases hbody'
            rw [hblob] at hblob'
            cases hblob'
            exact hfits
          · intro h
            exact h body blob rfl hblob

/-- On a 64-bit machine every token fits. -/
theorem tokenFits_64 {B : Base64.Engine} (laws : B.Laws) {token : String}
    (hlen : (utf8 token).length < 2 ^ 63) : TokenFits B 64 token := by
  intro body blob hbody hblob
  have hsplit := congrArg List.length (utf8_stripPrefix hbody)
  have hdecoded := laws.length_decode _ _ hblob
  rw [List.length_append] at hsplit
  exact lengthsFit_64 (by omega)

end InBounds

end DmSession
end SkPqc
