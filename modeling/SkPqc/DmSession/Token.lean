import SkPqc.DmSession.Model
import SkPqc.Foundations.Base64

/-!
# The `pqdr1:` token and wire input

This module embeds the token codec of `dm_session.rs` and follows a token from
the wire into `open`.  The cursor of the decoder is a `usize` of `w` bits, whose
additions wrap.

Main results:

- Theorem `fromToken_safe`: on a 64-bit machine no token makes the decoder
  panic.
- Theorem `open_ne_panic_iff`: `open` panics exactly where it reaches the body
  of a frame whose nonce has not 12 bytes.
- Theorem `wire_input_ne_panic_iff`: both together, for every text.
-/

namespace SkPqc
namespace DmSession

open Rust Kem Ratchet

/-- Wire marker of a sealed ratchet frame. -/
def pqdrScheme : String := "pqdr1:"

section Codec

variable (B : Base64.Engine)

/-- The presence flag and the KAM. -/
def kamBlob : Option Bytes → Bytes
  | none => [0]
  | some kam => [1] ++ u32LenBe kam.length ++ kam

/-- The length-prefixed big-endian layout of a frame. -/
def SealedDmFrame.blob (frame : SealedDmFrame) : Bytes :=
  u64Be frame.epoch ++ u64Be frame.index ++
    u32LenBe frame.nonce.length ++ frame.nonce ++
    u32LenBe frame.body.length ++ frame.body ++ kamBlob frame.kam

/-- Serialize a frame to its token. -/
def SealedDmFrame.toToken (frame : SealedDmFrame) : String :=
  pqdrScheme ++ B.encode frame.blob

/-- `take!(n)` at offset `off`: the chunk and the new offset. -/
def take (w : Nat) (blob : Bytes) (off n : Nat) : Outcome DmSessionError (Bytes × Nat) :=
  let stop := (off + n) % 2 ^ w
  if stop > blob.length then
    .err (.badToken "truncated frame")
  else do
    let chunk ← slice blob off stop
    pure (chunk, stop)

def takeU64 (w : Nat) (blob : Bytes) (off : Nat) : Outcome DmSessionError (UInt64 × Nat) := do
  let (chunk, off) ← take w blob off 8
  let bytes ← fromSlice 8 chunk
  pure (u64OfBe bytes, off)

/-- A length-prefixed field: `u32` length, then the bytes. -/
def takeField (w : Nat) (blob : Bytes) (off : Nat) : Outcome DmSessionError (Bytes × Nat) := do
  let (chunk, off) ← take w blob off 4
  let bytes ← fromSlice 4 chunk
  take w blob off (u32OfBe bytes)

/-- The KAM behind its presence flag. -/
def takeKam (w : Nat) (blob : Bytes) (off : Nat) :
    Outcome DmSessionError (Option Bytes × Nat) := do
  let (chunk, off) ← take w blob off 1
  let kamFlag ← index chunk 0
  if kamFlag = 0 then
    pure (none, off)
  else if kamFlag = 1 then do
    let (kam, off) ← takeField w blob off
    pure (some kam, off)
  else
    .err (.badToken s!"invalid kam presence flag: {kamFlag}")

/-- The frame in a decoded blob. -/
def fromBlob (w : Nat) (blob : Bytes) : Outcome DmSessionError SealedDmFrame := do
  let (epoch, off) ← takeU64 w blob 0
  let (index, off) ← takeU64 w blob off
  let (nonce, off) ← takeField w blob off
  let (frameBody, off) ← takeField w blob off
  let (kam, off) ← takeKam w blob off
  if off ≠ blob.length then
    .err (.badToken "trailing bytes after frame")
  else
    pure { epoch := epoch, index := index, nonce := nonce, body := frameBody, kam := kam }

/-- Parse a token back into a frame, on a machine with `w`-bit `usize`. -/
def fromToken (w : Nat) (token : String) : Outcome DmSessionError SealedDmFrame := do
  let body ← Outcome.okOr (.badToken s!"not a {pqdrScheme} token") (stripPrefix pqdrScheme token)
  let blob ← (Outcome.ofExcept (B.decode (utf8 body))).mapErr
    fun e => .badToken s!"invalid base64: {e}"
  fromBlob w blob

end Codec

/-! ## The decoder never panics -/

section Decoder

variable {w : Nat} {blob : Bytes}

/-- No length field carries the cursor past the end of `usize`. -/
def CursorFits (w : Nat) (blob : Bytes) : Prop := blob.length + 2 ^ 32 ≤ 2 ^ w

theorem take_safe (hfits : CursorFits w blob) {off n : Nat} (hoff : off ≤ blob.length)
    (hn : n < 2 ^ 32) :
    (take w blob off n).Safe fun r => r.1.length = n ∧ r.2 ≤ blob.length := by
  have hstop : (off + n) % 2 ^ w = off + n := by
    unfold CursorFits at hfits
    exact Nat.mod_eq_of_lt (by omega)
  unfold take
  simp only [hstop]
  split
  · exact .err _ _
  · rename_i hlen
    rw [slice_eq_ok (by omega) (by omega)]
    refine .ok ⟨?_, by omega⟩
    simp only [List.length_drop, List.length_take]
    omega

theorem takeU64_safe (hfits : CursorFits w blob) {off : Nat} (hoff : off ≤ blob.length) :
    (takeU64 w blob off).Safe fun r => r.2 ≤ blob.length := by
  refine (take_safe hfits hoff (by decide)).bind ?_
  rintro ⟨chunk, off'⟩ ⟨hchunk, hoff'⟩
  rcases exists_block hchunk with ⟨bytes, rfl⟩
  dsimp only
  rw [fromSlice_toList]
  exact .ok hoff'

theorem takeField_safe (hfits : CursorFits w blob) {off : Nat} (hoff : off ≤ blob.length) :
    (takeField w blob off).Safe fun r => r.2 ≤ blob.length := by
  refine (take_safe hfits hoff (by decide)).bind ?_
  rintro ⟨chunk, off'⟩ ⟨hchunk, hoff'⟩
  rcases exists_block hchunk with ⟨bytes, rfl⟩
  dsimp only
  rw [fromSlice_toList, Outcome.ok_bind]
  have htake := take_safe hfits hoff' (u32OfBe_lt bytes)
  exact ⟨htake.1, fun r hr => (htake.2 r hr).2⟩

theorem takeKam_safe (hfits : CursorFits w blob) {off : Nat} (hoff : off ≤ blob.length) :
    (takeKam w blob off).Safe fun r => r.2 ≤ blob.length := by
  refine (take_safe hfits hoff (by decide)).bind ?_
  rintro ⟨chunk, off'⟩ ⟨hchunk, hoff'⟩
  rcases List.length_eq_one_iff.mp hchunk with ⟨flag, rfl⟩
  have hindex : (index [flag] 0 : Outcome DmSessionError UInt8) = .ok flag := rfl
  simp only [hindex, Outcome.ok_bind]
  split
  · exact .ok hoff'
  · split
    · refine (takeField_safe hfits hoff').bind ?_
      rintro ⟨kam, off''⟩ hoff''
      exact .ok hoff''
    · exact .err _ _

theorem fromBlob_safe (hfits : CursorFits w blob) :
    (fromBlob w blob).Safe fun _ => True := by
  refine (takeU64_safe hfits (Nat.zero_le _)).bind ?_
  rintro ⟨epoch, off₁⟩ hoff₁
  refine (takeU64_safe hfits hoff₁).bind ?_
  rintro ⟨index, off₂⟩ hoff₂
  refine (takeField_safe hfits hoff₂).bind ?_
  rintro ⟨nonce, off₃⟩ hoff₃
  refine (takeField_safe hfits hoff₃).bind ?_
  rintro ⟨body, off₄⟩ hoff₄
  refine (takeKam_safe hfits hoff₄).bind ?_
  rintro ⟨kam, off₅⟩ hoff₅
  dsimp only
  split
  · exact .err _ _
  · exact .ok trivial

/-- On a 64-bit machine no token makes the decoder panic: a Rust string has
less than `2 ^ 63` bytes. -/
theorem fromToken_safe {B : Base64.Engine} (laws : B.Laws) {token : String}
    (hlen : (utf8 token).length < 2 ^ 63) : (fromToken B 64 token).Safe fun _ => True := by
  unfold fromToken
  cases hbody : stripPrefix pqdrScheme token with
  | none => exact .err _ _
  | some body =>
      rw [Outcome.okOr_some, Outcome.ok_bind]
      cases hblob : B.decode (utf8 body) with
      | error e => exact .err _ _
      | ok blob =>
          have hsplit := congrArg List.length (utf8_stripPrefix hbody)
          rw [List.length_append] at hsplit
          have hdecoded := laws.length_decode _ _ hblob
          refine fromBlob_safe ?_
          unfold CursorFits
          omega

end Decoder

/-! ## From the wire into `open` -/

section Wire

variable {φ : Type} {P : Primitives}

/-- `open` gets as far as the frame's body: the epoch's secret is stored, or the
KAM unwraps to one. -/
def ReachesBody (P : Primitives) (s : DmSession φ) (frame : SealedDmFrame)
    (myHybridPriv : Bytes) : Prop :=
  (∃ secret, s.epochSecrets[frame.epoch]? = some secret) ∨
    ∃ kam secret, frame.kam = some kam ∧ unwrapDmEpochSecret P kam myHybridPriv = .ok secret

theorem openBody_ne_panic_iff {secret : ByteBlock epochSecretLen} {frame : SealedDmFrame} :
    openBody P secret frame ≠ .panic ↔ frame.nonce.length = frameNonceLen := by
  unfold openBody
  rcases @Primitives.aes256GcmDecrypt_cases P DmSessionError
    (messageKey P secret frame.epoch frame.index) frame.nonce (frameAad frame.epoch frame.index)
    frame.body with ⟨hnonce, opened, hopened⟩ | ⟨hnonce, hpanic⟩
  · rw [hopened, Outcome.ok_bind]
    exact ⟨fun _ => hnonce, fun _ => Outcome.okOr_ne_panic _ _⟩
  · rw [hpanic, Outcome.panic_bind]
    exact ⟨fun h => absurd rfl h, fun h => absurd h hnonce⟩

/-- `open` panics exactly where it reaches a body whose nonce has a wrong length. -/
theorem open_ne_panic_iff {s : DmSession φ} {frame : SealedDmFrame} {myHybridPriv : Bytes} :
    ((DmSession.open P frame myHybridPriv).run s).1 ≠ .panic ↔
      frame.nonce.length = frameNonceLen ∨ ¬ ReachesBody P s frame myHybridPriv := by
  have hstep := open_step P s frame myHybridPriv
  generalize (DmSession.open P frame myHybridPriv).run s = res at hstep ⊢
  cases hstep with
  | @known secret hstored =>
      have hreach : ReachesBody P s frame myHybridPriv := .inl ⟨secret, hstored⟩
      simp [openBody_ne_panic_iff, hreach]
  | @learned kam secret hvacant hkam hunwrap =>
      have hreach : ReachesBody P s frame myHybridPriv := .inr ⟨kam, secret, hkam, hunwrap⟩
      simp [openBody_ne_panic_iff, hreach]
  | refused hvacant hkam hunwrap =>
      have hreach : ¬ ReachesBody P s frame myHybridPriv := by
        rintro (⟨secret, hstored⟩ | ⟨kam', secret, hkam', hunwrap'⟩)
        · rw [hvacant] at hstored
          cases hstored
        · rw [hkam] at hkam'
          cases hkam'
          rw [hunwrap] at hunwrap'
          cases hunwrap'
      simp [hreach]
  | missing hvacant hkam =>
      have hreach : ¬ ReachesBody P s frame myHybridPriv := by
        rintro (⟨secret, hstored⟩ | ⟨kam', secret, hkam', _⟩)
        · rw [hvacant] at hstored
          cases hstored
        · rw [hkam] at hkam'
          cases hkam'
      simp [hreach]

/-- Wire input on a 64-bit machine: the decoder never panics, and opening what
it returns does not panic exactly when the nonce has 12 bytes or the body is
not reached. -/
theorem wire_input_ne_panic_iff {B : Base64.Engine} (laws : B.Laws) {token : String}
    (hlen : (utf8 token).length < 2 ^ 63) :
    fromToken B 64 token ≠ .panic ∧
      ∀ frame, fromToken B 64 token = .ok frame →
        ∀ (s : DmSession φ) (myHybridPriv : Bytes),
          ((DmSession.open P frame myHybridPriv).run s).1 ≠ .panic ↔
            frame.nonce.length = frameNonceLen ∨ ¬ ReachesBody P s frame myHybridPriv := by
  refine ⟨(fromToken_safe laws hlen).1, ?_⟩
  intro frame _ s myHybridPriv
  exact open_ne_panic_iff

/-- The token of 25 zero bytes: slot `(0, 0)`, no nonce, no body, no KAM. -/
def Sample.emptyToken : String := "pqdr1:AAAAAAAAAAAAAAAAAAAAAAAAAAAAAAAAAA=="

theorem wire_input_ne_panic_iff_emptyToken :
    fromToken Base64.standard 64 Sample.emptyToken ≠ .panic ∧
      ∀ frame, fromToken Base64.standard 64 Sample.emptyToken = .ok frame →
        ∀ (s : DmSession Int) (myHybridPriv : Bytes),
          ((DmSession.open Primitives.transparent frame myHybridPriv).run s).1 ≠ .panic ↔
            frame.nonce.length = frameNonceLen ∨
              ¬ ReachesBody Primitives.transparent s frame myHybridPriv :=
  wire_input_ne_panic_iff Base64.standard_laws (by decide +kernel)

/-- A session that has sealed once panics on the empty frame, which the decoder
accepts. -/
theorem emptyToken_panics :
    fromToken Base64.standard 64 Sample.emptyToken =
      .ok { epoch := 0, index := 0, nonce := [], body := [], kam := none } ∧
    (let s : DmSession Int := ((DmSession.seal Primitives.transparent [104, 105]
        (Sample.keys 2).publicKey (Sample.draws 7)).run (DmSession.new "bob")).2
     ((DmSession.open Primitives.transparent
        { epoch := 0, index := 0, nonce := [], body := [], kam := none }
        (Sample.keys 1).privateKey).run s).1 = .panic) := by
  constructor <;> decide +kernel

end Wire

end DmSession
end SkPqc
