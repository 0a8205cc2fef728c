import SkPqc.Foundations.Outcome
import SkPqc.Foundations.PrefixCode
import Mathlib.Data.List.Induction

/-!
# Byte strings and big-endian integers

Byte strings are lists of `UInt8`.  `bigEndian w v` is the `w`-byte big-endian
form of `v`, and `ofBigEndian` reads any byte string back as a number.

Main results:

- Theorem `ofBigEndian_bigEndian`: reading a big-endian field returns the value
  modulo the size of the field.
- Theorem `bigEndian_ofBigEndian`: every byte string is the big-endian form of
  the number it denotes, at its own width.
- Theorem `u64Be_isPrefixCode`: 64-bit fields are a prefix code.
- Theorems `u64Be_u64OfBe` and `u32LenBe_u32OfBe`: every field is the form of
  what is read from it.
- Theorem `lengthAt_eq_some_iff`: where a length field stands.
-/

namespace Rust

open PrefixCode

/-- A byte string (`Vec<u8>`, `&[u8]`). -/
abbrev Bytes := List UInt8

/-- A byte array `[u8; n]`. -/
abbrev ByteBlock (n : Nat) := Block UInt8 n

/-- A byte-string literal `b"..."`, whose characters are ASCII. -/
def byteLit (s : String) : Bytes :=
  s.toList.map fun c => c.toNat.toUInt8

/-- The `width`-byte big-endian form of `v`, higher digits dropped. -/
def bigEndian : Nat → Nat → Bytes
  | 0, _ => []
  | width + 1, v => bigEndian width (v / 256) ++ [UInt8.ofNat v]

/-- The number a big-endian byte string denotes. -/
def ofBigEndian (bs : Bytes) : Nat :=
  bs.foldl (fun acc b => acc * 256 + b.toNat) 0

@[simp] theorem length_bigEndian (width v : Nat) :
    (bigEndian width v).length = width := by
  induction width generalizing v with
  | zero => rfl
  | succ width ih => simp [bigEndian, ih]

@[simp] theorem ofBigEndian_nil : ofBigEndian [] = 0 := rfl

@[simp] theorem ofBigEndian_append_singleton (bs : Bytes) (b : UInt8) :
    ofBigEndian (bs ++ [b]) = ofBigEndian bs * 256 + b.toNat := by
  simp [ofBigEndian]

/-- Reading a big-endian field returns the value modulo the field's size. -/
theorem ofBigEndian_bigEndian (width v : Nat) :
    ofBigEndian (bigEndian width v) = v % 256 ^ width := by
  induction width generalizing v with
  | zero => simp [bigEndian, Nat.mod_one]
  | succ width ih =>
      have hdigit : (UInt8.ofNat v).toNat = v % 256 := by simp
      rw [bigEndian, ofBigEndian_append_singleton, ih, hdigit, Nat.pow_succ,
        Nat.mul_comm (256 ^ width) 256, Nat.mod_mul]
      omega

/-- A byte string denotes a number below the size of its field. -/
theorem ofBigEndian_lt (bs : Bytes) : ofBigEndian bs < 256 ^ bs.length := by
  induction bs using List.reverseRecOn with
  | nil => simp
  | append_singleton bs b ih =>
      have hb : b.toNat < 256 := b.toNat_lt
      rw [ofBigEndian_append_singleton, List.length_append, List.length_singleton,
        Nat.pow_succ]
      omega

/-- Every byte string is the big-endian form of the number it denotes. -/
theorem bigEndian_ofBigEndian (bs : Bytes) :
    bigEndian bs.length (ofBigEndian bs) = bs := by
  induction bs using List.reverseRecOn with
  | nil => rfl
  | append_singleton bs b ih =>
      have hb : b.toNat < 256 := b.toNat_lt
      have hhigh : (ofBigEndian bs * 256 + b.toNat) / 256 = ofBigEndian bs := by omega
      have hlow : UInt8.ofNat (ofBigEndian bs * 256 + b.toNat) = b := by
        apply UInt8.toNat.inj
        simp
      rw [ofBigEndian_append_singleton, List.length_append, List.length_singleton,
        bigEndian, hhigh, hlow, ih]

/-- Values that fit in the field are determined by their big-endian form. -/
theorem bigEndian_inj {width v w : Nat} (hv : v < 256 ^ width) (hw : w < 256 ^ width)
    (h : bigEndian width v = bigEndian width w) : v = w := by
  have hnum := congrArg ofBigEndian h
  rwa [ofBigEndian_bigEndian, ofBigEndian_bigEndian, Nat.mod_eq_of_lt hv,
    Nat.mod_eq_of_lt hw] at hnum

/-! ## 64-bit fields -/

/-- `u64::to_be_bytes`. -/
def u64Be (x : UInt64) : Bytes := bigEndian 8 x.toNat

/-- `u64::from_be_bytes`. -/
def u64OfBe (b : ByteBlock 8) : UInt64 := UInt64.ofNat (ofBigEndian b.toList)

@[simp] theorem length_u64Be (x : UInt64) : (u64Be x).length = 8 :=
  length_bigEndian 8 x.toNat

theorem u64Be_injective : Function.Injective u64Be := by
  intro x y h
  have hx : x.toNat < 256 ^ 8 := x.toNat_lt
  have hy : y.toNat < 256 ^ 8 := y.toNat_lt
  exact UInt64.toNat.inj (bigEndian_inj hx hy h)

/-- 64-bit big-endian fields are a prefix code. -/
theorem u64Be_isPrefixCode : IsPrefixCode u64Be :=
  .of_length length_u64Be u64Be_injective

/-- Eight bytes are the big-endian form of the integer they denote. -/
theorem u64Be_u64OfBe (b : ByteBlock 8) : u64Be (u64OfBe b) = b.toList := by
  have hlt := ofBigEndian_lt b.toList
  have hbytes := bigEndian_ofBigEndian b.toList
  rw [b.toList_length] at hlt hbytes
  have hmod : ofBigEndian b.toList % 2 ^ 64 = ofBigEndian b.toList := Nat.mod_eq_of_lt hlt
  rw [u64Be, u64OfBe, UInt64.toNat_ofNat', hmod, hbytes]

/-- Reading the big-endian form of an integer returns it. -/
theorem u64OfBe_of_toList_eq {b : ByteBlock 8} {x : UInt64} (h : b.toList = u64Be x) :
    u64OfBe b = x := by
  apply u64Be_injective
  rw [u64Be_u64OfBe, h]

/-! ## 32-bit lengths -/

/-- `(len as u32).to_be_bytes()`: lengths from `2 ^ 32` on are truncated. -/
def u32LenBe (len : Nat) : Bytes := bigEndian 4 len

/-- `u32::from_be_bytes(..) as usize`. -/
def u32OfBe (b : ByteBlock 4) : Nat := ofBigEndian b.toList

@[simp] theorem length_u32LenBe (len : Nat) : (u32LenBe len).length = 4 :=
  length_bigEndian 4 len

/-- A 32-bit length field holds less than `2 ^ 32`. -/
theorem u32OfBe_lt (b : ByteBlock 4) : u32OfBe b < 2 ^ 32 := by
  have h := ofBigEndian_lt b.toList
  rw [b.toList_length] at h
  exact h

/-- Four bytes are the big-endian form of the length they denote. -/
theorem u32LenBe_u32OfBe (b : ByteBlock 4) : u32LenBe (u32OfBe b) = b.toList := by
  have hbytes := bigEndian_ofBigEndian b.toList
  rwa [b.toList_length] at hbytes

/-- Reading the form of a length below `2 ^ 32` returns it. -/
theorem u32OfBe_of_toList_eq {b : ByteBlock 4} {len : Nat} (hlen : len < 2 ^ 32)
    (h : b.toList = u32LenBe len) : u32OfBe b = len := by
  rw [u32OfBe, h, u32LenBe, ofBigEndian_bigEndian]
  exact Nat.mod_eq_of_lt hlen

theorem u32LenBe_inj {len len' : Nat} (hlen : len < 2 ^ 32) (hlen' : len' < 2 ^ 32)
    (h : u32LenBe len = u32LenBe len') : len = len' :=
  bigEndian_inj hlen hlen' h

/-- A truncated length is the length modulo the field's size. -/
theorem u32LenBe_mod (len : Nat) : u32LenBe (len % 2 ^ 32) = u32LenBe len := by
  have hread : ofBigEndian (u32LenBe len) = len % 2 ^ 32 := ofBigEndian_bigEndian 4 len
  have hback := bigEndian_ofBigEndian (u32LenBe len)
  rwa [length_u32LenBe, hread] at hback

/-- The length field at an offset of a byte string that is long enough. -/
def lengthAt (bs : Bytes) (off : Nat) : Option Nat :=
  if off + 4 ≤ bs.length then some (ofBigEndian ((bs.drop off).take 4)) else none

theorem lengthAt_eq_some_iff {bs : Bytes} {off len : Nat} :
    lengthAt bs off = some len ↔ len < 2 ^ 32 ∧ ∃ rest, bs.drop off = u32LenBe len ++ rest := by
  unfold lengthAt
  constructor
  · intro h
    split at h
    · rename_i hroom
      cases h
      have hfour : ((bs.drop off).take 4).length = 4 := by
        rw [List.length_take, List.length_drop]
        omega
      have hlt := ofBigEndian_lt ((bs.drop off).take 4)
      have hbytes := bigEndian_ofBigEndian ((bs.drop off).take 4)
      rw [hfour] at hlt hbytes
      refine ⟨hlt, (bs.drop off).drop 4, ?_⟩
      rw [u32LenBe, hbytes, List.take_append_drop]
    · cases h
  · rintro ⟨hlen, rest, hrest⟩
    have hroom := congrArg List.length hrest
    rw [List.length_drop, List.length_append, length_u32LenBe] at hroom
    have hread : ofBigEndian (u32LenBe len) = len % 2 ^ 32 := ofBigEndian_bigEndian 4 len
    rw [if_pos (by omega), hrest, List.take_left' (length_u32LenBe len), hread,
      Nat.mod_eq_of_lt hlen]

end Rust
