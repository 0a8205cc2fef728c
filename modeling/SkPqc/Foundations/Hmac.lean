import SkPqc.Foundations.Bytes

/-!
# HMAC

HMAC over any hash function with outputs no longer than its block.  A key is
used as one block: a longer key is hashed first, and zeros fill the block.

No hash function is injective, so uniqueness of a tag is a statement about one
tag in use: only its own block key and input lead to it.

Main results:

- Theorem `blockKey_append_zeros`: zeros at the end of a key are not seen.
- Theorem `eq_of_blockKey_eq`: keys of one length are told apart.
- Theorem `tagUnique`: a tag is unique where the two hash inputs behind it are.
-/

namespace Hmac

open Rust

variable {out : Nat} (block : Nat) (hash : Bytes → ByteBlock out)

/-- A key cut to one block. -/
def shortKey (key : Bytes) : Bytes := if block < key.length then (hash key).toList else key

/-- A key as one block. -/
def blockKey (key : Bytes) : Bytes :=
  shortKey block hash key ++ List.replicate (block - (shortKey block hash key).length) 0

/-- Every byte combined with the byte of a pad. -/
def mask (pad : UInt8) (key : Bytes) : Bytes := key.map (· ^^^ pad)

/-- What the inner hash reads. -/
def innerInput (key input : Bytes) : Bytes := mask 0x36 (blockKey block hash key) ++ input

/-- What the outer hash reads. -/
def outerInput (key input : Bytes) : Bytes :=
  mask 0x5c (blockKey block hash key) ++ (hash (innerInput block hash key input)).toList

/-- The tag of an input under a key. -/
def hmac (key input : Bytes) : ByteBlock out := hash (outerInput block hash key input)

/-! ## Block keys -/

variable {block hash}

theorem shortKey_of_le {key : Bytes} (h : key.length ≤ block) : shortKey block hash key = key :=
  if_neg (Nat.not_lt.mpr h)

theorem length_shortKey_le (hout : out ≤ block) (key : Bytes) :
    (shortKey block hash key).length ≤ block := by
  unfold shortKey
  split
  · rw [List.Vector.toList_length]
    exact hout
  · rename_i hshort
    exact Nat.not_lt.mp hshort

theorem length_blockKey (hout : out ≤ block) (key : Bytes) :
    (blockKey block hash key).length = block := by
  have hle : (shortKey block hash key).length ≤ block := length_shortKey_le hout key
  rw [blockKey, List.length_append, List.length_replicate]
  omega

/-- Zeros at the end of a key are not seen. -/
theorem blockKey_append_zeros {key : Bytes} {n : Nat} (h : key.length + n ≤ block) :
    blockKey block hash (key ++ List.replicate n 0) = blockKey block hash key := by
  have hlen : (key ++ List.replicate n (0 : UInt8)).length = key.length + n := by simp
  unfold blockKey
  rw [shortKey_of_le (by omega), shortKey_of_le (by omega), hlen, List.append_assoc,
    List.replicate_append_replicate]
  congr 2
  omega

/-- Keys of one length, no longer than the block, are told apart. -/
theorem eq_of_blockKey_eq {key key' : Bytes} (hkey : key.length ≤ block)
    (hlen : key'.length = key.length) (h : blockKey block hash key' = blockKey block hash key) :
    key' = key := by
  unfold blockKey at h
  rw [shortKey_of_le (by omega), shortKey_of_le hkey] at h
  exact (List.append_inj h hlen).1

/-! ## Uniqueness -/

theorem mask_injective (pad : UInt8) : Function.Injective (mask pad) := by
  apply List.map_injective_iff.mpr
  intro a b h
  exact (UInt8.xor_left_inj pad).mp h

/-- No other input of the hash leads to the output of this one. -/
def HashUnique (hash : Bytes → ByteBlock out) (x : Bytes) : Prop := ∀ y, hash y = hash x → y = x

/-- No other block key and no other input lead to this tag. -/
def TagUnique (block : Nat) (hash : Bytes → ByteBlock out) (key input : Bytes) : Prop :=
  ∀ key' input', hmac block hash key' input' = hmac block hash key input →
    blockKey block hash key' = blockKey block hash key ∧ input' = input

/-- A tag is unique where the two hash inputs behind it are. -/
theorem tagUnique {key input : Bytes} (hout : out ≤ block)
    (hinner : HashUnique hash (innerInput block hash key input))
    (houter : HashUnique hash (outerInput block hash key input)) :
    TagUnique block hash key input := by
  intro key' input' htag
  have hlen : ∀ pad, (mask pad (blockKey block hash key')).length =
      (mask pad (blockKey block hash key)).length := by
    intro pad
    simp only [mask, List.length_map, length_blockKey hout]
  have hread := List.append_inj (houter _ htag) (hlen 0x5c)
  have hdigest := List.Vector.toList_injective hread.2
  have hinput := List.append_inj (hinner _ hdigest) (hlen 0x36)
  exact ⟨mask_injective 0x5c hread.1, hinput.2⟩

end Hmac
