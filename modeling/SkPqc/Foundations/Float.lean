import Mathlib.Data.UInt

/-!
# Binary64 values

The modelled code holds wall-clock readings as `f64`.  A result about arbitrary
readings needs no fact about rounding, so the type of floats is a parameter
with the operations the code applies to it.
-/

namespace Rust

/-- The `f64` operations that the modelled code uses. -/
class F64 (φ : Type) where
  /-- `x - y`. -/
  sub : φ → φ → φ
  /-- `x >= y`. -/
  ge : φ → φ → Bool
  /-- `n as f64` for an unsigned 64-bit `n`. -/
  ofU64 : UInt64 → φ
  /-- The text `serde_json` prints for a float. -/
  display : φ → String

/-- The `f64` operations behind the numbers of JSON values. -/
class JsonF64 (φ : Type) extends F64 φ where
  /-- `x.is_finite()`. -/
  isFinite : φ → Bool
  /-- `n as f64` for a signed 64-bit `n`. -/
  ofI64 : Int64 → φ

/-- Whole seconds; `serde_json` writes a float without a fraction, below `10 ^ 16`, with
a `.0`. -/
instance : F64 Int where
  sub x y := x - y
  ge x y := decide (x ≥ y)
  ofU64 n := n.toNat
  display x := toString x ++ ".0"

instance : JsonF64 Int where
  isFinite _ := true
  ofI64 n := n.toInt

end Rust
