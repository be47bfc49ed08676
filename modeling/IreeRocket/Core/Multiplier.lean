import IreeRocket.Core.Precision

/-!
# Encoding a requantization ratio

A calibration scale is an `f32`, here its bit pattern. The ratio of a requantization is the `f64`
`input * weights / output`: the product of two `f32` is exact in 53 bits, the quotient is rounded once.
`Multiplier.tryFromRatio` normalizes it to a 15-bit scale and a shift.
-/

namespace IreeRocket.Conv

/-! ### Single precision -/

namespace F32

def exponentField (bits : Nat) : Nat := bits / 2 ^ 23 % 2 ^ 8

/-- `is_finite`. -/
def IsFinite (bits : Nat) : Prop := exponentField bits ≠ 255

instance (bits : Nat) : Decidable (IsFinite bits) := inferInstanceAs (Decidable (_ ≠ _))

/-- `x > 0.0`, false of a NaN. -/
def IsPositive (bits : Nat) : Prop := 0 < bits ∧ bits ≤ 0x7f800000

instance (bits : Nat) : Decidable (IsPositive bits) := inferInstanceAs (Decidable (_ ∧ _))

/-- `x == 0.0`, of either sign. -/
def IsZero (bits : Nat) : Prop := bits % 2 ^ 31 = 0

instance (bits : Nat) : Decidable (IsZero bits) := inferInstanceAs (Decidable (_ = _))

/-- A finite positive number is `mantissa * 2 ^ exponent`. -/
def mantissa (bits : Nat) : Nat :=
  if exponentField bits = 0 then bits % 2 ^ 23 else 2 ^ 23 + bits % 2 ^ 23

def exponent (bits : Nat) : Int :=
  if exponentField bits = 0 then -149 else (exponentField bits : Int) - 150

/-- `1.0`. -/
def one : Nat := 0x3f800000

end F32

/-! ### Ratios -/

/-- A positive double `mantissa * 2 ^ exponent`, with 53 bits of mantissa. -/
structure F64 where
  mantissa : Nat
  exponent : Int
  deriving DecidableEq, Repr

/-- `f64::from(input) * f64::from(weights) / f64::from(output)`, rounded to nearest, ties to even. -/
def requantizationRatio (input weights output : Nat) : F64 :=
  let numerator := F32.mantissa input * F32.mantissa weights
  let denominator := F32.mantissa output
  let places := 54 + denominator.log2
  let quotient := numerator * 2 ^ places / denominator
  let dropped := quotient.log2 - 52
  let kept := quotient / 2 ^ dropped
  let rest := quotient % 2 ^ dropped
  let inexact := numerator * 2 ^ places % denominator ≠ 0
  let half := 2 ^ (dropped - 1)
  let rounded := if half < rest ∨ (rest = half ∧ (inexact ∨ kept % 2 = 1)) then kept + 1 else kept
  let exponent := F32.exponent input + F32.exponent weights - F32.exponent output - places + dropped
  if rounded = 2 ^ 53 then ⟨2 ^ 52, exponent + 1⟩ else ⟨rounded, exponent⟩

def mantissaFloor : Nat := 2 ^ 14
def maxCvtShift : Int := 63

/-- What `Multiplier::try_from_ratio` does with the rounded mantissa: rounding up to the end of the range
carries into the shift. -/
def Multiplier.ofScale (scale : Nat) (shift : Int) : Except String Multiplier := do
  let (scale, shift) :=
    if 2 * mantissaFloor ≤ scale then (scale / 2, shift - 1) else (scale, shift)
  unlessErr (0 ≤ shift)
    "requantization multiplier is too large to encode; DPU_OUT_CVT_SHIFT cannot be negative"
  return ⟨scale, shift.toNat⟩

/-- `Multiplier::try_from_ratio` of the ratio of a requantization. Its two loops drive the ratio into
`[2^14, 2^15)`, which the 53 bits of the mantissa are after dropping 38 (`requantizationRatio_encodes`). -/
def Multiplier.tryFromRatio (ratio : F64) : Except String Multiplier := do
  let shift := -38 - ratio.exponent
  unlessErr (shift ≤ maxCvtShift)
    "requantization multiplier is too small to encode; DPU_OUT_CVT_SHIFT tops out at 63"
  Multiplier.ofScale ((ratio.mantissa + 2 ^ 37) / 2 ^ 38) shift

end IreeRocket.Conv
