import IreeRocket.Core.Multiplier
import IreeRocket.Hal.ConvProgram
import Mathlib.Data.Int.Log
import Mathlib.Data.Rat.Floor

/-!
# The scales of a lookup table

A table is indexed in a fixed domain. `lutBnMul` and `lutOutCvt` turn the scale of the input and of the
output into a 15-bit operand and a shift, in single precision. A product or a quotient is the exact one
rounded to nearest, ties to even. The language leaves the precision of `log2` and of `powi` open, so they
are parameters.
-/

namespace IreeRocket.Hal

open Conv

/-- An `f32`, without the sign of a zero. -/
inductive Single
  | nan
  | infinite (negative : Bool)
  | finite (value : ℚ)
  deriving DecidableEq

namespace Single

/-- The nearest integer, ties to even. -/
def roundEven (q : ℚ) : Int :=
  if q - ⌊q⌋ < 1 / 2 ∨ (q - ⌊q⌋ = 1 / 2 ∧ ⌊q⌋ % 2 = 0) then ⌊q⌋ else ⌊q⌋ + 1

/-- The `f32` nearest an exact number: 24 bits from its leading one on, but none below `2 ^ -149`. -/
def rounded (q : ℚ) : Single :=
  let place := max (Int.log 2 |q| - 23) (-149)
  let value : ℚ := roundEven (q / 2 ^ place) * 2 ^ place
  if |value| < 2 ^ 128 then finite value else infinite (q < 0)

def ofBits (bits : Nat) : Single :=
  let negative := decide (2 ^ 31 ≤ bits)
  if F32.IsFinite bits then
    finite ((if negative then -1 else 1) * F32.mantissa bits * 2 ^ F32.exponent bits)
  else if bits % 2 ^ 23 = 0 then infinite negative
  else nan

def isNegative : Single → Bool
  | nan => false
  | infinite negative => negative
  | finite value => value < 0

def mul : Single → Single → Single
  | finite x, finite y => rounded (x * y)
  | nan, _ | _, nan => nan
  | x, y => if x = finite 0 ∨ y = finite 0 then nan else infinite (x.isNegative != y.isNegative)

/-- `1.0 / x`. -/
def recip : Single → Single
  | nan => nan
  | infinite _ => finite 0
  | finite x => if x = 0 then infinite false else rounded (1 / x)

def floor : Single → Single
  | finite x => finite ⌊x⌋
  | x => x

/-- Halves away from zero. -/
def round : Single → Single
  | finite x => finite (if 0 ≤ x then ⌊x + 1 / 2⌋ else ⌈x - 1 / 2⌉)
  | x => x

/-- A cast to an integer type: towards zero, saturating, and zero for a NaN. -/
def cast (low high : Int) : Single → Int
  | nan => 0
  | infinite negative => if negative then low else high
  | finite x => max low (min high (if 0 ≤ x then ⌊x⌋ else ⌈x⌉))

/-- `as i32`. -/
def asI32 (x : Single) : Int := x.cast (-2 ^ 31) (2 ^ 31 - 1)

/-- `as u32`. -/
def asU32 (x : Single) : Nat := (x.cast 0 (2 ^ 32 - 1)).toNat

end Single

/-- The operations of `f32` with an unspecified precision: `log2`, and `2f32.powi`. -/
structure FloatOps where
  log2 : Single → Single
  exp2i : Int → Single

section Scales

variable (ops : FloatOps)

/-- A multiplier as an operand and a shift: what `lut_bn_mul` and `lut_out_cvt` share. -/
def normalized (multiplier : Single) : Nat × Nat :=
  let e := (ops.log2 multiplier).floor.asI32
  let shift := Int.bmod (14 - e) (2 ^ 32)
  let operand := (multiplier.mul (ops.exp2i shift)).round.asU32
  (operand, asU32 shift)

/-- `lut_bn_mul`. -/
def lutBnMul (inputScale k : Single) : Nat × Nat := normalized ops (inputScale.mul k)

/-- `lut_out_cvt`. -/
def lutOutCvt (outputScale : Single) : Nat × Nat :=
  normalized ops ((Single.finite 32768).mul outputScale).recip

end Scales

/-- `lut_bn_alu`: the negated product, cut to 32 bits. -/
def lutBnAlu (realZeroPoint : Int) (bnMulOperand : Nat) : Nat :=
  asU32 (-realZeroPoint * bnMulOperand)

/-- `lut_bn_alu_supports_zero_point`. -/
def lutBnAluSupportsZeroPoint (realZeroPoint : Int) : Prop := realZeroPoint ∈ [-128, -2, 0, 127]

instance (realZeroPoint : Int) : Decidable (lutBnAluSupportsZeroPoint realZeroPoint) :=
  inferInstanceAs (Decidable (_ ∈ _))

/-- The two banks of a table and what else varies with its function. -/
structure LutTable where
  leEntries : List Nat
  loEntries : List Nat
  ewOpBypass : Nat
  leSlopeUflowScale : Nat
  leSlopeUflowShift : Nat
  bnScaleK : Single

end IreeRocket.Hal
