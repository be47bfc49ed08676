import IreeRocket.Core.Error

/-!
# Element precisions and the CBUF constants

The constants of the convolution planner and the per-precision tables: element and result widths,
channels a feature atom, output granules and channel ceilings.
-/

namespace IreeRocket.Conv

def channelRealModulus : Nat := 64
def maxInputChannels : Nat := 4096
def maxInt8InputChannels : Nat := 4096
def maxInt8OutputChannels : Nat := 4096
def maxInt4InputChannels : Nat := 4096
def maxInt4OutputChannels : Nat := 4096
def maxTf32InputChannels : Nat := 4096
def maxTf32OutputChannels : Nat := 4096
def maxDenseChannels : Nat := 4
def maxOutputChannels : Nat := 4096
def maxDepthwiseChannels : Nat := 1792
/-- Physical width of one feature atom. -/
def featureAtomBytes : Nat := 16
/-- Total CBUF banks the CNA partitions between feature data and weights. -/
def cbufBanks : Nat := 12
/-- Bytes one CBUF bank holds: 256 entries of 128 bytes. -/
def cbufBankBytes : Nat := 256 * 128
/-- Feature atoms the CBUF charges per `data_entries` entry. -/
def cbufAtomsPerEntry : Nat := 4
def maxUndividedWeightBanks : Nat := cbufBanks - 2
def cbufEntryBytes : Nat := 128
def cbufEntriesPerBank : Nat := cbufBankBytes / cbufEntryBytes
/-- Largest `data_entries` value. -/
def maxDataEntries : Nat := 0x7fff
/-- Largest CBUF entry offset an input line's entry slab may begin at. -/
def maxEntrySlabBase : Nat := 0x7ff
/-- Largest value of the 10-bit `feature_grains` field. -/
def maxFeatureGrains : Nat := 0x03ff
def pixelsPerBankStep : Nat := 1024

/-- `[height, width]` of a kernel. -/
abbrev Kernels := Nat × Nat

/-- `[top, left]` leading padding. -/
abbrev Padding := Nat × Nat

/-- A requantization multiplier, `scale / 2 ^ shift`. -/
structure Multiplier where
  scale : Nat
  shift : Nat
  deriving DecidableEq, Repr

/-- The integer side of a quantization: the zero points and the requantization multiplier. -/
structure Quantization where
  inputZeroPoint : Int
  outputZeroPoint : Int
  weightZeroPoint : Int
  multiplier : Multiplier
  deriving DecidableEq, Repr

/-- The `Debug` output of a quantization. The two calibration scales, which are kept beside the shape,
are left out of it. -/
def Quantization.debug (q : Quantization) : String :=
  "Quantization \x7b input_zero_point: " ++ toString q.inputZeroPoint ++ ", output_zero_point: " ++
    toString q.outputZeroPoint ++ ", weight_zero_point: " ++ toString q.weightZeroPoint ++
    ", input_scale: …, weights_scale: …, multiplier: Multiplier \x7b scale: " ++
    toString q.multiplier.scale ++ ", shift: " ++ toString q.multiplier.shift ++ " \x7d \x7d"

/-- Element precision of a convolution. -/
inductive Precision
  | fp16
  | bf16
  | int16
  | fp16Accumulator
  | tf32
  | int4
  | int8 (quantization : Quantization)
  | int8Accumulator (quantization : Quantization)
  deriving DecidableEq, Repr

namespace Precision

/-- The `Debug` output of a precision. -/
def debug : Precision → String
  | fp16 => "Fp16"
  | bf16 => "Bf16"
  | int16 => "Int16"
  | fp16Accumulator => "Fp16Accumulator"
  | tf32 => "Tf32"
  | int4 => "Int4"
  | int8 q => "Int8(" ++ q.debug ++ ")"
  | int8Accumulator q => "Int8Accumulator(" ++ q.debug ++ ")"

def elementBits : Precision → Nat
  | tf32 => 32
  | fp16 | fp16Accumulator | bf16 | int16 => 16
  | int8 _ | int8Accumulator _ => 8
  | int4 => 4

/-- The source asserts a whole number of bytes; only `int4` has none, and it is never dense. -/
def elementBytes (p : Precision) : Nat := p.elementBits / 8

def sharesFp16Layout (p : Precision) : Bool := p.elementBits == 16

def outputElementBytes : Precision → Nat
  | fp16 | bf16 | int16 | int4 => 2
  | int8 _ => 1
  | int8Accumulator _ | tf32 | fp16Accumulator => 4

def writesAccumulators : Precision → Bool
  | int8Accumulator _ => true
  | _ => false

def writesFp32Result : Precision → Bool
  | tf32 | fp16Accumulator => true
  | _ => false

def channelsPerAtom (p : Precision) : Nat := featureAtomBytes * 8 / p.elementBits

def outChannelGranule : Precision → Nat
  | tf32 => 16
  | p => 2 * p.channelsPerAtom

def maxInChannels : Precision → Nat
  | fp16 | fp16Accumulator | bf16 | int16 => maxInputChannels
  | int8 _ | int8Accumulator _ => maxInt8InputChannels
  | int4 => maxInt4InputChannels
  | tf32 => maxTf32InputChannels

def maxOutChannels : Precision → Nat
  | fp16 | fp16Accumulator | bf16 | int16 => maxOutputChannels
  | int8 _ | int8Accumulator _ => maxInt8OutputChannels
  | int4 => maxInt4OutputChannels
  | tf32 => maxTf32OutputChannels

/-- `bytes_for`: the bits are a `u32` product. -/
def bytesFor (p : Precision) (elements : Nat) : Nat := wrap32 (elements * p.elementBits) / 8

def quantization : Precision → Option Quantization
  | int8 q | int8Accumulator q => some q
  | _ => none

/-- The test inside `if let Precision::Int8Accumulator(quantization) = precision`. -/
def accumulatorZeroPoints : Precision → Bool
  | int8Accumulator q => q.inputZeroPoint == 0 && q.outputZeroPoint == 0 && q.weightZeroPoint == 0
  | _ => true

theorem elementBits_cases (p : Precision) :
    p.elementBits = 4 ∨ p.elementBits = 8 ∨ p.elementBits = 16 ∨ p.elementBits = 32 := by
  cases p <;> simp [elementBits]

/-- An atom holds 4, 8, 16 or 32 channels, and the channels of an atom fill it. -/
theorem channelsPerAtom_cases (p : Precision) :
    p.channelsPerAtom = 4 ∨ p.channelsPerAtom = 8 ∨ p.channelsPerAtom = 16 ∨
      p.channelsPerAtom = 32 := by
  cases p <;> simp [channelsPerAtom, featureAtomBytes, elementBits]

theorem channelsPerAtom_pos (p : Precision) : 0 < p.channelsPerAtom := by
  rcases p.channelsPerAtom_cases with h | h | h | h <;> omega

theorem channelsPerAtom_mul_elementBits (p : Precision) :
    p.channelsPerAtom * p.elementBits = 128 := by
  cases p <;> simp [channelsPerAtom, featureAtomBytes, elementBits]

theorem elementBytes_le (p : Precision) : p.elementBytes ≤ 4 := by
  cases p <;> simp [elementBytes, elementBits]

theorem maxInChannels_eq (p : Precision) : p.maxInChannels = 4096 := by
  cases p <;> rfl

theorem maxOutChannels_eq (p : Precision) : p.maxOutChannels = 4096 := by
  cases p <;> rfl

end Precision

/-- Output stage activation. -/
inductive Activation
  | none
  | relu
  | clamped (cmp : Nat)
  deriving DecidableEq, Repr

/-- What the planner may admit beyond its capture backing. -/
structure PlanningPolicy where
  allowUnbackedChannels : Bool
  allowLargeKernelProbing : Bool
  deriving DecidableEq, Repr

/-- The policy with neither override set. -/
def PlanningPolicy.default : PlanningPolicy := ⟨false, false⟩

/-- `quad_atoms`: an atom count one short of a multiple of four is rounded up to it. -/
def quadAtoms (atoms : Nat) : Nat :=
  if atoms % 4 = 3 then atoms + 1 else atoms

theorem le_quadAtoms (atoms : Nat) : atoms ≤ quadAtoms atoms := by
  unfold quadAtoms
  split_ifs <;> omega

theorem quadAtoms_le (atoms : Nat) : quadAtoms atoms ≤ atoms + 1 := by
  unfold quadAtoms
  split_ifs <;> omega

end IreeRocket.Conv
