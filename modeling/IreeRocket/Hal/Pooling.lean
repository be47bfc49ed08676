import IreeRocket.Core.Error
import IreeRocket.Lib.Segments
import IreeRocket.Lib.Windows

/-!
# Pooling shapes and their tiles

The PPU pools an image directly, but only so many columns at a time. `PoolingPlan::new` checks a shape
and cuts its output columns into balanced tiles; a tile takes the input columns its windows reach, and
pads where they stand out of the image.

The cut is by output columns alone. `EdgesTouch` and `SpansFit` are what it takes for granted: that every
tile reaches the image, and no more of it than the PPU reads directly.
-/

namespace IreeRocket.Pooling

inductive PoolingMethod
  | max
  | min
  | avg
  deriving DecidableEq, Repr

def PoolingMethod.bits : PoolingMethod → Nat
  | avg => 0
  | max => 1
  | min => 2

inductive PoolingPrecision
  | int8
  | fp16
  deriving DecidableEq, Repr

namespace PoolingPrecision

/-- Logical channels of one feature atom. -/
def channelsPerAtom : PoolingPrecision → Nat
  | int8 => 16
  | fp16 => 8

def elementBytes : PoolingPrecision → Nat
  | int8 => 1
  | fp16 => 2

def ppuPrecision : PoolingPrecision → Nat
  | int8 => 0
  | fp16 => 2

def rdmaPrecision : PoolingPrecision → Nat
  | int8 => 1
  | fp16 => 2

end PoolingPrecision

structure PoolingShape where
  inputWidth : Nat
  inputHeight : Nat
  inputChannels : Nat
  outputWidth : Nat
  outputHeight : Nat
  outputChannels : Nat
  precision : PoolingPrecision
  kernelWidth : Nat
  kernelHeight : Nat
  strideX : Nat
  strideY : Nat
  method : PoolingMethod
  padLeft : Nat
  padTop : Nat
  padRight : Nat
  padBottom : Nat
  padValue : Nat
  deriving DecidableEq, Repr

def maxPpuExtent : Nat := 8192
def maxPpuKernelOrStride : Nat := 16
def maxPpuPadding : Nat := 7
def maxDirectKernel : Nat := 8
def defaultMaxDirectInputWidth : Nat := 129
def defaultMaxDirectOutputWidth : Nat := 64
def k2s2Fp16MaxDirectInputWidth : Nat := 256
def k2s2Fp16MaxDirectOutputWidth : Nat := 128
def k2s2Int8MaxDirectInputWidth : Nat := 130
def k2s2Int8MaxDirectOutputWidth : Nat := 65

/-- Direct width limits, input and output, of windows of three or more rows. -/
def overlappingWindowWidthLimits (kernelHeight strideY : Nat) : Option (Nat × Nat) :=
  if kernelHeight ≤ 2 then none
  else if kernelHeight ≤ 4 then if strideY = 1 then some (34, 31) else none
  else if strideY < kernelHeight then some (20, 13)
  else none

/-- The unpadded two-by-two window at stride two. -/
def PoolingShape.IsK2S2 (s : PoolingShape) : Prop :=
  s.kernelWidth = 2 ∧ s.kernelHeight = 2 ∧ s.strideX = 2 ∧ s.strideY = 2 ∧
    s.padLeft = 0 ∧ s.padTop = 0 ∧ s.padRight = 0 ∧ s.padBottom = 0

instance (s : PoolingShape) : Decidable s.IsK2S2 := inferInstanceAs (Decidable (_ ∧ _))

def directWidthLimits (s : PoolingShape) : Nat × Nat :=
  if s.IsK2S2 then
    match s.precision with
    | .fp16 => (k2s2Fp16MaxDirectInputWidth, k2s2Fp16MaxDirectOutputWidth)
    | .int8 => (k2s2Int8MaxDirectInputWidth, k2s2Int8MaxDirectOutputWidth)
  else
    (overlappingWindowWidthLimits s.kernelHeight s.strideY).getD
      (defaultMaxDirectInputWidth, defaultMaxDirectOutputWidth)

def outputExtent (input kernel stride before after : Nat) : Planner Nat := do
  let padded := input + before + after
  assertThat (padded < 2 ^ 32) "pooling padded extent overflows u32"
  assertThat (kernel ≤ padded) s!"pooling kernel {kernel} exceeds padded input extent {padded}"
  return (padded - kernel) / stride + 1

def requiredTrailingPadding (input output kernel stride leadingPadding : Nat) : Nat :=
  (output - 1) * stride + kernel - (input + leadingPadding)

def validateDirectKernel (kernelWidth kernelHeight : Nat) : Planner Unit :=
  assertThat (kernelWidth ≤ maxDirectKernel ∧ kernelHeight ≤ maxDirectKernel)
    s!"pooling kernel axes must be 1..={maxDirectKernel}; RK3588 hardware confirms 8x8 but rejects a directly programmed 16x16 window"

/-- The three families of range checks, each over its names and values. -/
def checkExtents : List (String × Nat) → Planner Unit
  | [] => return
  | (name, value) :: rest => do
    assertThat (1 ≤ value ∧ value ≤ maxPpuExtent)
      s!"{name} must be 1..={maxPpuExtent}, the PPU's 13-bit N-1 range"
    checkExtents rest

def checkKernelsAndStrides : List (String × Nat) → Planner Unit
  | [] => return
  | (name, value) :: rest => do
    assertThat (1 ≤ value ∧ value ≤ maxPpuKernelOrStride)
      s!"{name} must be 1..={maxPpuKernelOrStride}, the PPU's 4-bit N-1 range"
    checkKernelsAndStrides rest

def checkPaddings : List (String × Nat) → Planner Unit
  | [] => return
  | (name, value) :: rest => do
    assertThat (value ≤ maxPpuPadding) s!"{name} must be 0..={maxPpuPadding}, the PPU's 3-bit range"
    checkPaddings rest

def validatePoolingGeometry (s : PoolingShape) : Planner Unit := do
  checkExtents [("input width", s.inputWidth), ("input height", s.inputHeight),
    ("input channels", s.inputChannels), ("output width", s.outputWidth),
    ("output height", s.outputHeight), ("output channels", s.outputChannels)]
  checkKernelsAndStrides [("kernel width", s.kernelWidth), ("kernel height", s.kernelHeight),
    ("horizontal stride", s.strideX), ("vertical stride", s.strideY)]
  checkPaddings [("left padding", s.padLeft), ("top padding", s.padTop),
    ("right padding", s.padRight), ("bottom padding", s.padBottom)]
  assertThat (s.inputChannels = s.outputChannels) "pooling preserves the channel count"
  let width ← outputExtent s.inputWidth s.kernelWidth s.strideX s.padLeft s.padRight
  assertThat (s.outputWidth = width) "pooling output width does not match floor-mode geometry"
  let height ← outputExtent s.inputHeight s.kernelHeight s.strideY s.padTop s.padBottom
  assertThat (s.outputHeight = height) "pooling output height does not match floor-mode geometry"

def PoolingShape.validate (s : PoolingShape) : Planner Unit := do
  validatePoolingGeometry s
  validateDirectKernel s.kernelWidth s.kernelHeight

/-! ### Tiles -/

structure PoolingTile where
  inputFirst : Nat
  inputWidth : Nat
  outputFirst : Nat
  outputWidth : Nat
  padLeft : Nat
  padRight : Nat
  deriving DecidableEq, Repr

/-- The `Debug` output of a tile. -/
def PoolingTile.debug (tile : PoolingTile) : String :=
  "PoolingTile \x7b input_first: " ++ toString tile.inputFirst ++ ", input_width: " ++
    toString tile.inputWidth ++ ", output_first: " ++ toString tile.outputFirst ++
    ", output_width: " ++ toString tile.outputWidth ++ ", pad_left: " ++ toString tile.padLeft ++
    ", pad_right: " ++ toString tile.padRight ++ " \x7d"

structure PoolingPlan where
  shape : PoolingShape
  tiles : List PoolingTile
  deriving DecidableEq, Repr

namespace PoolingShape

def tileCount (s : PoolingShape) : Nat := s.outputWidth ⌈/⌉ (directWidthLimits s).2

/-- `avoid_equal_int8_k2_tiles`. -/
def AvoidsEqualTiles (s : PoolingShape) : Prop :=
  s.precision = .int8 ∧ s.IsK2S2 ∧ s.tileCount = 2 ∧ s.outputWidth % s.tileCount = 0 ∧
    s.outputWidth / s.tileCount = 64

instance (s : PoolingShape) : Decidable s.AvoidsEqualTiles := inferInstanceAs (Decidable (_ ∧ _))

/-- Output columns of the tile at an index. -/
def tileOutputWidth (s : PoolingShape) (index : Nat) : Nat :=
  let tileCount := s.tileCount
  let baseWidth := s.outputWidth / tileCount
  let widerTiles := s.outputWidth % tileCount
  let firstWider := tileCount - widerTiles
  if s.AvoidsEqualTiles then baseWidth - 1 + 2 * index
  else baseWidth + if firstWider ≤ index then 1 else 0

/-- The tile of some output columns. The difference of the input range underflows where its windows begin
past the image: a debug build panics there, a release build wraps and fails the width assertion. -/
def tileAt (s : PoolingShape) (outputFirst outputWidth : Nat) : Planner PoolingTile := do
  let rawInputFirst : Int := (outputFirst * s.strideX : Nat) - s.padLeft
  let rawInputEnd : Int :=
    ((outputFirst + outputWidth - 1) * s.strideX + s.kernelWidth : Nat) - s.padLeft
  let inputFirst := (max rawInputFirst 0).toNat
  let inputEnd := (max (min rawInputEnd s.inputWidth) 0).toNat
  assertThat (inputFirst ≤ inputEnd) "attempt to subtract with overflow"
  return {
    inputFirst
    inputWidth := inputEnd - inputFirst
    outputFirst
    outputWidth
    padLeft := (max (-rawInputFirst) 0).toNat
    padRight := (max (rawInputEnd - s.inputWidth) 0).toNat }

/-- The loop of `PoolingPlan::new`. -/
def planTiles (s : PoolingShape) : Nat → Nat → Nat → Planner (List PoolingTile)
  | 0, _, _ => return []
  | remaining + 1, index, outputFirst => do
    let (maxInputWidth, maxOutputWidth) := directWidthLimits s
    let outputWidth := s.tileOutputWidth index
    let tile ← s.tileAt outputFirst outputWidth
    let debug := tile.debug
    assertThat (tile.inputWidth ≤ maxInputWidth ∧ tile.outputWidth ≤ maxOutputWidth)
      s!"pooling tile exceeds the capture-derived direct width limits: {debug}"
    let rest ← s.planTiles remaining (index + 1) (outputFirst + outputWidth)
    return tile :: rest

end PoolingShape

def PoolingPlan.new (shape : PoolingShape) : Planner PoolingPlan := do
  shape.validate
  let tiles ← shape.planTiles shape.tileCount 0 0
  return { shape, tiles }

end IreeRocket.Pooling
