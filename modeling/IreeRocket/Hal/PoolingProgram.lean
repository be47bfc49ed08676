import IreeRocket.Hal.Pooling
import IreeRocket.Hal.Registers

/-!
# The pooling tile program

`buildPoolingTileTask` emits the register program of one tile of a `PoolingPlan`: the PPU block, its
PPU_RDMA feeder and the kick. It checks the addresses and the width limits, encodes the reciprocals an
average pool multiplies by, and writes each field through its width.
-/

namespace IreeRocket.Pooling

open Hal

/-! ### Registers -/

/-- The registers of a pooling program. -/
inductive PpuReg
  | ppuSPointer | ppuRdmaSPointer
  | ppuDataCubeInWidth | ppuDataCubeInHeight | ppuDataCubeInChannel
  | ppuDataCubeOutWidth | ppuDataCubeOutHeight | ppuDataCubeOutChannel
  | ppuOperationModeCfg | ppuPoolingKernelCfg | ppuRecipKernelWidth | ppuRecipKernelHeight
  | ppuPoolingPaddingCfg | ppuPaddingValue1Cfg | ppuPaddingValue2Cfg
  | ppuDstBaseAddr | ppuDstSurfStride | ppuDataFormat | ppuMiscCtrl
  | ppuRdmaCubeInWidth | ppuRdmaCubeInHeight | ppuRdmaCubeInChannel
  | ppuRdmaSrcBaseAddr | ppuRdmaSrcLineStride | ppuRdmaSrcSurfStride | ppuRdmaDataFormat
  | pcSingleTaskPlaceholder | pcRegisterAmounts | pcRequiredMarker | pcOperationEnable
  | pcAlignmentPadding
  deriving DecidableEq, Repr

abbrev PpuCmd := Cmd PpuReg

namespace PpuCmd

/-- `PPU_S_POINTER` and `PPU_RDMA_S_POINTER`. -/
def sPointer (register : PpuReg)
    (pointerPpMode executerPpEn pointerPpEn pointerPpClear executerPpClear : Nat) : PpuCmd :=
  ⟨register, [⟨1, pointerPpMode⟩, ⟨1, executerPpEn⟩, ⟨1, pointerPpEn⟩, ⟨1, pointerPpClear⟩,
    ⟨1, executerPpClear⟩]⟩

/-- The 13-bit extents of the PPU's and the PPU_RDMA's cubes. -/
def cube (register : PpuReg) (extent : Nat) : PpuCmd := ⟨register, [⟨13, extent⟩]⟩

def operationModeCfg (poolingMethod flyingMode indexEn useCnt notchAddr : Nat) : PpuCmd :=
  ⟨.ppuOperationModeCfg, [⟨2, poolingMethod⟩, ⟨1, flyingMode⟩, ⟨1, indexEn⟩, ⟨3, useCnt⟩,
    ⟨13, notchAddr⟩]⟩

def poolingKernelCfg (kernelWidth kernelHeight kernelStrideWidth kernelStrideHeight : Nat) : PpuCmd :=
  ⟨.ppuPoolingKernelCfg, [⟨4, kernelWidth⟩, ⟨4, kernelHeight⟩, ⟨4, kernelStrideWidth⟩,
    ⟨4, kernelStrideHeight⟩]⟩

/-- `PPU_RECIP_KERNEL_WIDTH` and `PPU_RECIP_KERNEL_HEIGHT`. -/
def recipKernel (register : PpuReg) (recip : Nat) : PpuCmd := ⟨register, [⟨17, recip⟩]⟩

def poolingPaddingCfg (padLeft padTop padRight padBottom : Nat) : PpuCmd :=
  ⟨.ppuPoolingPaddingCfg, [⟨3, padLeft⟩, ⟨3, padTop⟩, ⟨3, padRight⟩, ⟨3, padBottom⟩]⟩

def paddingValue1Cfg (padValue0 : Nat) : PpuCmd := ⟨.ppuPaddingValue1Cfg, [⟨32, padValue0⟩]⟩

def dstBaseAddr (dstBaseAddr : Nat) : PpuCmd := ⟨.ppuDstBaseAddr, [⟨28, dstBaseAddr⟩]⟩

/-- `PPU_DST_SURF_STRIDE` and the two strides of the PPU_RDMA. -/
def stride (register : PpuReg) (pixels : Nat) : PpuCmd := ⟨register, [⟨28, pixels⟩]⟩

def dataFormat (procPrecision dpuFlyin indexAdd : Nat) : PpuCmd :=
  ⟨.ppuDataFormat, [⟨3, procPrecision⟩, ⟨1, dpuFlyin⟩, ⟨28, indexAdd⟩]⟩

def miscCtrl (burstLen nonalign mcSurfOut surfLen : Nat) : PpuCmd :=
  ⟨.ppuMiscCtrl, [⟨4, burstLen⟩, ⟨1, nonalign⟩, ⟨1, mcSurfOut⟩, ⟨16, surfLen⟩]⟩

def rdmaSrcBaseAddr (srcBaseAddr : Nat) : PpuCmd := ⟨.ppuRdmaSrcBaseAddr, [⟨32, srcBaseAddr⟩]⟩

def rdmaDataFormat (inPrecision : Nat) : PpuCmd := ⟨.ppuRdmaDataFormat, [⟨2, inPrecision⟩]⟩

end PpuCmd

/-- `KICK_PPU | KICK_PPU_RDMA`. -/
def kickPpu : Nat := 0x60

/-- `push_ppu_kick`: the trailer, padded to four commands. -/
def pushPpuKick (commands : List PpuCmd) : List PpuCmd :=
  let kicked := commands ++ [zero .pcSingleTaskPlaceholder, zero .pcRegisterAmounts,
    zero .pcRequiredMarker, ⟨.pcOperationEnable, [⟨32, kickPpu⟩]⟩]
  kicked ++ List.replicate ((4 - kicked.length % 4) % 4) (zero .pcAlignmentPadding)

/-! ### Reciprocals -/

/-- `f32::to_bits` of a positive integer below 2^24, which is exact. -/
def f32Bits (n : Nat) : Nat := (n.log2 + 127) <<< 23 ||| (n <<< (23 - n.log2) &&& 0x7fffff)

/-- The fp16 bit pattern nearest `value`, round-to-nearest-even. -/
def fp16Bits (value : Nat) : Planner Nat := do
  let bits := f32Bits value
  let sign := (bits >>> 16) &&& 0x8000
  let exponent : Int := ((bits >>> 23) &&& 0xff : Nat) - 127 + 15
  assertThat (1 ≤ exponent ∧ exponent ≤ 30) s!"{value} is outside fp16's normal range"
  let mantissa := bits &&& 0x7fffff
  let half := sign ||| (exponent.toNat <<< 10) ||| (mantissa >>> 13)
  let remainder := mantissa &&& 0x1fff
  return if 0x1000 < remainder ∨ (remainder = 0x1000 ∧ half &&& 1 = 1) then half + 1 else half

/-- The reciprocal an average pool multiplies by: `65536 / kernel`, as an integer or an fp16. -/
def averageReciprocal (kernel : Nat) (precision : PoolingPrecision) : Planner Nat := do
  assertThat (1 ≤ kernel) "pooling kernel must be nonzero"
  let fixedPoint := 2 ^ 16 / kernel
  match precision with
  | .int8 => return fixedPoint
  | .fp16 => do
    assertThat (2 ≤ kernel)
      "an fp16 average pool cannot encode a kernel of 1: its reciprocal is 65536, past fp16's 65504 ceiling"
    fp16Bits fixedPoint

/-- `(recip_kernel_width, recip_kernel_height)`. -/
def reciprocals (s : PoolingShape) : Planner (Nat × Nat) :=
  match s.method with
  | .avg => do
    let width ← averageReciprocal s.kernelWidth s.precision
    let height ← averageReciprocal s.kernelHeight s.precision
    return (width, height)
  | .max | .min => return (0, 0)

/-! ### The program -/

def atomicKSize : Nat := 16
def featureAtomicSize : Nat := 16

section Program

variable (s : PoolingShape) (tile : PoolingTile)

def programmedChannels : Nat := nextMultipleOf s.inputChannels s.precision.channelsPerAtom

def srcLineStride : Nat := s.inputWidth * atomicKSize / featureAtomicSize

def srcSurfStride : Nat :=
  nextMultipleOf (s.inputWidth * atomicKSize * s.inputHeight / featureAtomicSize) 4

def dstSurfStride : Nat :=
  nextMultipleOf (s.outputWidth * atomicKSize * s.outputHeight / featureAtomicSize) 4

def programmedPadBottom : Nat :=
  requiredTrailingPadding s.inputHeight s.outputHeight s.kernelHeight s.strideY s.padTop

/-- The PPU block. The vendor programs the consumer before its feeder. -/
def ppuRegisters (recipWidth recipHeight outputAddr : Nat) : List PpuCmd :=
  [.cube .ppuDataCubeInWidth (tile.inputWidth - 1), .cube .ppuDataCubeInHeight (s.inputHeight - 1),
    .cube .ppuDataCubeInChannel (programmedChannels s - 1),
    .cube .ppuDataCubeOutWidth (tile.outputWidth - 1),
    .cube .ppuDataCubeOutHeight (s.outputHeight - 1),
    .cube .ppuDataCubeOutChannel (programmedChannels s - 1),
    .operationModeCfg s.method.bits 1 0 0 (s.outputWidth - tile.outputWidth),
    .poolingKernelCfg (s.kernelWidth - 1) (s.kernelHeight - 1) (s.strideX - 1) (s.strideY - 1),
    .recipKernel .ppuRecipKernelWidth recipWidth, .recipKernel .ppuRecipKernelHeight recipHeight,
    .poolingPaddingCfg tile.padLeft s.padTop tile.padRight (programmedPadBottom s),
    .paddingValue1Cfg s.padValue, zero .ppuPaddingValue2Cfg, .dstBaseAddr (outputAddr / 16),
    .stride .ppuDstSurfStride (dstSurfStride s),
    .dataFormat s.precision.ppuPrecision 0 (dstSurfStride s), .miscCtrl 3 0 0 0]

/-- The PPU_RDMA block, which reads the tile's columns from memory. -/
def ppuRdmaRegisters (inputAddr : Nat) : List PpuCmd :=
  [.cube .ppuRdmaCubeInWidth (tile.inputWidth - 1), .cube .ppuRdmaCubeInHeight (s.inputHeight - 1),
    .cube .ppuRdmaCubeInChannel (programmedChannels s - 1), .rdmaSrcBaseAddr inputAddr,
    .stride .ppuRdmaSrcLineStride (srcLineStride s), .stride .ppuRdmaSrcSurfStride (srcSurfStride s),
    .rdmaDataFormat s.precision.rdmaPrecision]

def poolingRegisters (recipWidth recipHeight inputAddr outputAddr : Nat) : List PpuCmd :=
  pushPpuKick ([.sPointer .ppuSPointer 1 1 1 1 1, .sPointer .ppuRdmaSPointer 1 1 1 1 1] ++
    ppuRegisters s tile recipWidth recipHeight outputAddr ++ ppuRdmaRegisters s tile inputAddr)

/-- `{:#x}`. -/
def hex (n : Nat) : String := "0x" ++ String.ofList (Nat.toDigits 16 n)

/-- `build_pooling_tile_task`. -/
def buildPoolingTileTask (inputAddr outputAddr : Nat) : Planner (List PpuCmd) := do
  s.validate
  let (maxInputWidth, maxOutputWidth) := directWidthLimits s
  let debug := tile.debug
  assertThat (tile.inputWidth ≤ maxInputWidth ∧ tile.outputWidth ≤ maxOutputWidth)
    s!"direct pooling tile exceeds the capture-derived width limits: {debug}"
  let tileAddr := inputAddr + tile.inputFirst * 16
  assertThat (tileAddr < 2 ^ 32) "pooling tile input address overflows u32"
  let shown := hex outputAddr
  assertThat (outputAddr % 16 = 0)
    s!"build_pooling_tile_task: output_addr {shown} is not 16-byte aligned -- PPU_DST_BASE_ADDR is written as address >> 4 (see PoolingBuffers::output_addr's doc comment), which silently drops any non-zero low 4 bits instead of failing loudly, so this must be checked explicitly"
  let (recipWidth, recipHeight) ← reciprocals s
  assertThat (0 < tile.inputWidth) "attempt to subtract with overflow"
  let commands := poolingRegisters s tile recipWidth recipHeight tileAddr outputAddr
  assertThat (AllFit commands) "Value exceeds designated bit width!"
  return commands

end Program

/-- DMA addresses of the two buffers. -/
structure PoolingBuffers where
  inputAddr : Nat
  outputAddr : Nat
  deriving DecidableEq, Repr

/-- One program per tile, all writing into the same output buffer. -/
def PoolingPlan.programsWithBuffers (plan : PoolingPlan) (bufs : PoolingBuffers) :
    Planner (List (List PpuCmd)) :=
  plan.tiles.mapM fun tile => do
    let outputAddr := bufs.outputAddr + tile.outputFirst * 16
    assertThat (outputAddr < 2 ^ 32) "pooling tile output address overflows u32"
    buildPoolingTileTask plan.shape tile bufs.inputAddr outputAddr

/-- What the dispatch path runs, outside any panic guard. -/
def emitPooling (s : PoolingShape) (bufs : PoolingBuffers) : Planner (List (List PpuCmd)) := do
  let plan ← PoolingPlan.new s
  plan.programsWithBuffers bufs

end IreeRocket.Pooling
