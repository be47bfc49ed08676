import IreeRocket.Core.Columns
import IreeRocket.Hal.Registers

/-!
# The convolution tile program

`conv2dTileProgram` emits the register program of one tile: it asserts what it relies on, computes
the field values and writes the registers in order, each field through its width. The research
overrides the source reads from environment variables are all unset here.
-/

namespace IreeRocket.Hal

open Conv

/-- Where a tile writes: into the image all tiles share, or into a range of its own. -/
inductive OutputPlacement
  | sharedImage
  | contiguousTile
  deriving DecidableEq, Repr

/-- The code of `DataPrecision`, for the CNA and CORE stages. -/
def dataPrecision : Precision → Nat
  | .fp16 | .fp16Accumulator => 2
  | .bf16 => 3
  | .int16 => 1
  | .int4 => 6
  | .tf32 => 7
  | .int8 _ | .int8Accumulator _ => 0

/-- The code of `OutputPrecision` the DPU's input and processing stages take. -/
def dpuDataPrecision : Precision → Nat
  | .tf32 => 5
  | .fp16 | .fp16Accumulator => 2
  | .bf16 => 3
  | .int16 => 1
  | .int4 => 6
  | .int8 _ | .int8Accumulator _ => 0

/-- The code of `OutputPrecision` the DPU output stage takes. -/
def outputDataPrecision : Precision → Nat
  | .fp16 => 2
  | .bf16 => 3
  | .int16 => 1
  | .int4 => 1
  | .tf32 | .fp16Accumulator => 5
  | .int8 _ => 0
  | .int8Accumulator _ => 4

/-- The four fields of the BN stage an activation moves. -/
structure BnProgramming where
  bypass : Nat
  reluBypass : Nat
  reluxEn : Nat
  cmp : Nat
  deriving DecidableEq, Repr

/-- `(bn_bypass, bn_relu_bypass, bn_relux_en, cmp)`. -/
def bnProgramming : Activation → BnProgramming
  | .none => ⟨1, 1, 0, 0⟩
  | .relu => ⟨0, 0, 0, 0⟩
  | .clamped cmp => ⟨0, 0, 1, cmp⟩

def convMode (shape : Shape) : Nat := if shape.depthwise then 3 else 0

def bsOwSizeE (shape : Shape) : Nat :=
  if shape.depthwise then 3
  else if shape.precision.writesFp32Result then 3
  else if shape.precision.writesAccumulators ∨ shape.precision = .int4 then 7
  else 1

def bsMulShiftValue : Nat := 14
def brdmaDataUseNone : Nat := 0
def brdmaDataUseBias : Nat := 1
def brdmaDataUseQuantized : Nat := 7
def denseAccumulatorSurfMult : Nat := 8
def burstSixteen : Nat := 15
def externalMemory : Nat := 2

/-- `OneChannel = 8` through `FourChannels = 11`; the source has no other dense channel count. -/
def argbInputMode (inChannels : Nat) : Nat := inChannels + 7

def outputChannelBlockBytes (shape : Shape) : Nat :=
  if shape.precision.writesAccumulators ∧ shape.depthwise then
    shape.precision.outChannelGranule * shape.precision.outputElementBytes
  else featureAtomBytes

/-- `Tile2D::input_offset`. -/
def inputOffset (t : Tile2D) (shape : Shape) : Nat :=
  let columnOffset :=
    match shape.layout with
    | .dense => t.columns.inFirst * shape.inChannels * shape.precision.elementBytes
    | .surfaces => t.columns.inFirst * featureAtomBytes
  wrap32 (t.rows.inFirst * shape.inputRowStride + columnOffset)

/-- `Tile2D::output_offset`. -/
def outputOffset (t : Tile2D) (shape : Shape) (kernels : Kernels) : Nat :=
  wrap32 (t.rows.outFirst * (shape.outputWidth kernels * outputChannelBlockBytes shape) +
    t.columns.outFirst * outputChannelBlockBytes shape)

def horizontallyTiled (shape : Shape) (kernels : Kernels) (t : Tile2D) : Bool :=
  t.columns.outFirst != 0 || t.columns.outCols != shape.outputWidth kernels

/-- The image a tile writes into: where it begins, its pixels, and what a row leaves out. -/
structure OutputImage where
  baseOffset : Nat
  surfacePixels : Nat
  notch : Nat
  deriving DecidableEq, Repr

/-- `(output_base_offset, output_surface_pixels, output_notch)`. -/
def outputImage (placement : OutputPlacement) (shape : Shape) (kernels : Kernels) (t : Tile2D) :
    OutputImage :=
  match placement with
  | .sharedImage =>
    ⟨outputOffset t shape kernels, wrap32 (shape.outputWidth kernels * shape.outputHeight kernels),
      shape.outputWidth kernels - t.columns.outCols⟩
  | .contiguousTile => ⟨0, t.columns.outCols * t.rows.outRows, 0⟩

/-- How the CNA walks the input of a tile. -/
structure FeatureStrides where
  lineStride : Nat
  surfStride : Nat
  dataEntries : Nat
  deriving DecidableEq, Repr

/-- `(line_stride, surf_stride, data_entries)`. The full-width surface stride is the vendor's
wrapping encoding, masked to 28 bits. -/
def featureStrides (shape : Shape) (tiled : Bool) (t : Tile2D) : FeatureStrides :=
  let entries := wrap32 (t.columns.inCols * shape.cbufAtoms) ⌈/⌉ cbufAtomsPerEntry
  match shape.layout, tiled with
  | .dense, _ =>
    ⟨shape.width, shape.width * (shape.height - 1),
      shape.cbufInputWidth t.columns.inCols * t.rows.inRows⟩
  | .surfaces, false =>
    ⟨shape.width * 4, wrap32 (shape.width * wrap32 (shape.height + 2 ^ 32 - 4)) % 2 ^ 28, entries⟩
  | .surfaces, true => ⟨shape.width, shape.width * shape.height - t.columns.inCols, entries⟩

def weightBytesPerKernel (shape : Shape) (kernels : Kernels) : Nat :=
  let kernel := shape.kernelProgramming kernels
  wrap32 (kernel.height * kernel.width * shape.weightChannels * shape.precision.elementBits) / 8

/-- `DPU_SURFACE_ADD.surf_add`. -/
def surfAdd (shape : Shape) (kernels : Kernels) (t : Tile2D) : Nat :=
  let pixels := shape.outputWidth kernels * shape.outputHeight kernels
  if shape.precision.writesAccumulators then
    if shape.depthwise then 16
    else wrap32 (t.columns.outCols * t.rows.outRows * denseAccumulatorSurfMult)
  else if shape.precision.writesFp32Result then wrap32 (pixels * 4)
  else if shape.precision = .int4 then wrap32 (pixels * denseAccumulatorSurfMult)
  else wrap32 (pixels * 2 * if shape.depthwise then 2 else 1)

/-- An `i32` as `u32`. -/
def asU32 (n : Int) : Nat := (n % 2 ^ 32).toNat

/-- What the DPU's output converter is programmed with. -/
structure OutputConversion where
  offset : Nat
  scale : Nat
  shift : Nat
  deriving DecidableEq, Repr

/-! ### The registers in order -/

section Program

variable (shape : Shape) (kernels : Kernels) (t : Tile2D) (placement : OutputPlacement)
variable (featureGrains dataBanks weightBanks : Nat)

/-- `conv_con1`: the ARGB image path for a dense layout, grouped lines for a horizontal tile. -/
def convCon1 : RegCmd :=
  let precision := dataPrecision shape.precision
  match shape.layout with
  | .dense => cnaConvCon1 1 1 (argbInputMode shape.inChannels) precision precision (convMode shape)
  | .surfaces =>
    cnaConvCon1 0 (flag (horizontallyTiled shape kernels t)) 0 precision precision (convMode shape)

def preambleRegisters : List RegCmd :=
  [cnaCbufCon0 weightBanks dataBanks, zero .cnaDcompRegnum, zero .cnaDcompCtrl,
    convCon1 shape kernels t, sPointer .dpuSPointer 1 1 1, sPointer .dpuRdmaSPointer 1 1 1]

/-- The CNA's convolution and weight sizes. -/
def cnaSizeRegisters : List RegCmd :=
  let kernel := shape.kernelProgramming kernels
  let strides := featureStrides shape (horizontallyTiled shape kernels t) t
  [convCon1 shape kernels t, cnaConvCon2 featureGrains, cnaConvCon3 shape.stride shape.stride,
    cnaDataSize0 t.columns.inCols t.rows.inRows,
    cnaDataSize1 ((shape.inChannels - 1) % channelRealModulus) shape.paddedChannels,
    cnaDataSize2 t.columns.outCols, cnaDataSize3 (t.columns.outCols * t.rows.outRows),
    cnaWeightSize0 (shape.weightBytes kernels), cnaWeightSize1 (weightBytesPerKernel shape kernels),
    cnaWeightSize2 kernel.width kernel.height shape.programmedKernels,
    cnaCbufCon0 weightBanks dataBanks, cnaCbufCon1 strides.dataEntries]

/-- The CNA's converters, padding and DMA. -/
def cnaDmaRegisters : List RegCmd :=
  let strides := featureStrides shape (horizontallyTiled shape kernels t) t
  [cnaCvtCon0 1 1 1, cnaCvtScale .cnaCvtCon1 1, cnaCvtScale .cnaCvtCon2 1,
    cnaCvtScale .cnaCvtCon3 1, cnaCvtScale .cnaCvtCon4 1, zero .cnaFcCon0, zero .cnaFcCon1,
    cnaPadCon0 t.rows.padTop t.columns.padLeft, cnaFeatureDataAddr (inputOffset t shape),
    zero .cnaFcCon2, cnaDmaCon0 burstSixteen burstSixteen, cnaDmaCon1 strides.lineStride,
    cnaDmaCon2 strides.surfStride, cnaFcDataSize0 t.columns.inCols t.rows.inRows,
    cnaFcDataSize1 shape.paddedChannels, zero .cnaDcompCtrl, zero .cnaDcompRegnum,
    zero .cnaDcompAddr0] ++
  (List.finRange 16).map (fun i => zero (.cnaDcompAmount i)) ++
  [zero .cnaCvtCon5,
    cnaPadCon1 (shape.precision.quantization.elim 0 fun q => asU32 q.inputZeroPoint)]

def coreRegisters : List RegCmd :=
  [coreMiscCfg (dataPrecision shape.precision) (flag shape.precision.quantization.isSome)
      (flag shape.depthwise),
    coreDataoutSize0 (t.columns.outCols - 1) (t.rows.outRows - 1),
    coreDataoutSize1 (shape.paddedOutChannels - 1), zero .coreClipTruncate,
    zero .coreReserved3030]

/-- The DPU's output image. -/
def dpuImageRegisters : List RegCmd :=
  let quantized := shape.precision.quantization.isSome
  let accumulators := shape.precision.writesAccumulators
  let precision := dpuDataPrecision shape.precision
  let image := outputImage placement shape kernels t
  [dpuFeatureModeCfg burstSixteen externalMemory (convMode shape),
    dpuDataFormat precision (outputDataPrecision shape.precision) precision
      (flag (accumulators && shape.depthwise)) (if quantized then bsMulShiftValue else 0),
    zero .dpuOffsetPend, dpuDstBaseAddr image.baseOffset, dpuDstSurfStride image.surfacePixels,
    cubeExtents .dpuDataCubeWidth [t.columns.outCols - 1],
    cubeExtents .dpuDataCubeHeight [t.rows.outRows - 1],
    cubeExtents .dpuDataCubeNotchAddr [image.notch, image.notch],
    cubeExtents .dpuDataCubeChannel [shape.outChannels - 1, shape.paddedOutChannels - 1]]

/-- The DPU's BS, BN and EW stages. -/
def dpuStageRegisters : List RegCmd :=
  let quantized := shape.precision.quantization.isSome
  let accumulators := shape.precision.writesAccumulators
  let bn := bnProgramming shape.activation
  [dpuBsCfg (flag accumulators) 2 1 1 0 (flag !quantized), zero .dpuBsAluCfg,
    dpuBsMulCfg (if quantized then bsMulShiftValue else 0) (flag quantized),
    zero .dpuBsReluxCmpValue,
    dpuBsOwCfg (bsOwSizeE shape) (bsOwSizeE shape) (bsOwSizeE shape)
      (flag (!quantized || accumulators)) (flag quantized),
    dpuBsOwOp 0, cubeExtents .dpuWdmaSize0 [shape.paddedOutChannels - 1],
    cubeExtents .dpuWdmaSize1 [t.rows.outRows - 1, t.columns.outCols - 1],
    dpuBnCfg bn.reluBypass bn.reluxEn 1 1 bn.bypass, zero .dpuBnAluCfg, zero .dpuBnMulCfg,
    dpuBnReluxCmpValue bn.cmp, dpuEwCfg 1 1 1 1 1, zero .dpuEwCvtOffsetValue,
    dpuEwCvtScaleValue 1, zero .dpuEwReluxCmpValue]

/-- The values of the output converter: identity for accumulators, the requantization otherwise. -/
def outputConversion : OutputConversion :=
  if shape.precision.writesAccumulators then ⟨0, 1, 0⟩
  else
    match shape.precision.quantization with
    | none => ⟨0, 1, 0⟩
    | some q => ⟨asU32 q.outputZeroPoint, q.multiplier.scale, q.multiplier.shift⟩

/-- The DPU's output converter, surface step and disabled tables. -/
def dpuConvertRegisters : List RegCmd :=
  let quantized := shape.precision.quantization.isSome
  let conversion := outputConversion shape
  [dpuOutCvtOffset conversion.offset,
    dpuOutCvtScale (flag (!quantized && !shape.precision.writesFp32Result)) conversion.scale,
    dpuOutCvtShift conversion.shift] ++
  (List.finRange 8).map (fun i => zero (.dpuEwOpValue i)) ++
  [dpuSurfaceAdd (surfAdd shape kernels t), zero .dpuReserved40c4, zero .dpuLutAccessCfg,
    zero .dpuLutAccessData, zero .dpuLutCfg, zero .dpuLutInfo, zero .dpuLutLeStart,
    zero .dpuLutLeEnd, zero .dpuLutLoStart, zero .dpuLutLoEnd, zero .dpuLutLeSlopeScale,
    zero .dpuLutLeSlopeShift, zero .dpuLutLoSlopeScale, zero .dpuLutLoSlopeShift]

def brdmaDataUse : Nat :=
  if shape.precision.writesAccumulators then brdmaDataUseNone
  else if shape.precision.quantization.isSome then brdmaDataUseQuantized
  else brdmaDataUseBias

def dpuRdmaRegisters : List RegCmd :=
  let precision := dpuDataPrecision shape.precision
  [cubeExtents .dpuRdmaDataCubeWidth [t.columns.outCols - 1],
    cubeExtents .dpuRdmaDataCubeHeight [t.rows.outRows - 1],
    cubeExtents .dpuRdmaDataCubeChannel [shape.paddedOutChannels - 1], zero .dpuRdmaSrcBaseAddr,
    dpuRdmaBrdmaCfg (brdmaDataUse shape), zero .dpuRdmaBsBaseAddr, zero .dpuRdmaNrdmaCfg,
    zero .dpuRdmaBnBaseAddr, dpuRdmaErdmaCfg 1, zero .dpuRdmaEwBaseAddr,
    zero .dpuRdmaEwSurfStride,
    dpuRdmaFeatureModeCfg burstSixteen 1 precision precision (convMode shape),
    zero .dpuRdmaSrcDmaCfg, zero .dpuRdmaSurfNotch, zero .dpuRdmaPadCfg, dpuRdmaWeight 1 1 1 1,
    zero .dpuRdmaEwSurfNotch]

/-- The vendor's program-controller trailer. -/
def pcTrailer : List RegCmd :=
  [zero .pcSingleTaskPlaceholder, zero .pcRegisterAmounts, zero .pcRequiredMarker,
    zero .pcOperationEnable] ++ List.replicate 6 (zero .pcAlignmentPadding)

def convRegisters : List RegCmd :=
  preambleRegisters shape kernels t dataBanks weightBanks ++
  cnaSizeRegisters shape kernels t featureGrains dataBanks weightBanks ++
  cnaDmaRegisters shape kernels t ++ coreRegisters shape t ++
  dpuImageRegisters shape kernels t placement ++ dpuStageRegisters shape t ++
  dpuConvertRegisters shape kernels t ++ dpuRdmaRegisters shape t ++ pcTrailer

/-- `conv_2d_tile_program`. -/
def conv2dTileProgram : Planner (List RegCmd) := do
  let inputWidth := t.columns.inCols
  let atoms := shape.cbufAtoms
  let slabBase := (shape.cbufAtoms ⌈/⌉ cbufAtomsPerEntry - 1) * inputWidth
  let outHeight := shape.outputHeight kernels
  let outWidth := shape.outputWidth kernels
  let inRows := t.rows.inRows
  let charged := shape.cbufInputWidth inputWidth
  let precision := shape.precision.debug
  let height := shape.height
  let width := shape.width
  let outFirstRow := t.rows.outFirst
  let outEndRow := t.rows.outFirst + t.rows.outRows
  let outFirstColumn := t.columns.outFirst
  let outEndColumn := t.columns.outFirst + t.columns.outCols
  let inFirstRow := t.rows.inFirst
  let inEndRow := t.rows.inFirst + t.rows.inRows
  let inFirstColumn := t.columns.inFirst
  let inEndColumn := t.columns.inFirst + t.columns.inCols
  assertThat (inputWidth ≤ shape.maxTileInputWidth)
    s!"tile reads {inputWidth} input columns at {atoms} feature atoms per pixel; the last entry slab would begin at entry {slabBase}, past the {maxEntrySlabBase} the CBUF can address, and the hardware reads it from the front of the line instead (ISSUES.md C10)"
  assertThat (placement = .contiguousTile → shape.precision.writesAccumulators)
    "contiguous tile output is only validated for Int8Accumulator precision"
  assertThat (featureGrains ≤ maxFeatureGrains)
    s!"tile requires {featureGrains} feature grains; CNA_CONV_CON2.feature_grains encodes at most {maxFeatureGrains}"
  assertThat (0 < t.rows.outRows ∧ outEndRow ≤ outHeight)
    s!"tile output rows {outFirstRow}..{outEndRow} fall outside the {outHeight}-row output"
  assertThat (0 < t.columns.outCols ∧ outEndColumn ≤ outWidth)
    s!"tile output columns {outFirstColumn}..{outEndColumn} fall outside the {outWidth}-column output"
  assertThat (wrap32 (inRows * charged) ≤ maxDataEntries)
    s!"tile reads {charged}x{inRows} charged pixels; CNA_CBUF_CON1.data_entries holds at most {maxDataEntries} at {precision}"
  assertThat (0 < inRows ∧ inEndRow ≤ shape.height)
    s!"tile input rows {inFirstRow}..{inEndRow} fall outside the {height}-row image"
  assertThat (0 < inputWidth ∧ inEndColumn ≤ shape.width)
    s!"tile input columns {inFirstColumn}..{inEndColumn} fall outside the {width}-column image"
  let commands :=
    convRegisters shape kernels t placement featureGrains dataBanks weightBanks
  assertThat (AllFit commands) "Value exceeds designated bit width!"
  assertThat (commands.length = 136) "assertion failed: commands.len() == 136"
  return commands

end Program

/-- The program of one tile of a plan, as `ConvPlan::programs` (a shared image) and
`staged_accumulator_programs` (contiguous tiles) emit it. -/
def tileProgram (plan : ConvPlan) (placement : OutputPlacement) (t : Tile2D) :
    Planner (List RegCmd) :=
  conv2dTileProgram plan.shape plan.kernels t placement (Conv.featureGrains plan.kernels t.rows)
    plan.dataBanks plan.weightBanks

end IreeRocket.Hal
