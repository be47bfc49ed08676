import IreeRocket.Hal.ConvProgram

/-!
# The fields of a tile program

`TileEncodable` holds the bounds that a planned tile may miss, `FieldBounds` all that the fields of
a tile program need. Under `FieldBounds` every field of every register fits (`convRegisters_fit`);
the bounds of `TileEncodable` are also necessary (`tileEncodable_of_fit`).
-/

namespace IreeRocket.Hal

open Conv

/-- The channel counts a program writes fit their fields. -/
structure ChannelsEncodable (shape : Shape) (kernels : Kernels) : Prop where
  datain : shape.paddedChannels < 2 ^ 16
  orig : shape.outChannels ≤ 2 ^ 13
  padded : shape.paddedOutChannels ≤ 2 ^ 13
  programmed : shape.programmedKernels < 2 ^ 14
  perKernel : wrap32 (kernels.1 * kernels.2 * shape.weightChannels * shape.precision.elementBits) <
    2 ^ 22

/-- The bounds on the fields of a tile's program that the planner does not check. -/
structure TileEncodable (shape : Shape) (kernels : Kernels) (placement : OutputPlacement)
    (t : Tile2D) : Prop where
  stride : shape.stride < 8
  inCols : t.columns.inCols < 2 ^ 11
  outCols : t.columns.outCols < 2 ^ 11
  channels : ChannelsEncodable shape kernels
  surfacePixels : (outputImage placement shape kernels t).surfacePixels < 2 ^ 28
  notch : (outputImage placement shape kernels t).notch < 2 ^ 13
  surfAdd : surfAdd shape kernels t < 2 ^ 28
  scale : (outputConversion shape).scale < 2 ^ 16
  shift : (outputConversion shape).shift < 2 ^ 12

/-- The bounds the fields of one tile's program ask for. -/
structure FieldBounds (shape : Shape) (kernels : Kernels) (t : Tile2D) (placement : OutputPlacement)
    (featureGrains dataBanks weightBanks : Nat) : Prop
    extends TileEncodable shape kernels placement t where
  banks : dataBanks < 16 ∧ weightBanks < 16
  grains : featureGrains < 2 ^ 10
  inRows : t.rows.inRows < 2 ^ 11
  outRows : t.rows.outRows < 2 ^ 11
  line : (featureStrides shape (horizontallyTiled shape kernels t) t).lineStride < 2 ^ 28
  surf : (featureStrides shape (horizontallyTiled shape kernels t) t).surfStride < 2 ^ 28
  entries : (featureStrides shape (horizontallyTiled shape kernels t) t).dataEntries < 2 ^ 15
  pads : t.rows.padTop < 16 ∧ t.columns.padLeft < 16
  kernel : kernels.1 < 32 ∧ kernels.2 < 32

section Blocks

variable {shape : Shape} {kernels : Kernels} {t : Tile2D} {placement : OutputPlacement}
variable {featureGrains dataBanks weightBanks : Nat}

/-- The bits of one kernel's coefficients and the bytes that are programmed. -/
theorem weightBytesPerKernel_lt_iff (shape : Shape) (kernels : Kernels) :
    weightBytesPerKernel shape kernels < 2 ^ 19 ↔
      wrap32 (kernels.1 * kernels.2 * shape.weightChannels * shape.precision.elementBits) < 2 ^ 22 :=
  Nat.div_lt_iff_lt_mul (by decide)

theorem dataPrecision_lt (p : Precision) : dataPrecision p < 8 := by
  cases p <;> simp [dataPrecision]

theorem dpuDataPrecision_lt (p : Precision) : dpuDataPrecision p < 8 := by
  cases p <;> simp [dpuDataPrecision]

theorem outputDataPrecision_lt (p : Precision) : outputDataPrecision p < 8 := by
  cases p <;> simp [outputDataPrecision]

theorem convMode_lt (shape : Shape) : convMode shape < 4 := by
  unfold convMode
  split_ifs <;> decide

theorem bsOwSizeE_lt (shape : Shape) : bsOwSizeE shape < 8 := by
  unfold bsOwSizeE
  split_ifs <;> decide

theorem brdmaDataUse_lt (shape : Shape) : brdmaDataUse shape < 16 := by
  unfold brdmaDataUse
  split_ifs <;> decide

theorem convCon1_fits (shape : Shape) (kernels : Kernels) (t : Tile2D) :
    (convCon1 shape kernels t).Fits := by
  have hp := dataPrecision_lt shape.precision
  have hm := convMode_lt shape
  unfold convCon1
  cases hl : shape.layout with
  | dense =>
    have hin : shape.inChannels ≤ 4 := by
      by_contra hgt
      simp [Shape.layout, maxDenseChannels, hgt] at hl
    simp [cnaConvCon1, argbInputMode]
    omega
  | surfaces =>
    have hf := flag_lt (horizontallyTiled shape kernels t)
    simp [cnaConvCon1]
    omega

theorem preamble_fit (h : FieldBounds shape kernels t placement featureGrains dataBanks weightBanks) :
    AllFit (preambleRegisters shape kernels t dataBanks weightBanks) := by
  have hcon := convCon1_fits shape kernels t
  have hbanks := h.banks
  simp [preambleRegisters, cnaCbufCon0, sPointer, hcon]
  omega

theorem cnaSize_fit (h : FieldBounds shape kernels t placement featureGrains dataBanks weightBanks) :
    AllFit (cnaSizeRegisters shape kernels t featureGrains dataBanks weightBanks) := by
  have hcon := convCon1_fits shape kernels t
  have hreal := Nat.mod_lt (shape.inChannels - 1) (show 0 < channelRealModulus by decide)
  have hatomics : t.columns.outCols * t.rows.outRows < 2 ^ 11 * 2 ^ 11 :=
    Nat.mul_lt_mul'' h.outCols h.outRows
  have hbanks := h.banks
  have hgrains := h.grains
  have hstride := h.stride
  have hincols := h.inCols
  have hinrows := h.inRows
  have houtcols := h.outCols
  have hentries := h.entries
  have hkernel := h.kernel
  obtain ⟨hdatain, -, -, hkernels, hper⟩ := h.channels
  rw [← weightBytesPerKernel_lt_iff] at hper
  unfold channelRealModulus at hreal
  simp [cnaSizeRegisters, cnaConvCon2, cnaConvCon3, cnaDataSize0, cnaDataSize1, cnaDataSize2,
    cnaDataSize3, cnaWeightSize0, cnaWeightSize1, cnaWeightSize2, cnaCbufCon0, cnaCbufCon1, hcon,
    channelRealModulus]
  omega

theorem cnaDma_fit (h : FieldBounds shape kernels t placement featureGrains dataBanks weightBanks) :
    AllFit (cnaDmaRegisters shape kernels t) := by
  have hzero := allFit_map_zero Reg.cnaDcompAmount (List.finRange 16)
  have hline := h.line
  have hsurf := h.surf
  have hpads := h.pads
  have hincols := h.inCols
  have hinrows := h.inRows
  have hdatain := h.channels.datain
  simp [cnaDmaRegisters, cnaCvtCon0, cnaCvtScale, cnaPadCon0, cnaFeatureDataAddr, cnaDmaCon0,
    cnaDmaCon1, cnaDmaCon2, cnaFcDataSize0, cnaFcDataSize1, cnaPadCon1, burstSixteen, hzero]
  omega

theorem core_fit (h : FieldBounds shape kernels t placement featureGrains dataBanks weightBanks) :
    AllFit (coreRegisters shape t) := by
  have hp := dataPrecision_lt shape.precision
  have hq := flag_lt shape.precision.quantization.isSome
  have hd := flag_lt shape.depthwise
  have houtcols := h.outCols
  have houtrows := h.outRows
  have hpadded := h.channels.padded
  simp [coreRegisters, coreMiscCfg, coreDataoutSize0, coreDataoutSize1]
  omega

theorem dpuImage_fit (h : FieldBounds shape kernels t placement featureGrains dataBanks weightBanks) :
    AllFit (dpuImageRegisters shape kernels t placement) := by
  have hp := dpuDataPrecision_lt shape.precision
  have ho := outputDataPrecision_lt shape.precision
  have hm := convMode_lt shape
  have hmc := flag_lt (shape.precision.writesAccumulators && shape.depthwise)
  have hshift : (if shape.precision.quantization.isSome then bsMulShiftValue else 0) < 64 := by
    split_ifs <;> decide
  have houtcols := h.outCols
  have houtrows := h.outRows
  have hpixels := h.surfacePixels
  have hnotch := h.notch
  have horig := h.channels.orig
  have hpadded := h.channels.padded
  simp only [dpuImageRegisters, dpuFeatureModeCfg, dpuDataFormat, dpuDstBaseAddr, dpuDstSurfStride,
    cubeExtents, burstSixteen, externalMemory, allFit_cons, allFit_nil, fits_zero, fits_mk,
    bits_fits_mk, List.map_cons, List.map_nil, List.forall_mem_cons, List.not_mem_nil,
    false_imp_iff, implies_true, and_true, true_and]
  omega

theorem dpuStage_fit (h : FieldBounds shape kernels t placement featureGrains dataBanks weightBanks) :
    AllFit (dpuStageRegisters shape t) := by
  have hacc := flag_lt shape.precision.writesAccumulators
  have hq := flag_lt shape.precision.quantization.isSome
  have hnq := flag_lt (!shape.precision.quantization.isSome)
  have hod := flag_lt (!shape.precision.quantization.isSome || shape.precision.writesAccumulators)
  have hsize := bsOwSizeE_lt shape
  have hshift : (if shape.precision.quantization.isSome then bsMulShiftValue else 0) < 64 := by
    split_ifs <;> decide
  have hbn : (bnProgramming shape.activation).bypass < 2 ∧
      (bnProgramming shape.activation).reluBypass < 2 ∧
      (bnProgramming shape.activation).reluxEn < 2 := by
    cases shape.activation <;> simp [bnProgramming]
  have houtcols := h.outCols
  have houtrows := h.outRows
  have hpadded := h.channels.padded
  simp only [dpuStageRegisters, dpuBsCfg, dpuBsMulCfg, dpuBsOwCfg, dpuBsOwOp, cubeExtents, dpuBnCfg,
    dpuBnReluxCmpValue, dpuEwCfg, dpuEwCvtScaleValue, allFit_cons, allFit_nil, fits_zero, fits_mk,
    bits_fits_mk, List.map_cons, List.map_nil, List.forall_mem_cons, List.not_mem_nil,
    false_imp_iff, implies_true, and_true, true_and]
  omega

theorem dpuConvert_fit
    (h : FieldBounds shape kernels t placement featureGrains dataBanks weightBanks) :
    AllFit (dpuConvertRegisters shape kernels t) := by
  have hzero := allFit_map_zero Reg.dpuEwOpValue (List.finRange 8)
  have hflag := flag_lt (!shape.precision.quantization.isSome && !shape.precision.writesFp32Result)
  have hscale := h.scale
  have hshift := h.shift
  have hadd := h.surfAdd
  simp only [dpuConvertRegisters, dpuOutCvtOffset, dpuOutCvtScale, dpuOutCvtShift, dpuSurfaceAdd,
    allFit_append, hzero, allFit_cons, allFit_nil, fits_zero, fits_mk, bits_fits_mk,
    List.forall_mem_cons, List.not_mem_nil, false_imp_iff, implies_true, and_true]
  omega

theorem dpuRdma_fit (h : FieldBounds shape kernels t placement featureGrains dataBanks weightBanks) :
    AllFit (dpuRdmaRegisters shape t) := by
  have hp := dpuDataPrecision_lt shape.precision
  have hm := convMode_lt shape
  have hb := brdmaDataUse_lt shape
  have houtcols := h.outCols
  have houtrows := h.outRows
  have hpadded := h.channels.padded
  simp only [dpuRdmaRegisters, cubeExtents, dpuRdmaBrdmaCfg, dpuRdmaErdmaCfg, dpuRdmaFeatureModeCfg,
    dpuRdmaWeight, burstSixteen, allFit_cons, allFit_nil, fits_zero, fits_mk, bits_fits_mk,
    List.map_cons, List.map_nil, List.forall_mem_cons, List.not_mem_nil, false_imp_iff,
    implies_true, and_true, true_and]
  omega

theorem pcTrailer_fit : AllFit pcTrailer := by
  simp [pcTrailer]

/-- Under the field bounds every field of the program fits. -/
theorem convRegisters_fit
    (h : FieldBounds shape kernels t placement featureGrains dataBanks weightBanks) :
    AllFit (convRegisters shape kernels t placement featureGrains dataBanks weightBanks) := by
  simp only [convRegisters, allFit_append]
  exact ⟨⟨⟨⟨⟨⟨⟨⟨preamble_fit h, cnaSize_fit h⟩, cnaDma_fit h⟩, core_fit h⟩, dpuImage_fit h⟩,
    dpuStage_fit h⟩, dpuConvert_fit h⟩, dpuRdma_fit h⟩, pcTrailer_fit⟩

theorem convRegisters_length :
    (convRegisters shape kernels t placement featureGrains dataBanks weightBanks).length = 136 := by
  simp [convRegisters, preambleRegisters, cnaSizeRegisters, cnaDmaRegisters, coreRegisters,
    dpuImageRegisters, dpuStageRegisters, dpuConvertRegisters, dpuRdmaRegisters, pcTrailer]

/-- Every field of a program that is emitted bounds the quantity written to it. -/
theorem tileEncodable_of_fit
    (h : AllFit (convRegisters shape kernels t placement featureGrains dataBanks weightBanks)) :
    TileEncodable shape kernels placement t := by
  simp only [convRegisters, allFit_append] at h
  obtain ⟨⟨⟨⟨⟨⟨⟨⟨-, hsize⟩, -⟩, -⟩, himage⟩, -⟩, hconvert⟩, -⟩, -⟩ := h
  simp only [cnaSizeRegisters, cnaConvCon3, cnaDataSize0, cnaDataSize1, cnaDataSize2,
    cnaWeightSize1, cnaWeightSize2, allFit_cons, fits_mk, bits_fits_mk, List.forall_mem_cons] at hsize
  obtain ⟨-, -, ⟨hstride, -⟩, ⟨hincols, -⟩, ⟨-, hdatain, -⟩, ⟨houtcols, -⟩, -, -, ⟨hper, -⟩,
    ⟨-, -, hkernels, -⟩, -⟩ := hsize
  simp only [dpuImageRegisters, dpuDstSurfStride, cubeExtents, allFit_cons, fits_mk, bits_fits_mk,
    List.map_cons, List.forall_mem_cons] at himage
  obtain ⟨-, -, -, -, ⟨hpixels, -⟩, -, -, ⟨hnotch, -⟩, ⟨horig, hpadded, -⟩, -⟩ := himage
  simp only [dpuConvertRegisters, dpuOutCvtScale, dpuOutCvtShift, dpuSurfaceAdd, allFit_append,
    allFit_cons, fits_mk, bits_fits_mk, List.forall_mem_cons] at hconvert
  obtain ⟨⟨⟨-, ⟨-, hscale, -⟩, ⟨hshift, -⟩, -⟩, -⟩, ⟨hadd, -⟩, -⟩ := hconvert
  exact {
    stride := hstride (by decide)
    inCols := hincols (by decide)
    outCols := houtcols (by decide)
    channels := ⟨hdatain (by decide), by have := horig (by decide); omega,
      by have := hpadded (by decide); omega, hkernels (by decide),
      (weightBytesPerKernel_lt_iff shape kernels).mp (hper (by decide))⟩
    surfacePixels := hpixels (by decide)
    notch := hnotch (by decide)
    surfAdd := hadd (by decide)
    scale := hscale (by decide)
    shift := hshift (by decide) }

end Blocks

end IreeRocket.Hal
