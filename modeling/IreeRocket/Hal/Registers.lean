import IreeRocket.Core.Error

/-!
# Register commands

A register command names a register and carries its fields, each a value with the bit width of the
typed builder it is written through. `Bits::<N>::new` asserts that a value fits a width below 32;
`Cmd.Fits` is that assertion for all fields of a command.

The builders below are the registers a convolution program writes with fields of its own; all the
others are written as zero.
-/

namespace IreeRocket.Hal

/-- A value under the width of the field it is written to. -/
structure Bits where
  width : Nat
  value : Nat
  deriving DecidableEq, Repr

/-- The assertion of `Bits::<N>::new`. -/
def Bits.Fits (b : Bits) : Prop := b.width < 32 → b.value < 2 ^ b.width

instance (b : Bits) : Decidable b.Fits := inferInstanceAs (Decidable (_ → _))

/-- The registers of a convolution program. -/
inductive Reg
  | cnaCbufCon0 | cnaCbufCon1 | cnaConvCon1 | cnaConvCon2 | cnaConvCon3
  | cnaCvtCon0 | cnaCvtCon1 | cnaCvtCon2 | cnaCvtCon3 | cnaCvtCon4 | cnaCvtCon5
  | cnaDataSize0 | cnaDataSize1 | cnaDataSize2 | cnaDataSize3
  | cnaDcompAddr0 | cnaDcompAmount (index : Fin 16) | cnaDcompCtrl | cnaDcompRegnum
  | cnaDmaCon0 | cnaDmaCon1 | cnaDmaCon2
  | cnaFcCon0 | cnaFcCon1 | cnaFcCon2 | cnaFcDataSize0 | cnaFcDataSize1 | cnaFeatureDataAddr
  | cnaPadCon0 | cnaPadCon1 | cnaWeightSize0 | cnaWeightSize1 | cnaWeightSize2
  | coreClipTruncate | coreDataoutSize0 | coreDataoutSize1 | coreMiscCfg | coreReserved3030
  | dpuBnAluCfg | dpuBnCfg | dpuBnMulCfg | dpuBnReluxCmpValue
  | dpuBsAluCfg | dpuBsCfg | dpuBsMulCfg | dpuBsOwCfg | dpuBsOwOp | dpuBsReluxCmpValue
  | dpuDataCubeChannel | dpuDataCubeHeight | dpuDataCubeNotchAddr | dpuDataCubeWidth
  | dpuDataFormat | dpuDstBaseAddr | dpuDstSurfStride
  | dpuEwCfg | dpuEwCvtOffsetValue | dpuEwCvtScaleValue | dpuEwOpValue (index : Fin 8)
  | dpuEwReluxCmpValue | dpuFeatureModeCfg
  | dpuLutAccessCfg | dpuLutAccessData | dpuLutCfg | dpuLutInfo | dpuLutLeEnd
  | dpuLutLeSlopeScale | dpuLutLeSlopeShift | dpuLutLeStart | dpuLutLoEnd
  | dpuLutLoSlopeScale | dpuLutLoSlopeShift | dpuLutLoStart
  | dpuOffsetPend | dpuOutCvtOffset | dpuOutCvtScale | dpuOutCvtShift
  | dpuRdmaBnBaseAddr | dpuRdmaBrdmaCfg | dpuRdmaBsBaseAddr
  | dpuRdmaDataCubeChannel | dpuRdmaDataCubeHeight | dpuRdmaDataCubeWidth
  | dpuRdmaErdmaCfg | dpuRdmaEwBaseAddr | dpuRdmaEwSurfNotch | dpuRdmaEwSurfStride
  | dpuRdmaFeatureModeCfg | dpuRdmaNrdmaCfg | dpuRdmaPadCfg | dpuRdmaSPointer
  | dpuRdmaSrcBaseAddr | dpuRdmaSrcDmaCfg | dpuRdmaSurfNotch | dpuRdmaWeight
  | dpuReserved40c4 | dpuSPointer | dpuSurfaceAdd | dpuWdmaSize0 | dpuWdmaSize1
  | pcAlignmentPadding | pcOperationEnable | pcRegisterAmounts | pcRequiredMarker
  | pcSingleTaskPlaceholder
  deriving DecidableEq, Repr

/-- A command for one of the registers `R`. -/
structure Cmd (R : Type) where
  register : R
  fields : List Bits
  deriving DecidableEq, Repr

abbrev RegCmd := Cmd Reg

section Commands

variable {R : Type}

/-- Every field of the command fits its width. -/
def Cmd.Fits (c : Cmd R) : Prop := ∀ b ∈ c.fields, b.Fits

instance (c : Cmd R) : Decidable c.Fits := inferInstanceAs (Decidable (∀ b ∈ c.fields, b.Fits))

/-- Every command of a program fits. -/
def AllFit (commands : List (Cmd R)) : Prop := ∀ c ∈ commands, c.Fits

instance (commands : List (Cmd R)) : Decidable (AllFit commands) :=
  inferInstanceAs (Decidable (∀ c ∈ commands, c.Fits))

@[simp] theorem allFit_nil : AllFit ([] : List (Cmd R)) := by
  simp [AllFit]

@[simp] theorem allFit_cons (c : Cmd R) (l : List (Cmd R)) :
    AllFit (c :: l) ↔ c.Fits ∧ AllFit l := by
  simp [AllFit]

@[simp] theorem allFit_append (l m : List (Cmd R)) : AllFit (l ++ m) ↔ AllFit l ∧ AllFit m := by
  simp [AllFit, or_imp, forall_and]

@[simp] theorem fits_mk (register : R) (fields : List Bits) :
    Cmd.Fits ⟨register, fields⟩ ↔ ∀ b ∈ fields, b.Fits := Iff.rfl

@[simp] theorem bits_fits_mk (width value : Nat) :
    Bits.Fits ⟨width, value⟩ ↔ (width < 32 → value < 2 ^ width) := Iff.rfl

/-- `Register::<R>::new().build()`. -/
def zero (register : R) : Cmd R := ⟨register, []⟩

@[simp] theorem fits_zero (register : R) : (zero register).Fits := by
  simp [zero]

theorem allFit_map_zero {ι : Type*} (f : ι → R) (l : List ι) :
    AllFit (l.map fun i => zero (f i)) := by
  intro c hc
  obtain ⟨i, -, rfl⟩ := List.mem_map.mp hc
  exact fits_zero _

end Commands

/-- A boolean field. -/
def flag (b : Bool) : Nat := if b then 1 else 0

theorem flag_lt (b : Bool) : flag b < 2 := by
  cases b <;> decide

/-! ### The CNA and CORE builders -/

def cnaCbufCon0 (weightBank dataBank : Nat) : RegCmd :=
  ⟨.cnaCbufCon0, [⟨4, weightBank⟩, ⟨4, dataBank⟩]⟩

def cnaConvCon1 (nonalignDma groupLineOff argbIn procPrecision inPrecision convMode : Nat) : RegCmd :=
  ⟨.cnaConvCon1, [⟨1, nonalignDma⟩, ⟨1, groupLineOff⟩, ⟨4, argbIn⟩, ⟨3, procPrecision⟩,
    ⟨3, inPrecision⟩, ⟨4, convMode⟩]⟩

def cnaConvCon2 (featureGrains : Nat) : RegCmd := ⟨.cnaConvCon2, [⟨10, featureGrains⟩]⟩

def cnaConvCon3 (convXStride convYStride : Nat) : RegCmd :=
  ⟨.cnaConvCon3, [⟨3, convXStride⟩, ⟨3, convYStride⟩]⟩

def cnaDataSize0 (datainWidth datainHeight : Nat) : RegCmd :=
  ⟨.cnaDataSize0, [⟨11, datainWidth⟩, ⟨11, datainHeight⟩]⟩

def cnaDataSize1 (datainChannelReal datainChannel : Nat) : RegCmd :=
  ⟨.cnaDataSize1, [⟨14, datainChannelReal⟩, ⟨16, datainChannel⟩]⟩

def cnaDataSize2 (dataoutWidth : Nat) : RegCmd := ⟨.cnaDataSize2, [⟨11, dataoutWidth⟩]⟩

def cnaDataSize3 (dataoutAtomics : Nat) : RegCmd := ⟨.cnaDataSize3, [⟨22, dataoutAtomics⟩]⟩

def cnaWeightSize0 (weightBytes : Nat) : RegCmd := ⟨.cnaWeightSize0, [⟨32, weightBytes⟩]⟩

def cnaWeightSize1 (weightBytesPerKernel : Nat) : RegCmd :=
  ⟨.cnaWeightSize1, [⟨19, weightBytesPerKernel⟩]⟩

def cnaWeightSize2 (weightWidth weightHeight weightKernels : Nat) : RegCmd :=
  ⟨.cnaWeightSize2, [⟨5, weightWidth⟩, ⟨5, weightHeight⟩, ⟨14, weightKernels⟩]⟩

def cnaCbufCon1 (dataEntries : Nat) : RegCmd := ⟨.cnaCbufCon1, [⟨15, dataEntries⟩]⟩

def cnaCvtCon0 (dataSign cvtType cvtBypass : Nat) : RegCmd :=
  ⟨.cnaCvtCon0, [⟨1, dataSign⟩, ⟨1, cvtType⟩, ⟨1, cvtBypass⟩]⟩

/-- `CNA_CVT_CON1` to `CNA_CVT_CON4`: one 16-bit scale each. -/
def cnaCvtScale (register : Reg) (scale : Nat) : RegCmd := ⟨register, [⟨16, scale⟩]⟩

def cnaPadCon0 (padTop padLeft : Nat) : RegCmd := ⟨.cnaPadCon0, [⟨4, padTop⟩, ⟨4, padLeft⟩]⟩

def cnaFeatureDataAddr (featureBaseAddr : Nat) : RegCmd :=
  ⟨.cnaFeatureDataAddr, [⟨32, featureBaseAddr⟩]⟩

def cnaDmaCon0 (dataBurstLen weightBurstLen : Nat) : RegCmd :=
  ⟨.cnaDmaCon0, [⟨4, dataBurstLen⟩, ⟨4, weightBurstLen⟩]⟩

def cnaDmaCon1 (lineStride : Nat) : RegCmd := ⟨.cnaDmaCon1, [⟨28, lineStride⟩]⟩

def cnaDmaCon2 (surfStride : Nat) : RegCmd := ⟨.cnaDmaCon2, [⟨28, surfStride⟩]⟩

def cnaFcDataSize0 (dmaWidth dmaHeight : Nat) : RegCmd :=
  ⟨.cnaFcDataSize0, [⟨14, dmaWidth⟩, ⟨11, dmaHeight⟩]⟩

def cnaFcDataSize1 (dmaChannel : Nat) : RegCmd := ⟨.cnaFcDataSize1, [⟨16, dmaChannel⟩]⟩

def cnaPadCon1 (padValue : Nat) : RegCmd := ⟨.cnaPadCon1, [⟨32, padValue⟩]⟩

def coreMiscCfg (procPrecision qdEn dwEn : Nat) : RegCmd :=
  ⟨.coreMiscCfg, [⟨3, procPrecision⟩, ⟨1, qdEn⟩, ⟨1, dwEn⟩]⟩

def coreDataoutSize0 (dataoutWidth dataoutHeight : Nat) : RegCmd :=
  ⟨.coreDataoutSize0, [⟨16, dataoutWidth⟩, ⟨16, dataoutHeight⟩]⟩

def coreDataoutSize1 (dataoutChannel : Nat) : RegCmd := ⟨.coreDataoutSize1, [⟨16, dataoutChannel⟩]⟩

/-! ### The DPU builders -/

/-- `DPU_S_POINTER` and `DPU_RDMA_S_POINTER`. -/
def sPointer (register : Reg) (pointerPpMode executerPpEn pointerPpEn : Nat) : RegCmd :=
  ⟨register, [⟨1, pointerPpMode⟩, ⟨1, executerPpEn⟩, ⟨1, pointerPpEn⟩]⟩

def dpuFeatureModeCfg (burstLen outputMode convMode : Nat) : RegCmd :=
  ⟨.dpuFeatureModeCfg, [⟨4, burstLen⟩, ⟨2, outputMode⟩, ⟨2, convMode⟩]⟩

def dpuDataFormat (inPrecision outPrecision procPrecision mcSurfOut bsMulShiftValueNeg : Nat) :
    RegCmd :=
  ⟨.dpuDataFormat, [⟨3, inPrecision⟩, ⟨3, outPrecision⟩, ⟨3, procPrecision⟩, ⟨1, mcSurfOut⟩,
    ⟨6, bsMulShiftValueNeg⟩]⟩

def dpuDstBaseAddr (dstBaseAddr : Nat) : RegCmd := ⟨.dpuDstBaseAddr, [⟨32, dstBaseAddr⟩]⟩

def dpuDstSurfStride (dstSurfStride : Nat) : RegCmd := ⟨.dpuDstSurfStride, [⟨28, dstSurfStride⟩]⟩

/-- The 13-bit extents of `DPU_DATA_CUBE_*`, `DPU_RDMA_DATA_CUBE_*` and `DPU_WDMA_SIZE_*`. -/
def cubeExtents (register : Reg) (extents : List Nat) : RegCmd :=
  ⟨register, extents.map fun value => ⟨13, value⟩⟩

def dpuBsCfg (bsBypass bsAluAlgo bsAluSrc bsReluBypass bsAluBypass bsMulBypass : Nat) : RegCmd :=
  ⟨.dpuBsCfg, [⟨1, bsBypass⟩, ⟨4, bsAluAlgo⟩, ⟨1, bsAluSrc⟩, ⟨1, bsReluBypass⟩, ⟨1, bsAluBypass⟩,
    ⟨1, bsMulBypass⟩]⟩

def dpuBsMulCfg (bsMulShiftValue bsMulSrc : Nat) : RegCmd :=
  ⟨.dpuBsMulCfg, [⟨6, bsMulShiftValue⟩, ⟨1, bsMulSrc⟩]⟩

def dpuBsOwCfg (sizeE0 sizeE1 sizeE2 odBypass owSrc : Nat) : RegCmd :=
  ⟨.dpuBsOwCfg, [⟨3, sizeE0⟩, ⟨3, sizeE1⟩, ⟨3, sizeE2⟩, ⟨1, odBypass⟩, ⟨1, owSrc⟩]⟩

def dpuBsOwOp (owOp : Nat) : RegCmd := ⟨.dpuBsOwOp, [⟨16, owOp⟩]⟩

def dpuBnCfg (bnReluBypass bnReluxEn bnMulBypass bnAluBypass bnBypass : Nat) : RegCmd :=
  ⟨.dpuBnCfg, [⟨1, bnReluBypass⟩, ⟨1, bnReluxEn⟩, ⟨1, bnMulBypass⟩, ⟨1, bnAluBypass⟩,
    ⟨1, bnBypass⟩]⟩

def dpuBnReluxCmpValue (bnReluxCmpDat : Nat) : RegCmd := ⟨.dpuBnReluxCmpValue, [⟨32, bnReluxCmpDat⟩]⟩

def dpuEwCfg (ewReluBypass ewOpCvtBypass ewLutBypass ewOpBypass ewBypass : Nat) : RegCmd :=
  ⟨.dpuEwCfg, [⟨1, ewReluBypass⟩, ⟨1, ewOpCvtBypass⟩, ⟨1, ewLutBypass⟩, ⟨1, ewOpBypass⟩,
    ⟨1, ewBypass⟩]⟩

def dpuEwCvtScaleValue (ewOpCvtScale : Nat) : RegCmd := ⟨.dpuEwCvtScaleValue, [⟨16, ewOpCvtScale⟩]⟩

def dpuOutCvtOffset (outCvtOffset : Nat) : RegCmd := ⟨.dpuOutCvtOffset, [⟨32, outCvtOffset⟩]⟩

def dpuOutCvtScale (fp32tofp16En outCvtScale : Nat) : RegCmd :=
  ⟨.dpuOutCvtScale, [⟨1, fp32tofp16En⟩, ⟨16, outCvtScale⟩]⟩

def dpuOutCvtShift (outCvtShift : Nat) : RegCmd := ⟨.dpuOutCvtShift, [⟨12, outCvtShift⟩]⟩

def dpuSurfaceAdd (surfAdd : Nat) : RegCmd := ⟨.dpuSurfaceAdd, [⟨28, surfAdd⟩]⟩

/-! ### The DPU_RDMA builders -/

def dpuRdmaBrdmaCfg (brdmaDataUse : Nat) : RegCmd := ⟨.dpuRdmaBrdmaCfg, [⟨4, brdmaDataUse⟩]⟩

def dpuRdmaErdmaCfg (erdmaDisable : Nat) : RegCmd := ⟨.dpuRdmaErdmaCfg, [⟨1, erdmaDisable⟩]⟩

def dpuRdmaFeatureModeCfg (burstLen mrdmaDisable inPrecision procPrecision convMode : Nat) : RegCmd :=
  ⟨.dpuRdmaFeatureModeCfg, [⟨4, burstLen⟩, ⟨1, mrdmaDisable⟩, ⟨3, inPrecision⟩, ⟨3, procPrecision⟩,
    ⟨2, convMode⟩]⟩

def dpuRdmaWeight (eWeight nWeight bWeight mWeight : Nat) : RegCmd :=
  ⟨.dpuRdmaWeight, [⟨8, eWeight⟩, ⟨8, nWeight⟩, ⟨8, bWeight⟩, ⟨8, mWeight⟩]⟩

end IreeRocket.Hal
