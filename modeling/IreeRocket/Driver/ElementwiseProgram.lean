import IreeRocket.Driver.Executables
import IreeRocket.Hal.LutScales
import IreeRocket.Hal.PoolingProgram
import IreeRocket.Hal.Registers

/-!
# The element-wise programs

A unary, a binary and a lookup-table operation are one DPU task each, in flying mode: the DPU_RDMA fetches
the tensor, and the EW stage works on it. The three builders write the extents, the surface stride and the
addresses into the same registers, and differ in what the EW stage and its operand are. The tables' entries
are a parameter.

`Encodable` says which extents the cube registers hold; `elementwiseCube` bounds everything else
(`Placed.area_lt`).
-/

namespace IreeRocket.Driver

open Conv Hal

/-! ### Operations -/

namespace EwUnaryAlgo

/-- The `ew_alu_algo` opcode. -/
def opcode : EwUnaryAlgo → Nat
  | add => 2
  | abs => 5
  | neg => 6
  | floor => 7
  | ceil => 8

/-- `{:?}`. -/
def debug : EwUnaryAlgo → String
  | add => "Add"
  | abs => "Abs"
  | neg => "Neg"
  | floor => "Floor"
  | ceil => "Ceil"

end EwUnaryAlgo

namespace EwBinaryOp

def aluAlgo : EwBinaryOp → Nat
  | max | mul => 0
  | min => 1
  | add => 2
  | sub => 4

def isMul (op : EwBinaryOp) : Bool := op == mul

end EwBinaryOp

/-- `LutFunction::table`, with the entries of its two banks. -/
def LutFunction.table (banks : LutFunction → List Nat × List Nat) (function : LutFunction) : LutTable :=
  let table (ewOpBypass scale shift : Nat) (k : ℚ) : LutTable :=
    ⟨(banks function).1, (banks function).2, ewOpBypass, scale, shift, .rounded k⟩
  match function with
  | sigmoid => table 0 23107 22 (2596513 / 1000)
  | tanh => table 1 0 0 (5425193 / 1000)
  | exp => table 1 0 0 (32767184 / 10000)
  | square => table 1 0 0 16384
  | erf => table 1 0 0 4096
  | sqrt => table 1 0 0 16384
  | rsqrt => table 1 0 0 1024
  | log => table 1 0 0 4096
  | reciprocal => table 1 0 0 1024

/-! ### Registers -/

namespace Ew

/-- `DPU_FEATURE_MODE_CFG` in flying mode. -/
def featureModeCfg (flyingMode outputMode burstLen : Nat) : RegCmd :=
  ⟨.dpuFeatureModeCfg, [⟨1, flyingMode⟩, ⟨2, outputMode⟩, ⟨4, burstLen⟩]⟩

def lutDataFormat (bnMulShiftValueNeg : Nat) : RegCmd := ⟨.dpuDataFormat, [⟨6, bnMulShiftValueNeg⟩]⟩

def bnCfg (bnAluAlgo bnAluSrc bnReluBypass bnMulBypass bnAluBypass bnBypass : Nat) : RegCmd :=
  ⟨.dpuBnCfg, [⟨4, bnAluAlgo⟩, ⟨1, bnAluSrc⟩, ⟨1, bnReluBypass⟩, ⟨1, bnMulBypass⟩, ⟨1, bnAluBypass⟩,
    ⟨1, bnBypass⟩]⟩

def bnAluCfg (bnAluOperand : Nat) : RegCmd := ⟨.dpuBnAluCfg, [⟨32, bnAluOperand⟩]⟩

def bnMulCfg (bnMulOperand bnMulShiftValue bnMulSrc bnTruncateSrc : Nat) : RegCmd :=
  ⟨.dpuBnMulCfg, [⟨16, bnMulOperand⟩, ⟨6, bnMulShiftValue⟩, ⟨1, bnMulSrc⟩, ⟨1, bnTruncateSrc⟩]⟩

def ewCfg (ewCvtType ewDataMode edataSize ewAluAlgo ewReluBypass ewLutBypass ewOpSrc ewOpType
    ewOpCvtBypass : Nat) : RegCmd :=
  ⟨.dpuEwCfg, [⟨1, ewCvtType⟩, ⟨2, ewDataMode⟩, ⟨2, edataSize⟩, ⟨4, ewAluAlgo⟩, ⟨1, ewReluBypass⟩,
    ⟨1, ewLutBypass⟩, ⟨1, ewOpSrc⟩, ⟨1, ewOpType⟩, ⟨1, ewOpCvtBypass⟩]⟩

def ewOpValue (index : Fin 8) (ewOperand : Nat) : RegCmd := ⟨.dpuEwOpValue index, [⟨32, ewOperand⟩]⟩

def lutAccessCfg (lutAccessType lutTableId lutAddr : Nat) : RegCmd :=
  ⟨.dpuLutAccessCfg, [⟨1, lutAccessType⟩, ⟨1, lutTableId⟩, ⟨10, lutAddr⟩]⟩

/-- The raw command of a table entry, written without a typed field. -/
def lutAccessData (entry : Nat) : RegCmd := ⟨.dpuLutAccessData, [⟨32, asU32 (Int.bmod entry (2 ^ 16))⟩]⟩

def lutCfg (lutHybridPriority lutOflowPriority lutLoLeMux : Nat) : RegCmd :=
  ⟨.dpuLutCfg, [⟨1, lutHybridPriority⟩, ⟨1, lutOflowPriority⟩, ⟨2, lutLoLeMux⟩]⟩

def lutInfo (lutLeIndexSelect lutLoIndexSelect : Nat) : RegCmd :=
  ⟨.dpuLutInfo, [⟨8, lutLeIndexSelect⟩, ⟨8, lutLoIndexSelect⟩]⟩

/-- `DPU_LUT_LE_START` to `DPU_LUT_LO_END`. -/
def lutEdge (register : Reg) (edge : Nat) : RegCmd := ⟨register, [⟨32, edge⟩]⟩

def lutLeSlopeScale (lutLeSlopeUflowScale : Nat) : RegCmd :=
  ⟨.dpuLutLeSlopeScale, [⟨16, lutLeSlopeUflowScale⟩]⟩

def lutLeSlopeShift (lutLeSlopeUflowShift : Nat) : RegCmd :=
  ⟨.dpuLutLeSlopeShift, [⟨5, lutLeSlopeUflowShift⟩]⟩

def rdmaSrcBaseAddr (srcBaseAddr : Nat) : RegCmd := ⟨.dpuRdmaSrcBaseAddr, [⟨32, srcBaseAddr⟩]⟩

/-- `DPU_RDMA_RDMA_ERDMA_CFG` of a second tensor. -/
def rdmaErdmaCfg (erdmaDataMode erdmaDataSize : Nat) : RegCmd :=
  ⟨.dpuRdmaErdmaCfg, [⟨2, erdmaDataMode⟩, ⟨2, erdmaDataSize⟩]⟩

def rdmaEwBaseAddr (ewBaseAddr : Nat) : RegCmd := ⟨.dpuRdmaEwBaseAddr, [⟨32, ewBaseAddr⟩]⟩

def rdmaEwSurfStride (ewSurfStride : Nat) : RegCmd := ⟨.dpuRdmaEwSurfStride, [⟨28, ewSurfStride⟩]⟩

def rdmaFeatureModeCfg (flyingMode burstLen inPrecision procPrecision mrdmaFp16tofp32En : Nat) : RegCmd :=
  ⟨.dpuRdmaFeatureModeCfg, [⟨1, flyingMode⟩, ⟨4, burstLen⟩, ⟨3, inPrecision⟩, ⟨3, procPrecision⟩,
    ⟨1, mrdmaFp16tofp32En⟩]⟩

end Ew

/-! ### The task -/

section Task

variable (geometry : ElementwiseGeometry)

/-- The channels both cubes are programmed with, whatever the precision. -/
def taskChannels : Nat := nextMultipleOf (max geometry.channels 16) 16

/-- A surface, in 16-byte atoms. -/
def outputArea : Nat := geometry.width * geometry.height

/-- The output side of the task, with the BS stage bypassed. -/
def outputRegisters (dataFormat : RegCmd) (outputAddr : Nat) : List RegCmd :=
  [sPointer .dpuSPointer 1 1 1, sPointer .dpuRdmaSPointer 1 1 1, Ew.featureModeCfg 1 2 15, dataFormat,
    zero .dpuOffsetPend, dpuDstBaseAddr outputAddr, dpuDstSurfStride (outputArea geometry),
    cubeExtents .dpuDataCubeWidth [geometry.width - 1],
    cubeExtents .dpuDataCubeHeight [geometry.height - 1], zero .dpuDataCubeNotchAddr,
    cubeExtents .dpuDataCubeChannel [geometry.channels - 1, taskChannels geometry - 1],
    dpuBsCfg 1 0 0 1 1 1, zero .dpuBsAluCfg, zero .dpuBsMulCfg, zero .dpuBsReluxCmpValue,
    dpuBsOwCfg 0 0 0 1 0, zero .dpuBsOwOp,
    cubeExtents .dpuWdmaSize0 [taskChannels geometry - 1],
    cubeExtents .dpuWdmaSize1 [geometry.height - 1, geometry.width - 1]]

/-- The BN stage, bypassed. -/
def bnBypass : List RegCmd :=
  [dpuBnCfg 1 0 1 1 1, zero .dpuBnAluCfg, zero .dpuBnMulCfg, zero .dpuBnReluxCmpValue]

/-- The EW stage; its operand converter is the identity. -/
def ewRegisters (ewCfg : RegCmd) : List RegCmd :=
  [ewCfg, zero .dpuEwCvtOffsetValue, dpuEwCvtScaleValue 1, zero .dpuEwReluxCmpValue]

/-- The output conversion of fp16: fp32 to fp16 at a scale of one. -/
def fp16OutCvt : List RegCmd := [zero .dpuOutCvtOffset, dpuOutCvtScale 1 1, zero .dpuOutCvtShift]

/-- `EW_OP_VALUE_0` to `EW_OP_VALUE_7`, one scalar in every slot. -/
def opValues (operand : Nat) : List RegCmd := (List.finRange 8).map fun index => Ew.ewOpValue index operand

def surfaceRegisters : List RegCmd := [dpuSurfaceAdd (outputArea geometry), zero .dpuReserved40c4]

/-- The LUT block of an operation without a table. -/
def lutUnused : List RegCmd :=
  [.dpuLutAccessCfg, .dpuLutAccessData, .dpuLutCfg, .dpuLutInfo, .dpuLutLeStart, .dpuLutLeEnd,
    .dpuLutLoStart, .dpuLutLoEnd, .dpuLutLeSlopeScale, .dpuLutLeSlopeShift, .dpuLutLoSlopeScale,
    .dpuLutLoSlopeShift].map zero

/-- The input side, with the feeder of a second tensor if there is one. -/
def inputRegisters (inputAddr : Nat) (erdma : List RegCmd) (featureMode : RegCmd) : List RegCmd :=
  [cubeExtents .dpuRdmaDataCubeWidth [geometry.width - 1],
    cubeExtents .dpuRdmaDataCubeHeight [geometry.height - 1],
    cubeExtents .dpuRdmaDataCubeChannel [taskChannels geometry - 1], Ew.rdmaSrcBaseAddr inputAddr,
    zero .dpuRdmaBrdmaCfg, zero .dpuRdmaBsBaseAddr, zero .dpuRdmaNrdmaCfg, zero .dpuRdmaBnBaseAddr] ++
  erdma ++
  [featureMode, zero .dpuRdmaSrcDmaCfg, zero .dpuRdmaSurfNotch, zero .dpuRdmaPadCfg,
    dpuRdmaWeight 1 1 1 1, zero .dpuRdmaEwSurfNotch]

/-- The feeder of a second tensor, disabled. -/
def erdmaDisabled : List RegCmd :=
  [dpuRdmaErdmaCfg 1, zero .dpuRdmaEwBaseAddr, zero .dpuRdmaEwSurfStride]

/-- `KICK_DPU | KICK_DPU_RDMA`. -/
def kickDpu : Nat := 0x18

/-- `push_kick`: the trailer, padded to two commands. -/
def pushKick (commands : List RegCmd) : List RegCmd :=
  let kicked := commands ++ [zero .pcSingleTaskPlaceholder, zero .pcRegisterAmounts,
    zero .pcRequiredMarker, ⟨.pcOperationEnable, [⟨32, kickDpu⟩]⟩]
  if kicked.length % 2 = 0 then kicked else kicked ++ [zero .pcAlignmentPadding]

/-- A task's registers in their order, from what the builders do not share. -/
def taskRegisters (dataFormat : RegCmd) (outputAddr : Nat) (bn : List RegCmd) (ewCfg : RegCmd)
    (outCvt : List RegCmd) (operand : Nat) (lut : List RegCmd) (inputAddr : Nat) (erdma : List RegCmd)
    (featureMode : RegCmd) : List RegCmd :=
  pushKick (outputRegisters geometry dataFormat outputAddr ++ bn ++ ewRegisters ewCfg ++ outCvt ++
    opValues operand ++ surfaceRegisters geometry ++ lut ++
    inputRegisters geometry inputAddr erdma featureMode)

/-- Every field is written through `Bits::new`. -/
def written (commands : List RegCmd) : Planner (List RegCmd) := do
  assertThat (AllFit commands) "Value exceeds designated bit width!"
  return commands

end Task

/-! ### The builders -/

structure EwUnaryBuffers where
  inputAddr : Nat
  outputAddr : Nat

structure EwAddBuffers where
  intermediateAddr : Nat
  wAddr : Nat
  outputAddr : Nat

structure LutBuffers where
  inputAddr : Nat
  outputAddr : Nat

/-- No extent is zero. -/
def ElementwiseGeometry.Nonzero (geometry : ElementwiseGeometry) : Prop :=
  0 < geometry.width ∧ 0 < geometry.height ∧ 0 < geometry.channels

instance (geometry : ElementwiseGeometry) : Decidable geometry.Nonzero :=
  inferInstanceAs (Decidable (_ ∧ _))

def buildUnaryRegcmd (shape : EwUnaryShape) (bufs : EwUnaryBuffers) : Planner (List RegCmd) := do
  assertThat shape.geometry.Nonzero "build_unary_regcmd: width, height, and channels must be nonzero"
  let algo := shape.algo.debug
  let operand := Pooling.hex shape.operand
  assertThat (shape.operand = 0 ∨ shape.algo = .add)
    s!"build_unary_regcmd: operand is only meaningful for EwUnaryAlgo::Add, got algo={algo} operand={operand}"
  written <| taskRegisters shape.geometry (dpuDataFormat 2 2 2 0 0) bufs.outputAddr bnBypass
    (Ew.ewCfg 0 1 2 shape.algo.opcode 1 1 0 0 0) fp16OutCvt shape.operand lutUnused bufs.inputAddr
    erdmaDisabled (Ew.rdmaFeatureModeCfg 1 15 2 2 1)

/-- `build_add_regcmd_with_relu` at fp16. A multiply bypasses the operand converter. -/
def buildAddRegcmdWithRelu (shape : EwAddShape) (bufs : EwAddBuffers) (relu : Bool) :
    Planner (List RegCmd) := do
  assertThat shape.geometry.Nonzero "build_add_regcmd: width, height, and channels must be nonzero"
  let mul := flag shape.op.isMul
  written <| taskRegisters shape.geometry (dpuDataFormat 2 2 2 0 0) bufs.outputAddr bnBypass
    (Ew.ewCfg 0 1 2 shape.op.aluAlgo (flag !relu) 1 1 mul mul) fp16OutCvt 0 lutUnused
    bufs.intermediateAddr
    [Ew.rdmaErdmaCfg 1 2, Ew.rdmaEwBaseAddr bufs.wAddr,
      Ew.rdmaEwSurfStride (max (outputArea shape.geometry) 12)]
    (Ew.rdmaFeatureModeCfg 1 15 2 2 1)

def buildAddRegcmd (shape : EwAddShape) (bufs : EwAddBuffers) : Planner (List RegCmd) :=
  buildAddRegcmdWithRelu shape bufs false

/-- `push_lut_table`: one bank through the address port, which advances by itself. -/
def lutBank (tableId : Nat) (entries : List Nat) : List RegCmd :=
  Ew.lutAccessCfg 1 tableId 0 :: entries.map Ew.lutAccessData

/-- `push_lut_tables_and_config`. -/
def lutTablesAndConfig (table : LutTable) : List RegCmd :=
  lutBank 0 table.leEntries ++ lutBank 1 table.loEntries ++
  [Ew.lutCfg 1 1 2, Ew.lutInfo 5 5, Ew.lutEdge .dpuLutLeStart (asU32 (-16384)),
    Ew.lutEdge .dpuLutLeEnd 0, Ew.lutEdge .dpuLutLoStart 0, Ew.lutEdge .dpuLutLoEnd 16384,
    Ew.lutLeSlopeScale table.leSlopeUflowScale, Ew.lutLeSlopeShift table.leSlopeUflowShift,
    zero .dpuLutLoSlopeScale, zero .dpuLutLoSlopeShift]

/-- The zero point a biased byte stands for. -/
def realZeroPoint (inputZeroPoint : Nat) : Int := Int.bmod (inputZeroPoint - 0x80) (2 ^ 8)

def buildLutRegcmd (ops : FloatOps) (shape : LutShape) (bufs : LutBuffers) (table : LutTable) :
    Planner (List RegCmd) := do
  assertThat shape.geometry.Nonzero "build_lut_regcmd: width, height, and channels must be nonzero"
  let (bnMulOperand, bnMulShift) := lutBnMul ops (.ofBits shape.inputScale) table.bnScaleK
  let zeroPoint := realZeroPoint shape.inputZeroPoint
  let raw := shape.inputZeroPoint
  assertThat (lutBnAluSupportsZeroPoint zeroPoint)
    s!"build_lut_regcmd: only input_zero_point values whose decoded signed zero point is one of -128, -2, 0, or 127 are supported for now; got raw input_zero_point={raw} (decoded {zeroPoint})"
  let (outCvtScale, outCvtShift) := lutOutCvt ops (.ofBits shape.outputScale)
  written <| taskRegisters shape.geometry (Ew.lutDataFormat bnMulShift) bufs.outputAddr
    [Ew.bnCfg 2 0 1 0 0 0, Ew.bnAluCfg (lutBnAlu zeroPoint bnMulOperand),
      Ew.bnMulCfg bnMulOperand bnMulShift 0 0, zero .dpuBnReluxCmpValue]
    (dpuEwCfg 1 1 0 table.ewOpBypass 0)
    [dpuOutCvtOffset (asU32 (shape.outputZeroPoint - 0x80)), dpuOutCvtScale 0 outCvtScale,
      dpuOutCvtShift outCvtShift]
    0 (lutTablesAndConfig table) bufs.inputAddr erdmaDisabled (Ew.rdmaFeatureModeCfg 1 15 0 0 0)

end IreeRocket.Driver
