import IreeRocket.Driver.Executables
import IreeRocket.Driver.Schema

/-!
# Decoding an executable

`decodeFlatbufferShape` turns the table of an executable's single export into the executable of its
kernel, and validates it as a template. Each schema enumeration is mapped by name; a value this runtime
does not know refuses the executable, since it has consumed a push constant on the producer's side.
-/

namespace IreeRocket.Driver

open Conv ExecutableFormat
open Schema hiding Activation Precision PoolingMethod EwBinaryOp

/-! ### Enumerations -/

def decodeActivation (activation : Schema.Activation) (activationCmp : Nat) : Except Unit Activation :=
  match activation with
  | .none => .ok .none
  | .relu => .ok .relu
  | .relux => .ok (.clamped activationCmp)
  | .other _ => .error ()

/-- The EW core has no RELUX ceiling on the wire yet. -/
def decodeEpilogueActivation : Schema.Activation → Except Unit Activation
  | .none => .ok .none
  | .relu => .ok .relu
  | .relux | .other _ => .error ()

def decodeConv2DDimension : Conv2DDimension → Except Unit RuntimeConv2dDimension
  | .inputWidth => .ok .inputWidth
  | .inputHeight => .ok .inputHeight
  | .inputChannels => .ok .inputChannels
  | .outputChannels => .ok .outputChannels
  | .weightsWidth => .ok .weightsWidth
  | .weightsHeight => .ok .weightsHeight
  | .other _ => .error ()

def decodeConv2DQuantParam : Conv2DQuantParam → Except Unit RuntimeConv2dQuantParam
  | .outputScale => .ok .outputScale
  | .inputZeroPoint => .ok .inputZeroPoint
  | .outputZeroPoint => .ok .outputZeroPoint
  | .other _ => .error ()

def decodeMatmulDimension : MatmulDimension → Except Unit RuntimeMatmulDimension
  | .m => .ok .m
  | .k => .ok .k
  | .n => .ok .n
  | .other _ => .error ()

def decodePoolingMethod : Schema.PoolingMethod → Except Unit Pooling.PoolingMethod
  | .avg => .ok .avg
  | .max => .ok .max
  | .min => .ok .min
  | .other _ => .error ()

/-- A pool has no requantization for the accumulator precision to mean anything. -/
def decodePoolingPrecision : Schema.Precision → Except Unit Pooling.PoolingPrecision
  | .int8 => .ok .int8
  | .fp16 => .ok .fp16
  | .int8Accumulator | .other _ => .error ()

def decodePoolingDimension : PoolingDimension → Except Unit RuntimePoolingDimension
  | .inputWidth => .ok .inputWidth
  | .inputHeight => .ok .inputHeight
  | .channels => .ok .channels
  | .kernelWidth => .ok .kernelWidth
  | .kernelHeight => .ok .kernelHeight
  | .strideX => .ok .strideX
  | .strideY => .ok .strideY
  | .other _ => .error ()

def decodeEwUnaryOp : EwUnaryOp → Except Unit EwUnaryAlgo
  | .abs => .ok .abs
  | .neg => .ok .neg
  | .floor => .ok .floor
  | .ceil => .ok .ceil
  | .addScalar => .ok .add
  | .other _ => .error ()

def decodeEwBinaryOp : Schema.EwBinaryOp → Except Unit EwBinaryOp
  | .add => .ok .add
  | .sub => .ok .sub
  | .mul => .ok .mul
  | .max => .ok .max
  | .min => .ok .min
  | .other _ => .error ()

def decodeLutFn : LutFn → Except Unit LutFunction
  | .sigmoid => .ok .sigmoid
  | .tanh => .ok .tanh
  | .exp => .ok .exp
  | .square => .ok .square
  | .erf => .ok .erf
  | .sqrt => .ok .sqrt
  | .rsqrt => .ok .rsqrt
  | .log => .ok .log
  | .reciprocal => .ok .reciprocal
  | .other _ => .error ()

def decodeElementwiseDimension : ElementwiseDimension → Except Unit RuntimeElementwiseDimension
  | .width => .ok .width
  | .height => .ok .height
  | .channels => .ok .channels
  | .other _ => .error ()

/-! ### Precision -/

/-- The zero points and the scales of a table, as they stand on the wire. -/
structure QuantizationFields where
  inputZeroPoint : Nat
  outputZeroPoint : Nat
  weightsZeroPoint : Nat
  inputScale : Nat
  weightsScale : Nat
  outputScale : Nat
  deriving DecidableEq, Repr

/-- `decode_precision`. A scale the dispatch supplies is replaced by one, for a placeholder multiplier. -/
def decodeQuantization (fields : QuantizationFields) (runtimeOutputScale : Bool) :
    Except Unit Quantization := do
  let outputScale := if runtimeOutputScale then F32.one else fields.outputScale
  unlessErr (F32.IsFinite fields.inputScale ∧ F32.IsFinite fields.weightsScale ∧
    F32.IsFinite outputScale ∧ F32.IsPositive fields.inputScale ∧
    F32.IsPositive fields.weightsScale ∧ F32.IsPositive outputScale) ()
  let multiplier ← (Multiplier.tryFromRatio
    (requantizationRatio fields.inputScale fields.weightsScale outputScale)).mapError fun _ => ()
  return {
    inputZeroPoint := asI32 fields.inputZeroPoint
    outputZeroPoint := asI32 fields.outputZeroPoint
    weightZeroPoint := asI32 fields.weightsZeroPoint
    multiplier }

def decodePrecision (precision : Schema.Precision) (fields : QuantizationFields)
    (runtimeOutputScale : Bool) : Except Unit (Precision × Option Scales) :=
  match precision with
  | .int8 => do
    let quantization ← decodeQuantization fields runtimeOutputScale
    return (.int8 quantization, some ⟨fields.inputScale, fields.weightsScale⟩)
  | .int8Accumulator => do
    let quantization ← decodeQuantization fields runtimeOutputScale
    unlessErr (fields.inputZeroPoint = 0 ∧ fields.outputZeroPoint = 0 ∧ fields.weightsZeroPoint = 0) ()
    return (.int8Accumulator quantization, some ⟨fields.inputScale, fields.weightsScale⟩)
  | .fp16 => .ok (.fp16, none)
  | .other _ => .error ()

/-! ### Kernels -/

/-- An executable before its runtime dimensions resolve. The scales of a matmul are kept beside it. -/
inductive UkernelShape
  | conv2d (executable : Conv2dExecutable)
  | matmul (executable : MatmulExecutable) (scales : Option Scales)
  | pooling (executable : PoolingExecutable)
  | elementwiseUnary (executable : ElementwiseUnaryExecutable)
  | elementwiseBinary (executable : ElementwiseBinaryExecutable)
  | elementwiseLut (executable : ElementwiseLutExecutable)
  deriving DecidableEq, Repr

/-- The executable a convolution's table describes. -/
def decodeConv2d (table : Conv2DDef) : Except Unit Conv2dExecutable := do
  let runtimeQuantization ← table.runtimeQuantization.mapM decodeConv2DQuantParam
  let (precision, scales) ← decodePrecision table.precision
    ⟨table.inputZeroPoint, table.outputZeroPoint, table.weightsZeroPoint, table.inputScale,
      table.weightsScale, table.outputScale⟩ (runtimeQuantization.contains .outputScale)
  let activation ← decodeActivation table.activation table.activationCmp
  let runtimeDimensions ← table.runtimeDimensions.mapM decodeConv2DDimension
  let epilogueActivation ← decodeEpilogueActivation table.epilogueActivation
  return {
    shapeTemplate := {
      width := table.inputWidth, height := table.inputHeight, stride := table.stride
      inChannels := table.inputChannels, outChannels := table.outputChannels, precision
      padding := some (table.padTop, table.padLeft), activation, depthwise := table.depthwise }
    scales
    kernels := (table.weightsHeight, table.weightsWidth)
    runtimeDimensions
    runtimeQuantization
    epilogueAdd := table.epilogueAdd
    epilogueActivation
    runtimeDenseReaders := table.runtimeDenseReaders
    runtimeLayout := table.runtimeLayout
    weightsPacked := table.weightsPacked }

/-- `decode_matmul_shape` with its precision and its activation: the exact accumulator writer is
validated for convolutions only. -/
def decodeMatmulTable (m k n : Nat) (precision : Schema.Precision) (fields : QuantizationFields)
    (activation : Schema.Activation) (activationCmp : Nat) : Except Unit (Fc.Shape × Option Scales) := do
  let (precision, scales) ← decodePrecision precision fields false
  unlessErr (precision.writesAccumulators = false) ()
  let activation ← decodeActivation activation activationCmp
  return ({ m, k, n, precision, activation }, scales)

/-- Deprecated, and decoded only because an older executable may still carry one. -/
def decodeFullyConnected (table : FullyConnectedDef) :
    Except Unit (MatmulExecutable × Option Scales) := do
  let (shape, scales) ← decodeMatmulTable table.m table.k table.n table.precision
    ⟨table.inputZeroPoint, table.outputZeroPoint, table.weightsZeroPoint, table.inputScale,
      table.weightsScale, table.outputScale⟩ table.activation table.activationCmp
  return ({
    shapeTemplate := shape, runtimeDimensions := [], runtimeDenseReaders := false
    runtimeLayout := false, weightsPacked := false }, scales)

def decodeMatmul (table : MatmulDef) : Except Unit (MatmulExecutable × Option Scales) := do
  let (shape, scales) ← decodeMatmulTable table.m table.k table.n table.precision
    ⟨table.inputZeroPoint, table.outputZeroPoint, table.weightsZeroPoint, table.inputScale,
      table.weightsScale, table.outputScale⟩ table.activation table.activationCmp
  let runtimeDimensions ← table.runtimeDimensions.mapM decodeMatmulDimension
  return ({
    shapeTemplate := shape, runtimeDimensions, runtimeDenseReaders := table.runtimeDenseReaders
    runtimeLayout := table.runtimeLayout, weightsPacked := table.weightsPacked }, scales)

/-- The value padded taps are filled with, where a measurement says what it is. -/
def padFillValue : Pooling.PoolingMethod → Pooling.PoolingPrecision → Option Nat
  | .avg, _ => some 0
  | .max, .fp16 => some 0xFC00
  | .max, .int8 => none
  | .min, _ => none

/-- The fill a shape must program. An unpadded pool never reads it. -/
def requiredPadFill (method : Pooling.PoolingMethod) (precision : Pooling.PoolingPrecision)
    (padded : Bool) : Option Nat :=
  match padFillValue method precision, padded with
  | some value, _ => some value
  | none, false => some 0
  | none, true => none

def decodePooling (table : PoolingDef) : Except Unit PoolingExecutable := do
  let method ← decodePoolingMethod table.method
  let precision ← decodePoolingPrecision table.precision
  let padded := table.padLeft ||| table.padTop ||| table.padRight ||| table.padBottom != 0
  let padValue ← okOr (requiredPadFill method precision padded) ()
  let runtimeDimensions ← table.runtimeDimensions.mapM decodePoolingDimension
  return {
    shapeTemplate := {
      inputWidth := table.inputWidth, inputHeight := table.inputHeight
      inputChannels := table.channels, outputWidth := table.outputWidth
      outputHeight := table.outputHeight, outputChannels := table.channels, precision
      kernelWidth := table.kernelWidth, kernelHeight := table.kernelHeight
      strideX := table.strideX, strideY := table.strideY, method, padLeft := table.padLeft
      padTop := table.padTop, padRight := table.padRight, padBottom := table.padBottom, padValue }
    runtimeDimensions
    runtimeDenseReaders := table.runtimeDenseReaders
    runtimeLayout := table.runtimeLayout }

def decodeElementwiseUnary (table : ElementwiseUnaryDef) : Except Unit ElementwiseUnaryExecutable := do
  let algo ← decodeEwUnaryOp table.op
  let runtimeDimensions ← table.runtimeDimensions.mapM decodeElementwiseDimension
  return {
    geometry := ⟨table.width, table.height, table.channels⟩, algo, operand := table.operand
    runtimeDimensions, runtimeDenseReaders := table.runtimeDenseReaders
    runtimeLayout := table.runtimeLayout }

def decodeElementwiseBinary (table : ElementwiseBinaryDef) :
    Except Unit ElementwiseBinaryExecutable := do
  let op ← decodeEwBinaryOp table.op
  let runtimeDimensions ← table.runtimeDimensions.mapM decodeElementwiseDimension
  return {
    geometry := ⟨table.width, table.height, table.channels⟩, op
    runtimeDimensions, runtimeDenseReaders := table.runtimeDenseReaders
    runtimeLayout := table.runtimeLayout }

def decodeElementwiseLut (table : ElementwiseLutDef) : Except Unit ElementwiseLutExecutable := do
  let function ← decodeLutFn table.fn
  let runtimeDimensions ← table.runtimeDimensions.mapM decodeElementwiseDimension
  return {
    geometry := ⟨table.width, table.height, table.channels⟩, function
    inputZeroPoint := asI32 table.inputZeroPoint, outputZeroPoint := asI32 table.outputZeroPoint
    inputScale := table.inputScale, outputScale := table.outputScale
    runtimeDimensions, runtimeDenseReaders := table.runtimeDenseReaders
    runtimeLayout := table.runtimeLayout }

/-- `map_err(|_| ())`. -/
def orUnit {ε α : Type} (x : Except ε α) : Except Unit α := x.mapError fun _ => ()

/-- `decode_flatbuffer_shape`, from the table of the single export. -/
def decodeFlatbufferShape : KernelDef → Except Unit UkernelShape
  | .conv2d table => do
    let executable ← decodeConv2d table
    orUnit executable.validateTemplate
    return .conv2d executable
  | .fullyConnected table => do
    let (executable, scales) ← decodeFullyConnected table
    orUnit executable.validateTemplate
    return .matmul executable scales
  | .matmul table => do
    let (executable, scales) ← decodeMatmul table
    orUnit executable.validateTemplate
    return .matmul executable scales
  | .pooling table => do
    let executable ← decodePooling table
    orUnit executable.validateTemplate
    return .pooling executable
  | .elementwiseUnary table => do
    let executable ← decodeElementwiseUnary table
    orUnit executable.validateTemplate
    return .elementwiseUnary executable
  | .elementwiseBinary table => do
    let executable ← decodeElementwiseBinary table
    orUnit executable.validateTemplate
    return .elementwiseBinary executable
  | .elementwiseLut table => do
    let executable ← decodeElementwiseLut table
    orUnit executable.validateTemplate
    return .elementwiseLut executable

/-! ### Resolution -/

/-- What a dispatch runs, once its push constants are read. A convolution may add a residual. -/
inductive ResolvedShape
  | conv2d (shape : Shape) (kernels : Kernels) (epilogueAdd : Bool)
  | matmul (shape : Fc.Shape)
  | pooling (shape : Pooling.PoolingShape)
  | elementwiseUnary (shape : EwUnaryShape)
  | elementwiseBinary (shape : EwAddShape)
  | elementwiseLut (shape : LutShape)
  deriving DecidableEq, Repr

namespace UkernelShape

/-- The push constants a dispatch supplies. -/
def constantCount : UkernelShape → Nat
  | conv2d executable => executable.constantCount
  | matmul executable _ => executable.constantCount
  | pooling executable => executable.constantCount
  | elementwiseUnary executable => executable.constantCount
  | elementwiseBinary executable => executable.constantCount
  | elementwiseLut executable => executable.constantCount

/-- `resolve_shape` of the kernel. -/
def resolveShape (ukernel : UkernelShape) (constants : Bytes) : Except String ResolvedShape :=
  match ukernel with
  | conv2d executable => do
    let (shape, kernels) ← executable.resolveShape constants
    return .conv2d shape kernels executable.epilogueAdd
  | matmul executable _ => do
    let shape ← executable.resolveShape constants
    return .matmul shape
  | pooling executable => do
    let shape ← executable.resolveShape constants
    return .pooling shape
  | elementwiseUnary executable => do
    let shape ← executable.resolveShape constants
    return .elementwiseUnary shape
  | elementwiseBinary executable => do
    let shape ← executable.resolveShape constants
    return .elementwiseBinary shape
  | elementwiseLut executable => do
    let shape ← executable.resolveShape constants
    return .elementwiseLut shape

end UkernelShape

end IreeRocket.Driver
