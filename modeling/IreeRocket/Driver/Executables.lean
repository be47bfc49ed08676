import IreeRocket.Core.Multiplier
import IreeRocket.Driver.Chaining
import IreeRocket.Driver.Matmul
import IreeRocket.Hal.ExecutableFormat
import IreeRocket.Hal.Pooling

/-!
# Executables and their runtime dimensions

An executable is a template. The dimensions it lists are zero in it and arrive with a dispatch, one
uint32 push constant each; the ones it does not list are stated. `validate_template` checks that much
without the values, `resolve_shape` fills them in and validates the whole. A further constant may trail
the others, the layout word, which the shape never reads.
-/

namespace IreeRocket.Driver

open Conv Layout Weights ExecutableFormat

/-! ### Templates -/

/-- The loop over the listed dimensions. The flags of the source are the dimensions seen so far. -/
def checkListed {D : Type} [DecidableEq D] (get : D → Nat) (unique zero : String) :
    List D → List D → Except String Unit
  | _, [] => return
  | seen, dimension :: rest => do
    unlessErr (dimension ∉ seen) unique
    unlessErr (get dimension = 0) zero
    checkListed get unique zero (dimension :: seen) rest

/-- The loop over all dimensions. -/
def checkStated {D : Type} [DecidableEq D] (get : D → Nat) (nonzero : String) (seen : List D) :
    List D → Except String Unit
  | [] => return
  | dimension :: rest => do
    unlessErr (dimension ∈ seen ∨ get dimension ≠ 0) nonzero
    checkStated get nonzero seen rest

/-- The template and runtime split every executable shares, over its dimensions, their values and its
messages. -/
def checkDimensions {D : Type} [DecidableEq D] (all : List D) (get : D → Nat)
    (unique zero nonzero : String) (runtimeDimensions : List D) : Except String Unit := do
  checkListed get unique zero [] runtimeDimensions
  checkStated get nonzero runtimeDimensions all

/-- The loop of `resolve_shape` over the listed dimensions and the constants. -/
def setDimensions {S D : Type} (set : D → Nat → S → S) (nonzero : String) :
    List D → List Bytes → S → Except String S
  | dimension :: dimensions, bytes :: words, shape => do
    let value := u32FromNeBytes bytes
    unlessErr (value ≠ 0) nonzero
    setDimensions set nonzero dimensions words (set dimension value shape)
  | _, _, shape => return shape

/-- The trailing constant, where one is declared. -/
def trailingCount (runtimeDenseReaders runtimeLayout : Bool) : Nat :=
  if runtimeDenseReaders ∨ runtimeLayout then 1 else 0

/-! ### Convolutions -/

inductive RuntimeConv2dDimension
  | inputWidth
  | inputHeight
  | inputChannels
  | outputChannels
  | weightsWidth
  | weightsHeight
  deriving DecidableEq, Repr

namespace RuntimeConv2dDimension

def get (shape : Shape) (kernels : Kernels) : RuntimeConv2dDimension → Nat
  | inputWidth => shape.width
  | inputHeight => shape.height
  | inputChannels => shape.inChannels
  | outputChannels => shape.outChannels
  | weightsWidth => kernels.2
  | weightsHeight => kernels.1

def set (dimension : RuntimeConv2dDimension) (value : Nat) (shape : Shape × Kernels) :
    Shape × Kernels :=
  match dimension with
  | inputWidth => ({ shape.1 with width := value }, shape.2)
  | inputHeight => ({ shape.1 with height := value }, shape.2)
  | inputChannels => ({ shape.1 with inChannels := value }, shape.2)
  | outputChannels => ({ shape.1 with outChannels := value }, shape.2)
  | weightsWidth => (shape.1, (shape.2.1, value))
  | weightsHeight => (shape.1, (value, shape.2.2))

/-- `all_dimensions`. -/
def all : List RuntimeConv2dDimension :=
  [inputWidth, inputHeight, inputChannels, outputChannels, weightsWidth, weightsHeight]

end RuntimeConv2dDimension

inductive RuntimeConv2dQuantParam
  | outputScale
  | inputZeroPoint
  | outputZeroPoint
  deriving DecidableEq, Repr

/-- `is_unset`. The scale never survives decoding as a sentinel, so the serializer checks it alone. -/
def RuntimeConv2dQuantParam.isUnset (quantization : Quantization) : RuntimeConv2dQuantParam → Bool
  | outputScale => true
  | inputZeroPoint => quantization.inputZeroPoint == 0
  | outputZeroPoint => quantization.outputZeroPoint == 0

/-- Convolution executable metadata before the runtime dimensions of a dispatch resolve. The scales are
those of the template's quantization. -/
structure Conv2dExecutable where
  shapeTemplate : Shape
  scales : Option Scales
  kernels : Kernels
  runtimeDimensions : List RuntimeConv2dDimension
  runtimeQuantization : List RuntimeConv2dQuantParam
  epilogueAdd : Bool
  epilogueActivation : Activation
  runtimeDenseReaders : Bool
  runtimeLayout : Bool
  weightsPacked : Bool
  deriving DecidableEq, Repr

namespace Conv2dExecutable

def checkQuantization (precision : Precision) :
    List RuntimeConv2dQuantParam → List RuntimeConv2dQuantParam → Except String Unit
  | _, [] => return
  | seen, param :: rest => do
    unlessErr (param ∉ seen) "runtime Conv2D quantization parameters must be unique"
    match precision with
    | .int8 quantization =>
      unlessErr (param.isUnset quantization = true)
        "runtime Conv2D quantization parameters must be zero in the executable template"
    | _ => .error "runtime Conv2D quantization parameters require int8 precision"
    checkQuantization precision (param :: seen) rest

def validateTemplate (executable : Conv2dExecutable) : Except String Unit := do
  let template := executable.shapeTemplate
  checkDimensions RuntimeConv2dDimension.all
    (RuntimeConv2dDimension.get template executable.kernels)
    "runtime Conv2D dimensions must be unique"
    "runtime Conv2D dimensions must be zero in the executable template"
    "static Conv2D dimensions must be nonzero in the executable template"
    executable.runtimeDimensions
  checkQuantization template.precision [] executable.runtimeQuantization
  if executable.runtimeDimensions = [] ∧ executable.runtimeQuantization = [] then
    orRefusal (validateConvShape template executable.kernels)

/-- The words of the dimensions, taken from the front. -/
def resolveDimensions : List RuntimeConv2dDimension → List Bytes → Shape × Kernels →
    Except String ((Shape × Kernels) × List Bytes)
  | [], words, shape => return (shape, words)
  | dimension :: dimensions, words, shape => do
    let bytes ← okOr words.head? "runtime Conv2D push constants ran out"
    let value := u32FromNeBytes bytes
    unlessErr (value ≠ 0) "runtime Conv2D dimensions must be nonzero"
    resolveDimensions dimensions words.tail (dimension.set value shape)

/-- The words of the quantization parameters: the zero points written to the quantization, and the output
scale if one is listed. -/
def resolveParams : List RuntimeConv2dQuantParam → List Bytes → Quantization → Option Nat →
    Except String (Quantization × Option Nat)
  | [], _, quantization, outputScale => return (quantization, outputScale)
  | param :: params, words, quantization, outputScale => do
    let bytes ← okOr words.head? "runtime Conv2D push constants ran out"
    let value := u32FromNeBytes bytes
    match param with
    | .outputScale => resolveParams params words.tail quantization (some value)
    | .inputZeroPoint =>
      resolveParams params words.tail { quantization with inputZeroPoint := asI32 value } outputScale
    | .outputZeroPoint =>
      resolveParams params words.tail { quantization with outputZeroPoint := asI32 value } outputScale

def resolveQuantization (executable : Conv2dExecutable) (words : List Bytes) (shape : Shape) :
    Except String Shape :=
  if executable.runtimeQuantization = [] then .ok shape
  else
    match shape.precision, executable.scales with
    | .int8 quantization, some scales => do
      let (quantization, outputScale) ←
        resolveParams executable.runtimeQuantization words quantization none
      match outputScale with
      | none => return { shape with precision := .int8 quantization }
      | some outputScale => do
        unlessErr (F32.IsFinite outputScale ∧ F32.IsPositive outputScale)
          "runtime Conv2D output scale must be finite and positive"
        let multiplier ← Multiplier.tryFromRatio
          (requantizationRatio scales.input scales.weights outputScale)
        return { shape with precision := .int8 { quantization with multiplier } }
    | _, _ => .error "runtime Conv2D quantization parameters require int8 precision"

/-- The push constants a dispatch supplies. -/
def constantCount (executable : Conv2dExecutable) : Nat :=
  executable.runtimeDimensions.length + executable.runtimeQuantization.length +
    trailingCount executable.runtimeDenseReaders executable.runtimeLayout

def resolveShape (executable : Conv2dExecutable) (constants : Bytes) :
    Except String (Shape × Kernels) := do
  unlessErr (constants.length = executable.constantCount * 4)
    "runtime Conv2D push-constant byte count does not match the executable"
  let words := chunksExact constants executable.constantCount
  let ((shape, kernels), words) ← resolveDimensions executable.runtimeDimensions words
    (executable.shapeTemplate, executable.kernels)
  let shape ← executable.resolveQuantization words shape
  orRefusal (validateConvShape shape kernels)
  return (shape, kernels)

end Conv2dExecutable

/-! ### Pools -/

inductive RuntimePoolingDimension
  | inputWidth
  | inputHeight
  | channels
  | kernelWidth
  | kernelHeight
  | strideX
  | strideY
  deriving DecidableEq, Repr

namespace RuntimePoolingDimension

def get (shape : Pooling.PoolingShape) : RuntimePoolingDimension → Nat
  | inputWidth => shape.inputWidth
  | inputHeight => shape.inputHeight
  | channels => shape.inputChannels
  | kernelWidth => shape.kernelWidth
  | kernelHeight => shape.kernelHeight
  | strideX => shape.strideX
  | strideY => shape.strideY

/-- The wire carries one channel count and the shape two. -/
def set (dimension : RuntimePoolingDimension) (value : Nat) (shape : Pooling.PoolingShape) :
    Pooling.PoolingShape :=
  match dimension with
  | inputWidth => { shape with inputWidth := value }
  | inputHeight => { shape with inputHeight := value }
  | channels => { shape with inputChannels := value, outputChannels := value }
  | kernelWidth => { shape with kernelWidth := value }
  | kernelHeight => { shape with kernelHeight := value }
  | strideX => { shape with strideX := value }
  | strideY => { shape with strideY := value }

/-- `all_dimensions`. -/
def all : List RuntimePoolingDimension :=
  [inputWidth, inputHeight, channels, kernelWidth, kernelHeight, strideX, strideY]

end RuntimePoolingDimension

def floorOutputExtent (input kernel stride before after : Nat) : Except String Nat := do
  unlessErr (kernel ≠ 0 ∧ stride ≠ 0) "pooling kernel and stride must be nonzero"
  unlessErr (input + before + after < 2 ^ 32) "pooling padded extent overflows"
  unlessErr (kernel ≤ input + before + after) "pooling kernel exceeds its padded input extent"
  return (input + before + after - kernel) / stride + 1

/-- Pooling executable metadata before the runtime dimensions of a dispatch resolve. -/
structure PoolingExecutable where
  shapeTemplate : Pooling.PoolingShape
  runtimeDimensions : List RuntimePoolingDimension
  runtimeDenseReaders : Bool
  runtimeLayout : Bool
  deriving DecidableEq, Repr

namespace PoolingExecutable

def constantCount (executable : PoolingExecutable) : Nat :=
  executable.runtimeDimensions.length +
    trailingCount executable.runtimeDenseReaders executable.runtimeLayout

/-- The output extents are derived. A static executable has stated its own, which must agree. -/
def deriveOutput (static : Bool) (shape : Pooling.PoolingShape) : Except String Pooling.PoolingShape := do
  let outputWidth ← floorOutputExtent shape.inputWidth shape.kernelWidth shape.strideX shape.padLeft
    shape.padRight
  let outputHeight ← floorOutputExtent shape.inputHeight shape.kernelHeight shape.strideY shape.padTop
    shape.padBottom
  let declared := (shape.outputWidth, shape.outputHeight)
  unlessErr (static = true → declared ≠ (0, 0) → declared = (outputWidth, outputHeight))
    "pooling output extents disagree with floor-mode geometry"
  return { shape with outputWidth, outputHeight }

def resolveShape (executable : PoolingExecutable) (constants : Bytes) :
    Except String Pooling.PoolingShape := do
  unlessErr (constants.length = executable.constantCount * 4)
    "runtime pooling push-constant byte count does not match the executable"
  let shape ← setDimensions RuntimePoolingDimension.set "runtime pooling dimensions must be nonzero"
    executable.runtimeDimensions (chunksExact constants executable.constantCount)
    executable.shapeTemplate
  let shape ← deriveOutput (executable.runtimeDimensions == []) shape
  shape.validate.mapError fun _ => "pooling shape is outside what the PPU can program"
  return shape

def validateTemplate (executable : PoolingExecutable) : Except String Unit := do
  checkDimensions RuntimePoolingDimension.all (RuntimePoolingDimension.get executable.shapeTemplate)
    "runtime pooling dimensions must be unique"
    "runtime pooling dimensions must be zero in the executable template"
    "static pooling dimensions must be nonzero in the executable template"
    executable.runtimeDimensions
  if executable.runtimeDimensions = [] then
    let _ ← executable.resolveShape []

end PoolingExecutable

/-! ### Matmuls -/

namespace RuntimeMatmulDimension

def get (shape : Fc.Shape) : RuntimeMatmulDimension → Nat
  | m => shape.m
  | k => shape.k
  | n => shape.n

/-- The dimensions in the order the template check visits them. -/
def all : List RuntimeMatmulDimension := [m, k, n]

end RuntimeMatmulDimension

namespace MatmulExecutable

def constantCount (executable : MatmulExecutable) : Nat :=
  executable.runtimeDimensions.length +
    trailingCount executable.runtimeDenseReaders executable.runtimeLayout

def validateTemplate (executable : MatmulExecutable) : Except String Unit := do
  checkDimensions RuntimeMatmulDimension.all (RuntimeMatmulDimension.get executable.shapeTemplate)
    "runtime matmul dimensions must be unique"
    "runtime matmul dimensions must be zero in the executable template"
    "static matmul dimensions must be nonzero in the executable template"
    executable.runtimeDimensions
  if executable.runtimeDimensions = [] then
    let _ ← executable.resolveShape []

end MatmulExecutable

/-! ### Element-wise operations -/

structure ElementwiseGeometry where
  width : Nat
  height : Nat
  channels : Nat
  deriving DecidableEq, Repr

inductive RuntimeElementwiseDimension
  | width
  | height
  | channels
  deriving DecidableEq, Repr

namespace RuntimeElementwiseDimension

def get (geometry : ElementwiseGeometry) : RuntimeElementwiseDimension → Nat
  | width => geometry.width
  | height => geometry.height
  | channels => geometry.channels

def set (dimension : RuntimeElementwiseDimension) (value : Nat) (geometry : ElementwiseGeometry) :
    ElementwiseGeometry :=
  match dimension with
  | width => { geometry with width := value }
  | height => { geometry with height := value }
  | channels => { geometry with channels := value }

/-- `ALL_ELEMENTWISE_DIMENSIONS`. -/
def all : List RuntimeElementwiseDimension := [width, height, channels]

end RuntimeElementwiseDimension

/-- What the three element-wise executables share. -/
structure ElementwiseTemplate where
  geometry : ElementwiseGeometry
  runtimeDimensions : List RuntimeElementwiseDimension
  runtimeDenseReaders : Bool
  runtimeLayout : Bool
  deriving DecidableEq, Repr

namespace ElementwiseTemplate

/-- `validate_elementwise_template`. -/
def validate (template : ElementwiseTemplate) : Except String Unit :=
  checkDimensions RuntimeElementwiseDimension.all (RuntimeElementwiseDimension.get template.geometry)
    "runtime element-wise dimensions must be unique"
    "runtime element-wise dimensions must be zero in the executable template"
    "static element-wise dimensions must be nonzero in the executable template"
    template.runtimeDimensions

def constantCount (template : ElementwiseTemplate) : Nat :=
  template.runtimeDimensions.length +
    trailingCount template.runtimeDenseReaders template.runtimeLayout

/-- `resolve_elementwise_geometry`. -/
def resolveGeometry (template : ElementwiseTemplate) (constants : Bytes) :
    Except String ElementwiseGeometry := do
  unlessErr (constants.length = template.constantCount * 4)
    "runtime element-wise push-constant byte count does not match the executable"
  setDimensions RuntimeElementwiseDimension.set "runtime element-wise dimensions must be nonzero"
    template.runtimeDimensions (chunksExact constants template.constantCount) template.geometry

end ElementwiseTemplate

inductive EwUnaryAlgo
  | abs
  | neg
  | floor
  | ceil
  | add
  deriving DecidableEq, Repr

structure EwUnaryShape where
  geometry : ElementwiseGeometry
  algo : EwUnaryAlgo
  operand : Nat
  deriving DecidableEq, Repr

structure ElementwiseUnaryExecutable extends ElementwiseTemplate where
  algo : EwUnaryAlgo
  operand : Nat
  deriving DecidableEq, Repr

namespace ElementwiseUnaryExecutable

def validateTemplate (executable : ElementwiseUnaryExecutable) : Except String Unit := do
  executable.validate
  unlessErr (executable.operand ≠ 0 → executable.algo = .add)
    "an element-wise unary operand is only meaningful for ADD_SCALAR"

def resolveShape (executable : ElementwiseUnaryExecutable) (constants : Bytes) :
    Except String EwUnaryShape := do
  let geometry ← executable.resolveGeometry constants
  return { geometry, algo := executable.algo, operand := executable.operand }

end ElementwiseUnaryExecutable

inductive EwBinaryOp
  | add
  | sub
  | mul
  | max
  | min
  deriving DecidableEq, Repr

/-- `EwAddShape` at fp16, whose other fields are constants there. -/
structure EwAddShape where
  geometry : ElementwiseGeometry
  op : EwBinaryOp
  deriving DecidableEq, Repr

structure ElementwiseBinaryExecutable extends ElementwiseTemplate where
  op : EwBinaryOp
  deriving DecidableEq, Repr

namespace ElementwiseBinaryExecutable

def validateTemplate (executable : ElementwiseBinaryExecutable) : Except String Unit :=
  executable.validate

def resolveShape (executable : ElementwiseBinaryExecutable) (constants : Bytes) :
    Except String EwAddShape := do
  let geometry ← executable.resolveGeometry constants
  return { geometry, op := executable.op }

end ElementwiseBinaryExecutable

inductive LutFunction
  | sigmoid
  | tanh
  | exp
  | square
  | erf
  | sqrt
  | rsqrt
  | log
  | reciprocal
  deriving DecidableEq, Repr

def supportedLutZeroPoints : List Int := [-128, -2, 0, 127]

structure LutShape where
  geometry : ElementwiseGeometry
  inputZeroPoint : Nat
  outputZeroPoint : Nat
  inputScale : Nat
  outputScale : Nat
  deriving DecidableEq, Repr

structure ElementwiseLutExecutable extends ElementwiseTemplate where
  function : LutFunction
  inputZeroPoint : Int
  outputZeroPoint : Int
  inputScale : Nat
  outputScale : Nat
  deriving DecidableEq, Repr

namespace ElementwiseLutExecutable

def validateTemplate (executable : ElementwiseLutExecutable) : Except String Unit := do
  executable.validate
  unlessErr (executable.inputZeroPoint ∈ supportedLutZeroPoints) "unsupported LUT input zero point"
  unlessErr (-128 ≤ executable.outputZeroPoint ∧ executable.outputZeroPoint ≤ 127)
    "LUT output zero point does not fit an int8"
  unlessErr (F32.IsFinite executable.inputScale ∧ F32.IsFinite executable.outputScale ∧
      F32.IsPositive executable.inputScale ∧ F32.IsPositive executable.outputScale)
    "LUT scales must be finite and positive"

/-- The byte of a zero point under the 0x80 bias. -/
def biased (zeroPoint : Int) : Nat := ((zeroPoint % 256).toNat + 0x80) % 256

def resolveShape (executable : ElementwiseLutExecutable) (constants : Bytes) :
    Except String LutShape := do
  let geometry ← executable.resolveGeometry constants
  return {
    geometry
    inputZeroPoint := biased executable.inputZeroPoint
    outputZeroPoint := biased executable.outputZeroPoint
    inputScale := executable.inputScale
    outputScale := executable.outputScale }

end ElementwiseLutExecutable

end IreeRocket.Driver
