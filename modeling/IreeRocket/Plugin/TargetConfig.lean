import IreeRocket.Core.Multiplier
import IreeRocket.Driver.Schema
import IreeRocket.Plugin.DispatchQuery

/-!
# The target config of an executable

The compiler backend reads the dictionary of an executable's target into the table of its kernel, one
`build…ConfigFromTarget` for each kind. The config structures of the source have the fields of the tables
they are serialized to, and are these here. A diagnostic is its text, without the operation it is emitted
on.
-/

namespace IreeRocket.Backend

open Conv hiding Precision Activation
open Schema

/-! ### Attributes -/

/-- An attribute: one that the plugin's passes read too; a float, by the binary32 it narrows to; another. -/
inductive Attr
  | read (attr : Plugin.Attr)
  | float (bits : Nat)
  | other
  deriving DecidableEq, Repr

/-- `DictionaryAttr`, whose keys are unique. -/
structure DictionaryAttr where
  entries : List (String × Attr)
  unique : (entries.map Prod.fst).Nodup

/-- A diagnostic, or `llvm::cast` of an attribute of another kind. -/
inductive Failure
  | diagnostic (text : String)
  | cast
  deriving DecidableEq, Repr

/-- `static_cast<uint32_t>`. -/
def toU32 (value : Int) : Nat := (value % 2 ^ 32).toNat

theorem toU32_lt (value : Int) : toU32 value < 2 ^ 32 := by
  unfold toU32
  omega

namespace Attr

/-- `IntegerAttr`'s `getInt`. A `BoolAttr` is one too, of width one and sign-extended. -/
def int? : Attr → Option Int
  | read (.integer value) => some value
  | read (.bool value) => some (if value then -1 else 0)
  | _ => none

def bool? : Attr → Option Bool
  | read (.bool value) => some value
  | _ => none

def float? : Attr → Option Nat
  | float bits => some bits
  | _ => none

def string? : Attr → Option String
  | read (.string value) => some value
  | _ => none

/-- `ArrayAttr`. An entry that is no string is `none`. -/
def array? : Attr → Option (List (Option String))
  | read (.array elements) => some elements
  | _ => none

end Attr

namespace DictionaryAttr

variable (config : DictionaryAttr) (key : String)

def get : Option Attr := config.entries.lookup key

/-- `llvm::cast` of what a key holds. -/
def cast {α : Type} (kind : Attr → Option α) : Except Failure α :=
  okOr ((config.get key).bind kind) .cast

def getInt : Except Failure Int := config.cast key Attr.int?

def getU32 : Except Failure Nat := do
  let value ← config.getInt key
  return toU32 value

def getF32 : Except Failure Nat := config.cast key Attr.float?

def getBool : Except Failure Bool := config.cast key Attr.bool?

def getString : Except Failure String := config.cast key Attr.string?

/-- An absent key is zero. -/
def getOptionalU32 : Except Failure Nat :=
  match config.get key with
  | none => .ok 0
  | some _ => config.getU32 key

/-- An absent key is false. -/
def getOptionalBool : Except Failure Bool :=
  match config.get key with
  | none => .ok false
  | some _ => config.getBool key

/-- The loop over a kernel's required keys. -/
def requireKeys (missing : String) : List String → Except Failure Unit
  | [] => return
  | key :: keys => do
    unlessErr ((config.get key).isSome = true) (.diagnostic (missing ++ key ++ "'"))
    requireKeys missing keys

def parseOptionalBool : Except Failure Bool :=
  match config.get key with
  | none => .ok false
  | some attr => okOr attr.bool?
      (.diagnostic ("rocket backend: optional '" ++ key ++ "' config value must be a bool"))

/-- The two spellings of the trailing push constant: the reader count and the layout word. -/
def parseTrailingConstantFlags : Except Failure (Bool × Bool) := do
  let denseReaders ← config.parseOptionalBool "runtime_dense_readers"
  let layout ← config.parseOptionalBool "runtime_layout"
  unlessErr ((denseReaders && layout) = false) (.diagnostic
    ("rocket backend: 'runtime_dense_readers' and 'runtime_layout' both declared; the trailing push " ++
      "constant can only be one of them"))
  return (denseReaders, layout)

end DictionaryAttr

/-! ### Names -/

def activationNamed : String → Option Activation
  | "none" => some .none
  | "relu" => some .relu
  | "relux" => some .relux
  | _ => none

def epilogueActivationNamed : String → Option Activation
  | "none" => some .none
  | "relu" => some .relu
  | _ => none

def precisionNamed : String → Option Precision
  | "int8" => some .int8
  | "fp16" => some .fp16
  | "int8_accumulator" => some .int8Accumulator
  | _ => none

/-- `int8_accumulator` has nothing to mean for a pool. -/
def poolingPrecisionNamed : String → Option Precision
  | "int8" => some .int8
  | "fp16" => some .fp16
  | _ => none

def poolingMethodNamed : String → Option PoolingMethod
  | "avg" => some .avg
  | "max" => some .max
  | "min" => some .min
  | _ => none

def ewUnaryOpNamed : String → Option EwUnaryOp
  | "abs" => some .abs
  | "neg" => some .neg
  | "floor" => some .floor
  | "ceil" => some .ceil
  | "add_scalar" => some .addScalar
  | _ => none

def ewBinaryOpNamed : String → Option EwBinaryOp
  | "add" => some .add
  | "sub" => some .sub
  | "mul" => some .mul
  | "max" => some .max
  | "min" => some .min
  | _ => none

def lutFnNamed : String → Option LutFn
  | "sigmoid" => some .sigmoid
  | "tanh" => some .tanh
  | "exp" => some .exp
  | "square" => some .square
  | "erf" => some .erf
  | "sqrt" => some .sqrt
  | "rsqrt" => some .rsqrt
  | "log" => some .log
  | "reciprocal" => some .reciprocal
  | _ => none

/-- A name, read by its kind's table of names. -/
def named {α : Type} (names : String → Option α) (unrecognized expected value : String) :
    Except Failure α :=
  okOr (names value) (.diagnostic ("rocket backend: unrecognized " ++ unrecognized ++ " config value '" ++
    value ++ "'" ++ expected))

def parseActivationAndPrecision (config : DictionaryAttr) : Except Failure (Activation × Precision) := do
  let activation ← config.getString "activation"
  let activation ← named activationNamed "'activation'" " (expected none/relu/relux)" activation
  let precision ← config.getString "precision"
  let precision ← named precisionNamed "'precision'" " (expected int8/fp16/int8_accumulator)" precision
  return (activation, precision)

/-! ### Runtime lists -/

/-- A list of what a dispatch supplies: its key, the word its texts have for a member, its members by
name. -/
structure RuntimeList (D : Type) where
  key : String
  noun : String
  named : String → Option D

namespace RuntimeList

variable {D : Type} [DecidableEq D] (list : RuntimeList D)

/-- The loop over the entries. The flags of the source are the members seen so far. -/
def parseEntries : List D → List (Option String) → Except Failure (List D)
  | _, [] => return []
  | seen, entry :: entries => do
    let name ← okOr entry
      (.diagnostic ("rocket backend: every '" ++ list.key ++ "' entry must be a string"))
    let member ← okOr (list.named name)
      (.diagnostic ("rocket backend: unknown runtime " ++ list.noun ++ " '" ++ name ++ "'"))
    unlessErr (member ∉ seen)
      (.diagnostic ("rocket backend: duplicate runtime " ++ list.noun ++ " '" ++ name ++ "'"))
    let members ← parseEntries (member :: seen) entries
    return member :: members

/-- The entries of the array, where there is one. -/
def entries (config : DictionaryAttr) : Except Failure (List (Option String)) :=
  match config.get list.key with
  | none => .ok []
  | some attr => okOr attr.array? (.diagnostic
      ("rocket backend: optional '" ++ list.key ++ "' config value must be an array of strings"))

def parse (config : DictionaryAttr) : Except Failure (List D) := do
  let entries ← list.entries config
  list.parseEntries [] entries

/-- The template obligation of the dimensions: zero where a dispatch supplies the value, and only
there. -/
def checkTemplate (runtime : List D) : List (D × String × Nat) → Except Failure Unit
  | [] => return
  | (dimension, name, value) :: dimensions => do
    unlessErr (dimension ∈ runtime → value = 0) (.diagnostic ("rocket backend: runtime " ++ list.noun ++
      " '" ++ name ++ "' must use 0 as its executable template value"))
    unlessErr (dimension ∉ runtime → value ≠ 0) (.diagnostic ("rocket backend: zero " ++ list.noun ++
      " '" ++ name ++ "' must be listed in 'runtime_dimensions'"))
    checkTemplate runtime dimensions

end RuntimeList

/-! ### Convolutions -/

def kRequiredConfigKeys : List String :=
  ["input_width", "input_height", "input_channels", "output_width", "output_height", "output_channels",
    "weights_width", "weights_height", "stride", "depthwise", "input_zero_point", "output_zero_point",
    "weights_zero_point", "input_scale", "weights_scale", "output_scale", "truncate_bits", "activation",
    "activation_cmp", "precision"]

/-- The output extents are derived by the runtime, so their names are not among these. -/
def conv2dDimensions : RuntimeList Conv2DDimension where
  key := "runtime_dimensions"
  noun := "Conv2D dimension"
  named
    | "input_width" => some .inputWidth
    | "input_height" => some .inputHeight
    | "input_channels" => some .inputChannels
    | "output_channels" => some .outputChannels
    | "weights_width" => some .weightsWidth
    | "weights_height" => some .weightsHeight
    | _ => none

def conv2dQuantParams : RuntimeList Conv2DQuantParam where
  key := "runtime_quantization"
  noun := "Conv2D quantization parameter"
  named
    | "output_scale" => some .outputScale
    | "input_zero_point" => some .inputZeroPoint
    | "output_zero_point" => some .outputZeroPoint
    | _ => none

/-- `epilogue_activation`: the EW core has no ceiling to be given here. -/
def parseEpilogueActivation (config : DictionaryAttr) : Except Failure Activation :=
  match config.get "epilogue_activation" with
  | none => .ok .none
  | some _ => do
    let activation ← config.getString "epilogue_activation"
    named epilogueActivationNamed "'epilogue_activation'" " (expected none/relu)" activation

/-- The scalars of a convolution's config, in the order they are read. -/
def readConv2d (config : DictionaryAttr) : Except Failure Conv2DDef := do
  let padTop ← config.getOptionalU32 "pad_top"
  let padLeft ← config.getOptionalU32 "pad_left"
  let epilogueAdd ← config.getOptionalBool "epilogue_add"
  let (runtimeDenseReaders, runtimeLayout) ← config.parseTrailingConstantFlags
  let weightsPacked ← config.parseOptionalBool "weights_packed"
  let epilogueActivation ← parseEpilogueActivation config
  let inputWidth ← config.getU32 "input_width"
  let inputHeight ← config.getU32 "input_height"
  let inputChannels ← config.getU32 "input_channels"
  let outputWidth ← config.getU32 "output_width"
  let outputHeight ← config.getU32 "output_height"
  let outputChannels ← config.getU32 "output_channels"
  let weightsWidth ← config.getU32 "weights_width"
  let weightsHeight ← config.getU32 "weights_height"
  let stride ← config.getU32 "stride"
  let depthwise ← config.getBool "depthwise"
  let inputZeroPoint ← config.getU32 "input_zero_point"
  let outputZeroPoint ← config.getU32 "output_zero_point"
  let weightsZeroPoint ← config.getU32 "weights_zero_point"
  let inputScale ← config.getF32 "input_scale"
  let weightsScale ← config.getF32 "weights_scale"
  let outputScale ← config.getF32 "output_scale"
  let truncateBits ← config.getU32 "truncate_bits"
  let activationCmp ← config.getU32 "activation_cmp"
  let (activation, precision) ← parseActivationAndPrecision config
  return {
    inputWidth, inputHeight, inputChannels, outputWidth, outputHeight, outputChannels, weightsWidth
    weightsHeight, stride, depthwise, inputZeroPoint, outputZeroPoint, weightsZeroPoint, inputScale
    weightsScale, outputScale, truncateBits, activation, activationCmp, precision
    runtimeDimensions := [], padTop, padLeft, runtimeQuantization := [], epilogueAdd, epilogueActivation
    runtimeDenseReaders, weightsPacked, runtimeLayout }

/-- The checks of the exact accumulator writer. -/
def checkAccumulator (shape : Conv2DDef) : Except Failure Unit := do
  unlessErr (shape.precision = .int8Accumulator → shape.activation = .none)
    (.diagnostic "rocket backend: int8_accumulator convolution cannot fuse an activation")
  unlessErr (shape.precision = .int8Accumulator →
      shape.inputZeroPoint = 0 ∧ shape.outputZeroPoint = 0 ∧ shape.weightsZeroPoint = 0)
    (.diagnostic ("rocket backend: int8_accumulator convolution currently requires zero input, weight, " ++
      "and output zero-points"))

/-- The dimensions a dispatch may supply, with their values in the template. -/
def conv2dSettable (shape : Conv2DDef) : List (Conv2DDimension × String × Nat) :=
  [(.inputWidth, "input_width", shape.inputWidth), (.inputHeight, "input_height", shape.inputHeight),
    (.inputChannels, "input_channels", shape.inputChannels),
    (.outputChannels, "output_channels", shape.outputChannels),
    (.weightsWidth, "weights_width", shape.weightsWidth),
    (.weightsHeight, "weights_height", shape.weightsHeight)]

/-- The quantization parameters a dispatch supplies, of a requantized int8 convolution only. -/
def parseQuantization (config : DictionaryAttr) (precision : Precision) :
    Except Failure (List Conv2DQuantParam) := do
  let entries ← conv2dQuantParams.entries config
  unlessErr (entries ≠ [] → precision = .int8) (.diagnostic
    ("rocket backend: 'runtime_quantization' is only meaningful for requantized int8 convolution -- " ++
      "fp16 does not requantize, and int8_accumulator bypasses the stage that would consume these"))
  conv2dQuantParams.parseEntries [] entries

/-- The quantization parameters with whether the template leaves them zero. -/
def settableQuantParams (shape : Conv2DDef) : List (Conv2DQuantParam × String × Bool) :=
  [(.outputScale, "output_scale", decide (F32.IsZero shape.outputScale)),
    (.inputZeroPoint, "input_zero_point", shape.inputZeroPoint == 0),
    (.outputZeroPoint, "output_zero_point", shape.outputZeroPoint == 0)]

/-- Their template obligation. Zero is an ordinary zero point, and no legal output scale. -/
def checkQuantTemplate (runtime : List Conv2DQuantParam) :
    List (Conv2DQuantParam × String × Bool) → Except Failure Unit
  | [] => return
  | (param, name, isZero) :: params => do
    unlessErr (param ∈ runtime → isZero = true) (.diagnostic
      ("rocket backend: runtime Conv2D quantization parameter '" ++ name ++
        "' must use 0 as its executable template value"))
    unlessErr (param ∉ runtime → param = .outputScale → isZero = false) (.diagnostic
      "rocket backend: 'output_scale' is zero and not listed in 'runtime_quantization'")
    checkQuantTemplate runtime params

def buildRocketConv2dConfigFromTarget (config : Option DictionaryAttr) : Except Failure Conv2DDef := do
  let config ← okOr config (.diagnostic
    ("rocket backend requires a non-empty executable target config dict (got none) -- only hand-spliced " ++
      "conv2d dispatches from the rocket transform script are supported in v1"))
  config.requireKeys ("rocket backend v1 only supports hand-spliced conv2d dispatches; executable target " ++
    "config is missing required key '") kRequiredConfigKeys
  let shape ← readConv2d config
  checkAccumulator shape
  let runtimeDimensions ← conv2dDimensions.parse config
  conv2dDimensions.checkTemplate runtimeDimensions (conv2dSettable shape)
  let runtimeQuantization ← parseQuantization config shape.precision
  checkQuantTemplate runtimeQuantization (settableQuantParams shape)
  return { shape with runtimeDimensions, runtimeQuantization }

/-! ### Matmuls -/

/-- `kRequiredFcConfigKeys` and `kRequiredMatmulConfigKeys`. -/
def kRequiredMatmulConfigKeys : List String :=
  ["m", "k", "n", "input_zero_point", "output_zero_point", "weights_zero_point", "input_scale",
    "weights_scale", "output_scale", "truncate_bits", "activation", "activation_cmp", "precision"]

/-- The scalars after the dimensions, which the two kernels read alike. -/
def readMatmul (config : DictionaryAttr) (m k n : Nat) : Except Failure FullyConnectedDef := do
  let inputZeroPoint ← config.getU32 "input_zero_point"
  let outputZeroPoint ← config.getU32 "output_zero_point"
  let weightsZeroPoint ← config.getU32 "weights_zero_point"
  let inputScale ← config.getF32 "input_scale"
  let weightsScale ← config.getF32 "weights_scale"
  let outputScale ← config.getF32 "output_scale"
  let truncateBits ← config.getU32 "truncate_bits"
  let activationCmp ← config.getU32 "activation_cmp"
  let (activation, precision) ← parseActivationAndPrecision config
  return {
    m, k, n, inputZeroPoint, outputZeroPoint, weightsZeroPoint, inputScale, weightsScale, outputScale
    truncateBits, activation, activationCmp, precision }

def buildRocketFullyConnectedConfigFromTarget (config : Option DictionaryAttr) :
    Except Failure FullyConnectedDef := do
  let config ← okOr config (.diagnostic
    "rocket fully-connected backend requires a non-empty executable target config dict")
  config.requireKeys "rocket fully-connected executable target config is missing required key '"
    kRequiredMatmulConfigKeys
  let m ← config.getU32 "m"
  let k ← config.getU32 "k"
  let n ← config.getU32 "n"
  unlessErr (m ≠ 0 ∧ k ≠ 0 ∧ n ≠ 0)
    (.diagnostic "rocket fully-connected dimensions m/k/n must be nonzero")
  let shape ← readMatmul config m k n
  unlessErr (shape.precision ≠ .int8Accumulator)
    (.diagnostic "rocket fully-connected backend does not support int8_accumulator precision")
  return shape

def matmulDimensions : RuntimeList MatmulDimension where
  key := "runtime_dimensions"
  noun := "matmul dimension"
  named
    | "m" => some .m
    | "k" => some .k
    | "n" => some .n
    | _ => none

def buildRocketMatmulConfigFromTarget (config : Option DictionaryAttr) : Except Failure MatmulDef := do
  let config ← okOr config (.diagnostic
    "rocket matmul backend requires a non-empty executable target config dict")
  config.requireKeys "rocket matmul executable target config is missing required key '"
    kRequiredMatmulConfigKeys
  let m ← config.getU32 "m"
  let k ← config.getU32 "k"
  let n ← config.getU32 "n"
  let shape ← readMatmul config m k n
  unlessErr (shape.precision ≠ .int8Accumulator)
    (.diagnostic "rocket matmul backend does not support int8_accumulator precision")
  let runtimeDimensions ← matmulDimensions.parse config
  matmulDimensions.checkTemplate runtimeDimensions [(.m, "m", m), (.k, "k", k), (.n, "n", n)]
  let (runtimeDenseReaders, runtimeLayout) ← config.parseTrailingConstantFlags
  let weightsPacked ← config.parseOptionalBool "weights_packed"
  return {
    m, k, n, inputZeroPoint := shape.inputZeroPoint, outputZeroPoint := shape.outputZeroPoint
    weightsZeroPoint := shape.weightsZeroPoint, inputScale := shape.inputScale
    weightsScale := shape.weightsScale, outputScale := shape.outputScale
    truncateBits := shape.truncateBits, activation := shape.activation
    activationCmp := shape.activationCmp, precision := shape.precision, runtimeDimensions
    runtimeDenseReaders, weightsPacked, runtimeLayout }

/-! ### Pools -/

def kRequiredPoolingConfigKeys : List String :=
  ["input_width", "input_height", "channels", "output_width", "output_height", "kernel_width",
    "kernel_height", "stride_x", "stride_y", "pad_left", "pad_top", "pad_right", "pad_bottom", "method",
    "precision"]

/-- Padding is not settable by a dispatch. -/
def poolingDimensions : RuntimeList PoolingDimension where
  key := "runtime_dimensions"
  noun := "pooling dimension"
  named
    | "input_width" => some .inputWidth
    | "input_height" => some .inputHeight
    | "channels" => some .channels
    | "kernel_width" => some .kernelWidth
    | "kernel_height" => some .kernelHeight
    | "stride_x" => some .strideX
    | "stride_y" => some .strideY
    | _ => none

/-- The scalars of a pool's config. -/
def readPooling (config : DictionaryAttr) : Except Failure PoolingDef := do
  let inputWidth ← config.getU32 "input_width"
  let inputHeight ← config.getU32 "input_height"
  let channels ← config.getU32 "channels"
  let outputWidth ← config.getU32 "output_width"
  let outputHeight ← config.getU32 "output_height"
  let kernelWidth ← config.getU32 "kernel_width"
  let kernelHeight ← config.getU32 "kernel_height"
  let strideX ← config.getU32 "stride_x"
  let strideY ← config.getU32 "stride_y"
  let padLeft ← config.getU32 "pad_left"
  let padTop ← config.getU32 "pad_top"
  let padRight ← config.getU32 "pad_right"
  let padBottom ← config.getU32 "pad_bottom"
  let method ← config.getString "method"
  let method ← named poolingMethodNamed "pooling 'method'" " (expected avg/max/min)" method
  let precision ← config.getString "precision"
  let precision ← named poolingPrecisionNamed "pooling 'precision'" " (expected int8/fp16)" precision
  return {
    inputWidth, inputHeight, channels, outputWidth, outputHeight, kernelWidth, kernelHeight, strideX
    strideY, padLeft, padTop, padRight, padBottom, method, precision, runtimeDimensions := []
    runtimeDenseReaders := false, runtimeLayout := false }

def poolingSettable (shape : PoolingDef) : List (PoolingDimension × String × Nat) :=
  [(.inputWidth, "input_width", shape.inputWidth), (.inputHeight, "input_height", shape.inputHeight),
    (.channels, "channels", shape.channels), (.kernelWidth, "kernel_width", shape.kernelWidth),
    (.kernelHeight, "kernel_height", shape.kernelHeight), (.strideX, "stride_x", shape.strideX),
    (.strideY, "stride_y", shape.strideY)]

/-- A dynamic pool has no output extents to state, and a static one must state them. -/
def buildRocketPoolingConfigFromTarget (config : Option DictionaryAttr) : Except Failure PoolingDef := do
  let config ← okOr config (.diagnostic
    "rocket pooling backend requires a non-empty executable target config dict")
  config.requireKeys "rocket pooling executable target config is missing required key '"
    kRequiredPoolingConfigKeys
  let shape ← readPooling config
  let runtimeDimensions ← poolingDimensions.parse config
  poolingDimensions.checkTemplate runtimeDimensions (poolingSettable shape)
  unlessErr (runtimeDimensions ≠ [] → shape.outputWidth = 0 ∧ shape.outputHeight = 0) (.diagnostic
    ("rocket backend: a pooling executable with runtime dimensions must use 0 for " ++
      "output_width/output_height, which the runtime derives"))
  unlessErr (runtimeDimensions = [] → shape.outputWidth ≠ 0 ∧ shape.outputHeight ≠ 0) (.diagnostic
    "rocket backend: a static pooling executable must state nonzero output_width/output_height")
  let (runtimeDenseReaders, runtimeLayout) ← config.parseTrailingConstantFlags
  return { shape with runtimeDimensions, runtimeDenseReaders, runtimeLayout }

/-! ### Element-wise operations -/

def elementwiseDimensions : RuntimeList ElementwiseDimension where
  key := "runtime_dimensions"
  noun := "element-wise dimension"
  named
    | "width" => some .width
    | "height" => some .height
    | "channels" => some .channels
    | _ => none

/-- The runtime side of an element-wise config: its listed dimensions and its trailing constant. -/
structure ElementwiseRuntime where
  runtimeDimensions : List ElementwiseDimension
  runtimeDenseReaders : Bool
  runtimeLayout : Bool

/-- `parseElementwiseRuntimeDimensions`, `checkElementwiseDimensions` and the flags, with which the three
element-wise kernels end. -/
def parseElementwiseRuntime (config : DictionaryAttr) (width height channels : Nat) :
    Except Failure ElementwiseRuntime := do
  let runtimeDimensions ← elementwiseDimensions.parse config
  elementwiseDimensions.checkTemplate runtimeDimensions
    [(.width, "width", width), (.height, "height", height), (.channels, "channels", channels)]
  let (runtimeDenseReaders, runtimeLayout) ← config.parseTrailingConstantFlags
  return { runtimeDimensions, runtimeDenseReaders, runtimeLayout }

/-- `kRequiredElementwiseUnaryConfigKeys` and `kRequiredElementwiseBinaryConfigKeys`. -/
def kRequiredElementwiseConfigKeys : List String := ["width", "height", "channels", "op"]

/-- What the unary and the binary kernel begin with. -/
def requireElementwise (config : Option DictionaryAttr) : Except Failure DictionaryAttr := do
  let config ← okOr config (.diagnostic
    "rocket element-wise backend requires a non-empty executable target config dict")
  config.requireKeys "rocket element-wise executable target config is missing required key '"
    kRequiredElementwiseConfigKeys
  return config

/-- The operand of `add_scalar`, zero where it is absent. -/
def parseOperand (config : DictionaryAttr) : Except Failure Nat :=
  match config.get "operand" with
  | none => .ok 0
  | some attr => toU32 <$> okOr attr.int? (.diagnostic
      "rocket backend: 'operand' must be an integer holding an IEEE-754 binary32 bit pattern")

def buildRocketElementwiseUnaryConfigFromTarget (config : Option DictionaryAttr) :
    Except Failure ElementwiseUnaryDef := do
  let config ← requireElementwise config
  let width ← config.getU32 "width"
  let height ← config.getU32 "height"
  let channels ← config.getU32 "channels"
  let op ← config.getString "op"
  let op ← named ewUnaryOpNamed "element-wise unary 'op'" " (expected abs/neg/floor/ceil/add_scalar)" op
  let operand ← parseOperand config
  unlessErr (operand ≠ 0 → op = .addScalar) (.diagnostic
    "rocket backend: 'operand' is only meaningful for the add_scalar element-wise op")
  let runtime ← parseElementwiseRuntime config width height channels
  return {
    width, height, channels, op, operand, runtimeDimensions := runtime.runtimeDimensions
    runtimeDenseReaders := runtime.runtimeDenseReaders, runtimeLayout := runtime.runtimeLayout }

def buildRocketElementwiseBinaryConfigFromTarget (config : Option DictionaryAttr) :
    Except Failure ElementwiseBinaryDef := do
  let config ← requireElementwise config
  let width ← config.getU32 "width"
  let height ← config.getU32 "height"
  let channels ← config.getU32 "channels"
  let op ← config.getString "op"
  let op ← named ewBinaryOpNamed "element-wise binary 'op'" " (expected add/sub/mul/max/min)" op
  let runtime ← parseElementwiseRuntime config width height channels
  return {
    width, height, channels, op, runtimeDimensions := runtime.runtimeDimensions
    runtimeDenseReaders := runtime.runtimeDenseReaders, runtimeLayout := runtime.runtimeLayout }

def kRequiredElementwiseLutConfigKeys : List String :=
  ["width", "height", "channels", "fn", "input_scale", "output_scale", "input_zero_point",
    "output_zero_point"]

def buildRocketElementwiseLutConfigFromTarget (config : Option DictionaryAttr) :
    Except Failure ElementwiseLutDef := do
  let config ← okOr config (.diagnostic
    "rocket LUT backend requires a non-empty executable target config dict")
  config.requireKeys "rocket LUT executable target config is missing required key '"
    kRequiredElementwiseLutConfigKeys
  let width ← config.getU32 "width"
  let height ← config.getU32 "height"
  let channels ← config.getU32 "channels"
  let fn ← config.getString "fn"
  let fn ← named lutFnNamed "LUT 'fn'" "" fn
  let inputZeroPoint ← config.getInt "input_zero_point"
  let outputZeroPoint ← config.getInt "output_zero_point"
  -- Only these have a confirmed operand of the batch-norm stage.
  unlessErr (inputZeroPoint ∈ ([-128, -2, 0, 127] : List Int)) (.diagnostic
    ("rocket backend: LUT 'input_zero_point' " ++ toString inputZeroPoint ++
      " has no confirmed BN_ALU operand (expected -128, -2, 0 or 127)"))
  unlessErr (-128 ≤ outputZeroPoint ∧ outputZeroPoint ≤ 127) (.diagnostic
    ("rocket backend: LUT 'output_zero_point' " ++ toString outputZeroPoint ++ " does not fit an int8"))
  let inputScale ← config.getF32 "input_scale"
  let outputScale ← config.getF32 "output_scale"
  unlessErr (F32.IsPositive inputScale ∧ F32.IsPositive outputScale)
    (.diagnostic "rocket backend: LUT scales must be finite and positive")
  let runtime ← parseElementwiseRuntime config width height channels
  return {
    width, height, channels, fn, inputZeroPoint := toU32 inputZeroPoint
    outputZeroPoint := toU32 outputZeroPoint, inputScale, outputScale
    runtimeDimensions := runtime.runtimeDimensions, runtimeDenseReaders := runtime.runtimeDenseReaders
    runtimeLayout := runtime.runtimeLayout }

end IreeRocket.Backend
