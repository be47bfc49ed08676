import IreeRocket.Plugin.PlanFfi
import IreeRocket.Plugin.DispatchQuery

/-!
# What `rocket-assign-layout` knows about one dispatch

`describe` derives, for each kind of kernel, the cube each input binding could read in place and the
cube the dispatch publishes. The extents come from the target config and the constant operands; those
of a convolution's output from the planner. The texts that explain a missing cube in the report are
left out.
-/

namespace IreeRocket.Plugin

open Conv PlanFfi

/-- One side of an edge. -/
structure Cube where
  desc : CubeDesc
  wholeAtom : Bool
  exact : Bool
  deriving DecidableEq, Repr

/-- `static_cast<uint64_t>`. -/
def toU64 (value : Int) : Nat := (value % 2 ^ 64).toNat

def cube (kind elementBytes : Nat) (width height channels : Int) : Option Cube :=
  let desc : CubeDesc :=
    { kind, elementBytes, width := toU64 width, height := toU64 height, channels := toU64 channels }
  match cubeGeometryChecked desc with
  | .ok geometry => some { desc, wholeAtom := geometry.isWholeAtom, exact := geometry.isExact }
  | .error _ => none

/-- `rocket_plan_cube_kind_e`. -/
def convCube : Nat := 0
def matmulCube : Nat := 1
def poolingCube : Nat := 2
def elementwiseCube : Nat := 3

/-- `ROCKET_PLAN_PRECISION_INT8_ACCUMULATOR`. -/
def int8AccumulatorCode : Nat := 7

def inputElementBytes (precision : Nat) : Nat := if precision = 0 then 2 else 1

def outputElementBytes (precision : Nat) : Nat :=
  if precision = 0 then 2 else if precision = int8AccumulatorCode then 4 else 1

/-- The quantization of unit scales. -/
def unitQuantization (weightZeroPoint : Int) : Quantization :=
  { inputZeroPoint := 0, outputZeroPoint := 0, weightZeroPoint, multiplier := ⟨16384, 14⟩ }

/-- The geometry half of a site: for each input binding the cube it would be packed to, when the
binding can read a cube at all, and the cube the dispatch publishes. -/
structure Geometry where
  inputs : List (Option Cube)
  output : Option Cube
  deriving DecidableEq, Repr

/-- The dimensions of a convolution. -/
structure ConvDims where
  width : Int
  height : Int
  cin : Int
  cout : Int
  kw : Int
  kh : Int
  stride : Int

def convDims (dim : String → Option Int) : Option ConvDims := do
  let width ← dim "input_width"
  let height ← dim "input_height"
  let cin ← dim "input_channels"
  let cout ← dim "output_channels"
  let kw ← dim "weights_width"
  let kh ← dim "weights_height"
  let stride ← dim "stride"
  return { width, height, cin, cout, kw, kh, stride }

/-- The descriptor of a convolution without an activation: its ceiling is not read. -/
def convDesc (dims : ConvDims) (precision : Nat) (depthwise : Bool) (padTop padLeft : Int)
    (quantization : Quantization) : ConvDesc :=
  { precision, width := toU64 dims.width, height := toU64 dims.height
    inChannels := toU64 dims.cin, outChannels := toU64 dims.cout, stride := toU64 dims.stride
    kernelHeight := toU64 dims.kh, kernelWidth := toU64 dims.kw, padTop, padLeft, activation := 0
    clamp := fun _ => .ok .none, depthwise, quantization := .ok quantization }

def ifExact (out : Option Cube) : Option Cube := out.filter Cube.exact

def ifWholeAtom (out : Option Cube) : Option Cube := out.filter Cube.wholeAtom

/-- The cubes of a convolution whose output extents are known. -/
def convGeometry (dims : ConvDims) (precision : Nat) (depthwise epilogueAdd : Bool)
    (outputWidth outputHeight : Nat) : Geometry :=
  let input :=
    if dims.cin > maxDenseChannels then
      cube convCube (inputElementBytes precision) dims.width dims.height dims.cin
    else none
  let sum := cube elementwiseCube 2 outputWidth outputHeight dims.cout
  if epilogueAdd then { inputs := [input, none, none, sum], output := ifExact sum }
  else
    { inputs := [input, none, none]
      output :=
        -- The depthwise accumulator writer's atom is not the feature atom.
        if depthwise && precision = int8AccumulatorCode then none
        else
          ifWholeAtom
            (cube convCube (outputElementBytes precision) outputWidth outputHeight dims.cout) }

def describeConv (config : Config) (dim : String → Option Int) : Option Geometry := do
  let precision ← config.precisionCode
  let dims ← convDims dim
  let depthwise := config.boolFlag "depthwise"
  let desc := convDesc dims precision depthwise ((dim "pad_top").getD 0) ((dim "pad_left").getD 0)
    (unitQuantization 0)
  match planConvChecked desc with
  | .error _ => return { inputs := [], output := none }
  | .ok plan =>
    return convGeometry dims precision depthwise (config.boolFlag "epilogue_add")
      (plan.shape.outputWidth plan.kernels) (plan.shape.outputHeight plan.kernels)

def describeMatmul (config : Config) (dim : String → Option Int) : Option Geometry := do
  let precision ← config.precisionCode
  let m ← dim "m"
  let k ← dim "k"
  let n ← dim "n"
  -- A `K` of one is read dense.
  let input := if k > 1 then cube matmulCube (inputElementBytes precision) m 1 k else none
  return { inputs := [input, none, none]
           output := ifWholeAtom (cube matmulCube (outputElementBytes precision) m 1 n) }

/-- The output extent of a pool along one axis, where the kernel fits. -/
def poolExtent (input before after kernel stride : Int) : Option Int :=
  let padded := input + before + after
  if kernel ≤ 0 ∨ stride ≤ 0 ∨ padded < kernel then none else some ((padded - kernel) / stride + 1)

def describePooling (config : Config) (dim : String → Option Int) : Option Geometry := do
  let precision ← config.precisionCode
  let width ← dim "input_width"
  let height ← dim "input_height"
  let channels ← dim "channels"
  let kw ← dim "kernel_width"
  let kh ← dim "kernel_height"
  let sx ← dim "stride_x"
  let sy ← dim "stride_y"
  let ow ← poolExtent width ((dim "pad_left").getD 0) ((dim "pad_right").getD 0) kw sx
  let oh ← poolExtent height ((dim "pad_top").getD 0) ((dim "pad_bottom").getD 0) kh sy
  let elem := inputElementBytes precision
  return { inputs := [cube poolingCube elem width height channels, none]
           output := ifExact (cube poolingCube elem ow oh channels) }

def describeElementwise (dim : String → Option Int) : Option Geometry := do
  let width ← dim "width"
  let height ← dim "height"
  let channels ← dim "channels"
  let operand := cube elementwiseCube 2 width height channels
  return { inputs := [operand, operand, none], output := ifExact operand }

/-- `describe`, on a dispatch whose dimensions are read by `dim`. -/
def describe (kernel : String) (config : Config) (dim : String → Option Int) : Option Geometry :=
  if kernel = "conv2d" then describeConv config dim
  else if kernel = "matmul" then describeMatmul config dim
  else if kernel = "pooling" then describePooling config dim
  else if kernel = "elementwise_binary" then describeElementwise dim
  else none

end IreeRocket.Plugin
