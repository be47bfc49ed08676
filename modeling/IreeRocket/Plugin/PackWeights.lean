import IreeRocket.Plugin.DeclaredEdge
import IreeRocket.Plugin.PackBoundary

/-!
# `rocket-pack-weights`

The pass follows a dispatch's weights operand through reshapes back to an immutable initialized global,
packs the global's bytes with a descriptor read from the target config and the constant operands, and
points the dispatch at the packed bytes. What it packs once it reuses, under a textual key. The driver
then binds those bytes where it would have run its own packer on the shape the dispatch resolves to.
-/

namespace IreeRocket.Plugin

open Conv Layout PlanFfi Driver Weights

/-! ### Requests -/

/-- `static_cast<int32_t>`. -/
def toI32 (value : Int) : Int := Int.bmod value (2 ^ 32)

/-- A conv or a matmul descriptor, in the values it is filled with. -/
inductive PackDesc
  | conv (precision : Nat) (dims : ConvDims) (depthwise : Bool) (weightZeroPoint : Int)
  | matmul (precision : Nat) (m k n : Int) (weightZeroPoint : Int)

namespace PackDesc

def key : PackDesc → String
  | conv precision dims depthwise weightZeroPoint =>
    "conv2d|" ++ toString precision ++ "|" ++ (if depthwise then "dw|" else "") ++
      toString dims.width ++ "x" ++ toString dims.height ++ "x" ++ toString dims.cin ++ "->" ++
      toString dims.cout ++ "|k" ++ toString dims.kh ++ "x" ++ toString dims.kw ++ "|s" ++
      toString dims.stride ++ "|zp" ++ toString weightZeroPoint
  | matmul precision m k n _ =>
    "matmul|" ++ toString precision ++ "|" ++ toString m ++ "x" ++ toString k ++ "x" ++ toString n

/-- The convolution descriptor: the planner's default padding, no activation and unit scales. -/
def convRequest (precision : Nat) (dims : ConvDims) (depthwise : Bool) (weightZeroPoint : Int) :
    ConvDesc :=
  convDesc dims precision depthwise (-1) (-1) (unitQuantization weightZeroPoint)

def matmulRequest (precision : Nat) (m k n weightZeroPoint : Int) : MatmulDesc :=
  { precision, m := toU64 m, k := toU64 k, n := toU64 n, activation := 0
    clamp := fun _ => .ok .none, quantization := .ok (unitQuantization weightZeroPoint) }

/-- The call of the packer. -/
def call (desc : PackDesc) (dense packed : Option Bytes) : PackOutcome :=
  match desc with
  | conv precision dims depthwise weightZeroPoint =>
    rocketPackConvWeights (convRequest precision dims depthwise weightZeroPoint) dense packed
  | matmul precision m k n weightZeroPoint =>
    rocketPackMatmulWeights (matmulRequest precision m k n weightZeroPoint) dense packed

/-- A size query, and a second call into a vector of that size. -/
def pack (desc : PackDesc) (bytes : Bytes) : Option Bytes :=
  match desc.call (some bytes) none with
  | { result := .ok _, packedLength := some length, packed := _ } =>
    match desc.call (some bytes) (some (List.replicate length 0)) with
    | { result := .ok _, packedLength := _, packed } => packed
    | _ => none
  | _ => none

end PackDesc

structure PackRequest where
  desc : PackDesc
  elementBytes : Nat
  weightsIndex : Nat

def readDesc (kernel : String) (config : Config) (dim : String → Option Int) (precision : Nat) :
    Option PackDesc :=
  let weightZeroPoint := toI32 ((config.integerAttr "weights_zero_point").getD 0)
  if kernel = "matmul" then do
    let m ← dim "m"
    let k ← dim "k"
    let n ← dim "n"
    return .matmul precision m k n weightZeroPoint
  else if kernel = "conv2d" then do
    let dims ← convDims dim
    return .conv precision dims (config.boolFlag "depthwise") weightZeroPoint
  else none

def readRequest (m : Module) (config : Config) (dispatch : Dispatch) : Option PackRequest := do
  let kernel ← config.stringAttr "kernel"
  let precision ← config.precisionCode
  guard (config.constantCount + 2 ≤ dispatch.arguments.length)
  let desc ← readDesc kernel config (m.dimension config dispatch.arguments) precision
  return { desc, elementBytes := inputElementBytes precision
           weightsIndex := config.constantCount + 1 }

/-! ### Globals -/

/-- A global's initial value: a splat with its one element and its count, the raw data of a dense
attribute, the blob of a resource, or an attribute of another kind. -/
inductive InitialValue
  | splat (element : Bytes) (count : Int)
  | dense (bytes : Bytes)
  | resource (blob : Option Bytes)
  | other
  deriving DecidableEq, Repr

/-- The raw bytes of an initialized global, splats expanded. -/
def rawBytes : InitialValue → Option Bytes
  | .splat element count =>
    if element = [] ∨ count ≤ 0 then none else some (List.replicate count.toNat element).flatten
  | .dense bytes => some bytes
  | .resource blob => blob
  | .other => none

structure Global where
  name : String
  isMutable : Bool
  initial : Option InitialValue
  deriving DecidableEq, Repr

/-- What the pass reads of a module beyond its operations: which of its metadata operations are
reshapes, which global a value is loaded from, the globals, and the element width of a value of static
shape. -/
structure Filters where
  isReshape : Nat → Bool
  load : Value → Option String
  globals : List Global
  elementBits : Value → Option Nat

namespace Module

variable (m : Module) (f : Filters)

/-- The weights operand, back through the shim's reshapes. -/
def throughFlowReshapes : Nat → Value → Value
  | 0, value => value
  | fuel + 1, value =>
    match value, m.relayed value with
    | .result op _, some source => if f.isReshape op then throughFlowReshapes fuel source else value
    | _, _ => value

/-- The global a request's weights are loaded from, where it is immutable and as wide as the
precision asks, with its initial value. -/
def filterOf (dispatch : Dispatch) (request : PackRequest) : Option (String × InitialValue) := do
  let weights ← dispatch.arguments[request.weightsIndex]?
  let source := m.throughFlowReshapes f m.ops.length weights
  let name ← f.load source
  let global ← f.globals.find? fun global => global.name = name
  guard (!global.isMutable)
  let initial ← global.initial
  let bits ← f.elementBits source
  guard (bits = request.elementBytes * 8)
  return (global.name, initial)

/-- A dispatch the pass could pack: its request, and the global its weights are loaded from. -/
def candidate (op : Nat) : Option (PackRequest × String × InitialValue) :=
  match m.ops[op]? with
  | some (.dispatch dispatch) => do
    let target ← dispatch.target
    guard (!target.config.boolFlag "weights_packed")
    let request ← readRequest m target.config dispatch
    let (name, initial) ← m.filterOf f dispatch request
    return (request, name, initial)
  | _ => none

def globalKey (name : String) (desc : PackDesc) : String := name ++ "|" ++ desc.key

/-- One dispatch: the packed globals after it, and the bytes it is pointed at where it is rewritten. -/
def packDispatch (packedGlobals : List (String × Bytes)) (op : Nat) :
    List (String × Bytes) × Option Bytes :=
  match m.candidate f op with
  | none => (packedGlobals, none)
  | some (request, name, initial) =>
    let key := globalKey name request.desc
    match packedGlobals.lookup key with
    | some packed => (packedGlobals, some packed)
    | none =>
      match (rawBytes initial).bind request.desc.pack with
      | some packed => ((key, packed) :: packedGlobals, some packed)
      | none => (packedGlobals, none)

def packFrom (packedGlobals : List (String × Bytes)) : List Nat → List (Nat × Bytes)
  | [] => []
  | op :: rest =>
    match m.packDispatch f packedGlobals op with
    | (packedGlobals, some packed) => (op, packed) :: packFrom packedGlobals rest
    | (packedGlobals, none) => packFrom packedGlobals rest

/-- The pass: each rewritten dispatch with the bytes it is pointed at. -/
def packWeights : List (Nat × Bytes) := m.packFrom f [] (List.range m.ops.length)

end Module

end IreeRocket.Plugin
