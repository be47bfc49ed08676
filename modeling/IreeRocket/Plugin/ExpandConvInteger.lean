import IreeRocket.Core.Error

/-!
# Expanding ConvInteger

The pass that replaces `onnx.ConvInteger` by a quantized torch convolution. Its padding is that of the
convolution where it is the same before and after every axis. Otherwise the input is padded first, by a
list that runs from the innermost axis outwards.
-/

namespace IreeRocket.Plugin.ConvInteger

/-! ### Operations -/

/-- `Torch::kUnknownSize`. -/
def unknownSize : Int := -1

inductive DType
  | ui8
  | si8
  | si32
  | other
deriving DecidableEq

inductive QuantizedDType
  | quint8
  | qint8
  | qint32
deriving DecidableEq

/-- A `!torch.vtensor`. An unranked one has no sizes. -/
structure TensorType where
  sizes : Option (List Int)
  dtype : DType
deriving DecidableEq

inductive ValueType
  | tensor (type : TensorType)
  | other
deriving DecidableEq

/-- An array keeps the place of an element that is no integer. -/
inductive Attr
  | integer (value : Int)
  | string (value : String)
  | array (elements : List (Option Int))
  | other
deriving DecidableEq

/-- A `torch.operator`, with the types of its operands and results. -/
structure Operator where
  name : String
  operands : List ValueType
  results : List ValueType
  attrs : List (String × Attr)
deriving DecidableEq

/-- An array attribute of integers. Absent, or with another element, it is empty. -/
def getIntArrayAttr (op : Operator) (name : String) : List Int :=
  match op.attrs.lookup name with
  | some (.array elements) => (elements.mapM id).getD []
  | _ => []

def getIntAttrOr (op : Operator) (name : String) (fallback : Int) : Int :=
  match op.attrs.lookup name with
  | some (.integer value) => value
  | _ => fallback

def getQuantizedDtype : DType → Option QuantizedDType
  | .ui8 => some .quint8
  | .si8 => some .qint8
  | _ => none

/-! ### Padding -/

/-- `autoPad` of an operation. -/
def autoPadOf (op : Operator) : String :=
  match op.attrs.lookup "torch.onnx.auto_pad" with
  | some (.string value) => value
  | _ => "NOTSET"

/-- The padding of one axis under `SAME_UPPER` and `SAME_LOWER`, before and after. -/
def samePads (autoPad : String) (inputSize kernel stride dilation : Int) : Option (Int × Int) :=
  if inputSize = unknownSize then none
  else
    let effectiveKernel := (kernel - 1) * dilation + 1
    let outputSize := (inputSize + stride - 1).tdiv stride
    let needed := max 0 ((outputSize - 1) * stride + effectiveKernel - inputSize)
    let half := needed.tdiv 2
    if autoPad = "SAME_UPPER" then some (half, needed - half) else some (needed - half, half)

/-- ONNX's list: the padding before every axis, then the padding after every axis. -/
def resolvePads (op : Operator) (inputSizes kernel strides dilations : List Int) :
    Option (List Int) :=
  let spatialRank := kernel.length
  let autoPad := autoPadOf op
  if autoPad = "VALID" then some (List.replicate (2 * spatialRank) 0)
  else if autoPad = "NOTSET" then
    let pads := getIntArrayAttr op "torch.onnx.pads"
    if pads = [] then some (List.replicate (2 * spatialRank) 0)
    else if pads.length ≠ 2 * spatialRank then none
    else some pads
  else if autoPad ≠ "SAME_UPPER" ∧ autoPad ≠ "SAME_LOWER" then none
  else do
    let amounts ← (List.range spatialRank).mapM fun i =>
      samePads autoPad (inputSizes.getD (2 + i) 0) (kernel.getD i 0) (strides.getD i 0)
        (dilations.getD i 0)
    some (amounts.map Prod.fst ++ amounts.map Prod.snd)

/-! ### Emitted values -/

/-- An integer: `torch.constant.int`, or `torch.aten.item` of an operand. -/
inductive Scalar
  | constant (value : Int)
  | item (operand : Nat)
deriving DecidableEq

/-- A tensor. Quantization is at scale 1, and a convolution has no bias and is not transposed. -/
inductive Value
  | operand (index : Nat)
  | constantPadNd (sizes : List Int) (dtype : DType) (input : Value) (pads : List Int) (fill : Scalar)
  | makePerTensorQuantizedTensor (sizes : List Int) (dtype : QuantizedDType) (input : Value)
      (zeroPoint : Scalar)
  | convolution (sizes : List Int) (dtype : QuantizedDType) (input weight : Value)
      (stride padding dilation outputPadding : List Int) (groups : Int)
  | intRepr (type : TensorType) (input : Value)
deriving DecidableEq

/-- A warning, with what stands before the operation that is left. -/
structure Refusal where
  warning : String
  created : List Scalar := []
deriving DecidableEq

/-- A value that is there, or a warning before anything was created. -/
def orWarn {α : Type} (warning : String) (value : Option α) : Except Refusal α :=
  okOr value { warning }

/-- The type and the sizes of a ranked tensor. -/
def rankedOf : ValueType → Option (TensorType × List Int)
  | .tensor type => type.sizes.map fun sizes => (type, sizes)
  | .other => none

/-- A zero point is one element, and zero where the operand is absent. -/
def extractZeroPoint (op : Operator) (index : Nat) : Option Scalar :=
  match op.operands[index]? with
  | none => some (.constant 0)
  | some operand =>
    match rankedOf operand with
    | none => none
    | some (_, sizes) => if sizes.all (· = 1) then some (.item index) else none

/-- The extents of the kernel: those of the weight's type, or the attribute's where it has none. -/
def kernelOf (op : Operator) (spatialRank : Nat) (weightSizes : List Int) : Option (List Int) :=
  let kernelAttr := getIntArrayAttr op "torch.onnx.kernel_shape"
  (List.range spatialRank).mapM fun i =>
    let size := weightSizes.getD (2 + i) 0
    if size ≠ unknownSize then some size
    else if kernelAttr.length ≠ spatialRank then none
    else some (kernelAttr.getD i 0)

/-- `strides` and `dilations` are ones where the attribute is absent. -/
def onesOr (values : List Int) (spatialRank : Nat) : List Int :=
  if values = [] then List.replicate spatialRank 1 else values

/-- The input as the convolution reads it, with its sizes and the convolution's own padding. -/
def paddedInput (spatialRank : Nat) (inputSizes pads : List Int) (dtype : DType) (zeroPoint : Scalar) :
    Value × List Int × List Int :=
  let before i := pads.getD i 0
  let after i := pads.getD (spatialRank + i) 0
  if (List.range spatialRank).all fun i => before i = after i then
    (.operand 0, inputSizes, (List.range spatialRank).map before)
  else
    let padValues := (List.range spatialRank).reverse.flatMap fun i => [before i, after i]
    let paddedSizes := inputSizes.take 2 ++ (List.range spatialRank).map fun i =>
      let size := inputSizes.getD (2 + i) 0
      if size ≠ unknownSize then size + (before i + after i) else size
    (.constantPadNd paddedSizes dtype (.operand 0) padValues zeroPoint, paddedSizes,
      List.replicate spatialRank 0)

/-- The value that replaces the operation's result. -/
def expandConvInteger (op : Operator) : Except Refusal Value := do
  unlessErr (2 ≤ op.operands.length ∧ op.results.length = 1)
    { warning := "onnx.ConvInteger: expected 2-4 operands and one " ++
      "result; left for the ONNX importer to reject" }
  let ranked := "onnx.ConvInteger: expected ranked !torch.vtensor operands and result"
  let (resultType, resultSizes) ← orWarn ranked (op.results[0]?.bind rankedOf)
  let (inputType, inputSizes) ← orWarn ranked (op.operands[0]?.bind rankedOf)
  let (weightType, weightSizes) ← orWarn ranked (op.operands[1]?.bind rankedOf)
  let eightBit := "onnx.ConvInteger: expected 8-bit integer input and weight element types"
  let quantizedInputDtype ← orWarn eightBit (getQuantizedDtype inputType.dtype)
  let quantizedWeightDtype ← orWarn eightBit (getQuantizedDtype weightType.dtype)
  let spatialRank := inputSizes.length - 2
  unlessErr (3 ≤ inputSizes.length ∧ weightSizes.length = spatialRank + 2)
    { warning := "onnx.ConvInteger: input and weight ranks disagree" }
  let kernel ← orWarn "onnx.ConvInteger: dynamic kernel extent with no usable kernel_shape attribute"
    (kernelOf op spatialRank weightSizes)
  let strides := onesOr (getIntArrayAttr op "torch.onnx.strides") spatialRank
  let dilations := onesOr (getIntArrayAttr op "torch.onnx.dilations") spatialRank
  unlessErr (strides.length = spatialRank ∧ dilations.length = spatialRank)
    { warning := "onnx.ConvInteger: strides/dilations do not match the spatial rank" }
  let group := getIntAttrOr op "torch.onnx.group" 1
  let pads ← orWarn ("onnx.ConvInteger: unsupported padding (auto_pad must be NOTSET/VALID, or " ++
    "SAME_* with static spatial input extents)") (resolvePads op inputSizes kernel strides dilations)
  match extractZeroPoint op 2, extractZeroPoint op 3 with
  | some inputZeroPoint, some weightZeroPoint =>
    let (input, paddedSizes, convPadding) :=
      paddedInput spatialRank inputSizes pads inputType.dtype inputZeroPoint
    let quantizedInput :=
      .makePerTensorQuantizedTensor paddedSizes quantizedInputDtype input inputZeroPoint
    let quantizedWeight :=
      .makePerTensorQuantizedTensor weightSizes quantizedWeightDtype (.operand 1) weightZeroPoint
    .ok <| .intRepr resultType <|
      .convolution resultSizes .qint32 quantizedInput quantizedWeight strides convPadding dilations
        (List.replicate spatialRank 0) group
  | inputZeroPoint, weightZeroPoint =>
    .error
      { warning := "onnx.ConvInteger: only per-tensor (scalar) zero points are supported"
        created := inputZeroPoint.toList ++ weightZeroPoint.toList }

/-! ### The pass -/

/-- What stands in an operation's place: an operation that is left, or what was created. -/
inductive Emitted
  | kept (op : Operator)
  | scalar (value : Scalar)
  | replaced (value : Value)
deriving DecidableEq

/-- `runOnOperation`, for one operation of the walk. -/
def runOnOperator (op : Operator) : List Emitted :=
  if op.name ≠ "onnx.ConvInteger" then [.kept op]
  else
    match expandConvInteger op with
    | .ok value => [.replaced value]
    | .error refusal => refusal.created.map .scalar ++ [.kept op]

end IreeRocket.Plugin.ConvInteger
