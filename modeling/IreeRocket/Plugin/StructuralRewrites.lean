import IreeRocket.Core.Error
import IreeRocket.Lib.Linalg

/-!
# Structural rewrites

The passes that rebuild a named operation as one that is matched: `matvec` and `vecmat` as a `matmul`, a
`batch_matmul` as a `matmul` for each entry of the batch, and `conv_2d_nchw_fchw_q` as
`conv_2d_nhwc_hwcf_q`. A pattern fails with a reason, or it gives the value that replaces the result of the
operation, as a tree of what it creates.
-/

namespace IreeRocket.Plugin.Structural

open Linalg

variable {F : Floats}

/-! ### Operations -/

/-- A shape of a type. A dynamic size has no number. -/
abbrev TypeShape := List (Option Nat)

inductive OperandType (F : Floats)
  | rankedTensor (shape : TypeShape) (element : ElementType F)
  | memref (shape : TypeShape) (element : ElementType F)
  | scalar (element : ElementType F)

def OperandType.element : OperandType F → ElementType F
  | .rankedTensor _ element | .memref _ element | .scalar element => element

def OperandType.shape : OperandType F → TypeShape
  | .rankedTensor shape _ | .memref shape _ => shape
  | .scalar _ => []

/-- `dyn_cast<RankedTensorType>`. -/
def OperandType.rankedTensor? : OperandType F → Option TypeShape
  | .rankedTensor shape _ => some shape
  | _ => none

def OperandType.IsMemref : OperandType F → Bool
  | .memref _ _ => true
  | _ => false

/-- The operations that are rewritten, with their attributes. -/
inductive OpName
  | matvec
  | vecmat
  | batchMatmul (indexingMaps : Contraction) (cast : TypeFn)
  | conv2dNchwFchwQ (strides dilations : List Int)

/-- A named operation with the types of its operands. -/
structure Operation (F : Floats) where
  name : OpName
  inputs : List (OperandType F)
  inits : List (OperandType F)

namespace Operation

def inputType (op : Operation F) (i : Nat) : OperandType F := op.inputs.getD i (.scalar (.integer 0))

def initType (op : Operation F) (i : Nat) : OperandType F := op.inits.getD i (.scalar (.integer 0))

def inputElement (op : Operation F) (i : Nat) : ElementType F := (op.inputType i).element

def initElement (op : Operation F) (i : Nat) : ElementType F := (op.initType i).element

/-- Some operand is a tensor, and none is a buffer. -/
def hasPureTensorSemantics (op : Operation F) : Bool :=
  (op.inputs ++ op.inits).all (fun type => !type.IsMemref) &&
    (op.inputs ++ op.inits).any fun type => type.rankedTensor?.isSome

end Operation

/-! ### Created values -/

/-- A size: a constant, or `tensor.dim` of the value that is reshaped. -/
inductive Size
  | constant (size : Nat)
  | dim (index : Nat)

/-- A value, as the operations that compute it from the operands. -/
inductive Value (op : Operation F) : ElementType F → Type
  | input (i : Nat) : Value op (op.inputElement i)
  | init (i : Nat) : Value op (op.initElement i)
  | expandShape {e : ElementType F} (type : TypeShape) (source : Value op e) (reassociation : List (List Nat))
      (outputShape : List Size) : Value op e
  | collapseShape {e : ElementType F} (type : TypeShape) (source : Value op e)
      (reassociation : List (List Nat)) : Value op e
  | extractSlice {e : ElementType F} (type : TypeShape) (source : Value op e) (slice : Slice) : Value op e
  | insertSlice {e : ElementType F} (source destination : Value op e) (slice : Slice) : Value op e
  | transpose {e : ElementType F} (type : TypeShape) (source : Value op e) (empty : List Size)
      (permutation : List Nat) : Value op e
  | matmul {a b c : ElementType F} (cast : TypeFn) (lhs : Value op a) (rhs : Value op b) (init : Value op c) :
      Value op c
  | conv2dNhwcHwcfQ {x w xz wz y : ElementType F} (strides dilations : List Int) (input : Value op x)
      (filter : Value op w) (inputZeroPoint : Value op xz) (filterZeroPoint : Value op wz)
      (init : Value op y) : Value op y

variable {op : Operation F} {e : ElementType F}

/-- The shape of the type of a value. -/
def Value.shape : {e : ElementType F} → Value op e → TypeShape
  | _, .input i => (op.inputType i).shape
  | _, .init i => (op.initType i).shape
  | _, .expandShape type _ _ _ | _, .collapseShape type _ _ | _, .extractSlice type _ _
  | _, .transpose type _ _ _ => type
  | _, .insertSlice _ destination _ => destination.shape
  | _, .matmul _ _ _ accumulator | _, .conv2dNhwcHwcfQ _ _ _ _ _ _ accumulator => accumulator.shape

/-- `getDimSize` of a type. -/
def dimSize (shape : TypeShape) (i : Nat) : Option Nat := shape.getD i none

/-- `getMixedSizes` of one dimension: a constant where the type has it. -/
def mixedSize (shape : TypeShape) (i : Nat) : Size :=
  match dimSize shape i with
  | some size => .constant size
  | none => .dim i

/-! ### matvec and vecmat -/

/-- A vector as a matrix with its extent at `vectorDim` and a unit extent at the other dimension. -/
def expandToRank2 (value : Value op e) (vectorDim : Nat) : Value op e :=
  let shape := [some 1, some 1].set vectorDim (dimSize value.shape 0)
  let outputShape := [Size.constant 1, Size.constant 1].set vectorDim (mixedSize value.shape 0)
  .expandShape shape value [[0, 1]] outputShape

/-- `matvec` has its vector in operand 1 and at dimension 0, `vecmat` in operand 0 and at dimension 1. -/
def expandGemvToMatmul (vectorOperand vectorDim : Nat) (op : Operation F) :
    Except String (Value op (op.initElement 0)) := do
  unlessErr op.hasPureTensorSemantics "not on tensors"
  unlessErr (op.inputs.length = 2 ∧ op.inits.length = 1) "unexpected operand count"
  unlessErr ((op.initType 0).rankedTensor?.any fun shape => shape.length = 1) "accumulator is not rank 1"
  unlessErr (op.inputs.all fun input => input.rankedTensor?.isSome) "operand is not a tensor"
  let lhs := if vectorOperand = 0 then expandToRank2 (.input 0) vectorDim else .input 0
  let rhs := if vectorOperand = 1 then expandToRank2 (.input 1) vectorDim else .input 1
  let expandedInit := expandToRank2 (.init 0) vectorDim
  -- created without attributes, so the operands are cast as signed
  let matmulOp := Value.matmul .castSigned lhs rhs expandedInit
  pure (.collapseShape (op.initType 0).shape matmulOp [[0, 1]])

/-! ### batch_matmul -/

/-- Larger batches are left alone. -/
def kMaxUnbatchedBatch : Nat := 64

/-- A tensor of rank 3 without its batch dimension. The shape is static where this is called. -/
def sliceBatch (value : Value op e) (index : Nat) : Value op e :=
  let extent i := (dimSize value.shape i).getD 0
  .extractSlice [dimSize value.shape 1, dimSize value.shape 2] value
    ⟨[index, 0, 0], [1, extent 1, extent 2], [1, 1, 1]⟩

/-- One entry of the batch, written into the result so far. -/
def unbatchStep (op : Operation F) (result : Value op (op.initElement 0)) (index : Nat) :
    Value op (op.initElement 0) :=
  let extent i := (dimSize (op.initType 0).shape i).getD 0
  -- created without attributes, whatever the cast of the batch
  let matmulOp := Value.matmul .castSigned (sliceBatch (.input 0) index) (sliceBatch (.input 1) index)
    (sliceBatch (.init 0) index)
  .insertSlice matmulOp result ⟨[index, 0, 0], [1, extent 1, extent 2], [1, 1, 1]⟩

/-- The slices are built from constants. -/
def checkBatchOperand (input : OperandType F) : Except String Unit := do
  unlessErr (input.rankedTensor?.any fun shape => shape.length = 3) "operand is not rank 3"
  unlessErr (input.shape.all Option.isSome) "dynamic operand extents"

/-- Splits a batch with the maps of the operation into its entries. -/
def unbatchMatmul (indexingMaps : Contraction) (op : Operation F) :
    Except String (Value op (op.initElement 0)) := do
  unlessErr op.hasPureTensorSemantics "not on tensors"
  unlessErr (op.inputs.length = 2 ∧ op.inits.length = 1) "unexpected operand count"
  unlessErr (indexingMaps = batchMatmulMaps) "user-defined indexing maps"
  unlessErr ((op.initType 0).rankedTensor?.any fun shape => shape.length = 3) "accumulator is not rank 3"
  let _ ← op.inputs.mapM checkBatchOperand
  unlessErr ((op.initType 0).shape.all Option.isSome) "dynamic accumulator extents"
  let batch := (dimSize (op.initType 0).shape 0).getD 0
  unlessErr (some batch = dimSize (op.inputType 0).shape 0 ∧ some batch = dimSize (op.inputType 1).shape 0)
    "operand batches disagree"
  unlessErr (1 < batch) "unit or empty batch"
  unlessErr (batch ≤ kMaxUnbatchedBatch) "batch above the bound"
  pure ((List.range batch).foldl (unbatchStep op) (.init 0))

/-! ### conv_2d_nchw_fchw_q -/

/-- `linalg.transpose` into an empty tensor of the permuted sizes. -/
def transposeTo (source : Value op e) (permutation : List Nat) : Value op e :=
  .transpose (permutation.map (dimSize source.shape)) source (permutation.map (mixedSize source.shape)) permutation

/-- The operands in the other layout, and the result back in its own. -/
def transposeQuantizedConvToNhwc (strides dilations : List Int) (op : Operation F) :
    Except String (Value op (op.initElement 0)) := do
  unlessErr op.hasPureTensorSemantics "expected tensor semantics"
  unlessErr ((op.inputType 0).rankedTensor?.isSome ∧ (op.inputType 1).rankedTensor?.isSome ∧
    (op.initType 0).rankedTensor?.isSome) "expected ranked tensors"
  let nhwcInput := transposeTo (.input 0) [0, 2, 3, 1]
  let hwcfFilter := transposeTo (.input 1) [2, 3, 1, 0]
  let nhwcInit := transposeTo (.init 0) [0, 2, 3, 1]
  let nhwcConv := Value.conv2dNhwcHwcfQ strides dilations nhwcInput hwcfFilter (.input 2) (.input 3) nhwcInit
  pure (transposeTo nhwcConv [0, 3, 1, 2])

/-! ### The patterns -/

/-- What replaces the result of an operation that a pattern accepts. -/
def rewrite (op : Operation F) : Except String (Value op (op.initElement 0)) :=
  match op.name with
  | .matvec => expandGemvToMatmul 1 0 op
  | .vecmat => expandGemvToMatmul 0 1 op
  | .batchMatmul indexingMaps _ => unbatchMatmul indexingMaps op
  | .conv2dNchwFchwQ strides dilations => transposeQuantizedConvToNhwc strides dilations op

end IreeRocket.Plugin.Structural
