/-!
# The executable schema

The tables a compiled module carries, one per kernel, as both sides of the FlatBuffer see them. An
enumeration read back may hold a value this schema does not know, `other`. Scales are bit patterns.
-/

namespace IreeRocket.Schema

inductive Precision
  | int8
  | fp16
  | int8Accumulator
  | other (value : Nat)
  deriving DecidableEq, Repr

inductive Activation
  | none
  | relu
  | relux
  | other (value : Nat)
  deriving DecidableEq, Repr

inductive Conv2DDimension
  | inputWidth
  | inputHeight
  | inputChannels
  | outputChannels
  | weightsWidth
  | weightsHeight
  | other (value : Nat)
  deriving DecidableEq, Repr

inductive Conv2DQuantParam
  | outputScale
  | inputZeroPoint
  | outputZeroPoint
  | other (value : Nat)
  deriving DecidableEq, Repr

inductive PoolingMethod
  | avg
  | max
  | min
  | other (value : Nat)
  deriving DecidableEq, Repr

inductive PoolingDimension
  | inputWidth
  | inputHeight
  | channels
  | kernelWidth
  | kernelHeight
  | strideX
  | strideY
  | other (value : Nat)
  deriving DecidableEq, Repr

inductive EwUnaryOp
  | abs
  | neg
  | floor
  | ceil
  | addScalar
  | other (value : Nat)
  deriving DecidableEq, Repr

inductive EwBinaryOp
  | add
  | sub
  | mul
  | max
  | min
  | other (value : Nat)
  deriving DecidableEq, Repr

inductive LutFn
  | sigmoid
  | tanh
  | exp
  | square
  | erf
  | sqrt
  | rsqrt
  | log
  | reciprocal
  | other (value : Nat)
  deriving DecidableEq, Repr

inductive ElementwiseDimension
  | width
  | height
  | channels
  | other (value : Nat)
  deriving DecidableEq, Repr

inductive MatmulDimension
  | m
  | k
  | n
  | other (value : Nat)
  deriving DecidableEq, Repr

structure Conv2DDef where
  inputWidth : Nat
  inputHeight : Nat
  inputChannels : Nat
  outputWidth : Nat
  outputHeight : Nat
  outputChannels : Nat
  weightsWidth : Nat
  weightsHeight : Nat
  stride : Nat
  depthwise : Bool
  inputZeroPoint : Nat
  outputZeroPoint : Nat
  weightsZeroPoint : Nat
  inputScale : Nat
  weightsScale : Nat
  outputScale : Nat
  truncateBits : Nat
  activation : Activation
  activationCmp : Nat
  precision : Precision
  runtimeDimensions : List Conv2DDimension
  padTop : Nat
  padLeft : Nat
  runtimeQuantization : List Conv2DQuantParam
  epilogueAdd : Bool
  epilogueActivation : Activation
  runtimeDenseReaders : Bool
  weightsPacked : Bool
  runtimeLayout : Bool
  deriving DecidableEq, Repr

/-- Deprecated: the same operation as `MatmulDef`, without runtime dimensions. -/
structure FullyConnectedDef where
  m : Nat
  k : Nat
  n : Nat
  inputZeroPoint : Nat
  outputZeroPoint : Nat
  weightsZeroPoint : Nat
  inputScale : Nat
  weightsScale : Nat
  outputScale : Nat
  truncateBits : Nat
  activation : Activation
  activationCmp : Nat
  precision : Precision
  deriving DecidableEq, Repr

structure PoolingDef where
  inputWidth : Nat
  inputHeight : Nat
  channels : Nat
  outputWidth : Nat
  outputHeight : Nat
  kernelWidth : Nat
  kernelHeight : Nat
  strideX : Nat
  strideY : Nat
  padLeft : Nat
  padTop : Nat
  padRight : Nat
  padBottom : Nat
  method : PoolingMethod
  precision : Precision
  runtimeDimensions : List PoolingDimension
  runtimeDenseReaders : Bool
  runtimeLayout : Bool
  deriving DecidableEq, Repr

structure MatmulDef where
  m : Nat
  k : Nat
  n : Nat
  inputZeroPoint : Nat
  outputZeroPoint : Nat
  weightsZeroPoint : Nat
  inputScale : Nat
  weightsScale : Nat
  outputScale : Nat
  truncateBits : Nat
  activation : Activation
  activationCmp : Nat
  precision : Precision
  runtimeDimensions : List MatmulDimension
  runtimeDenseReaders : Bool
  weightsPacked : Bool
  runtimeLayout : Bool
  deriving DecidableEq, Repr

structure ElementwiseUnaryDef where
  width : Nat
  height : Nat
  channels : Nat
  op : EwUnaryOp
  operand : Nat
  runtimeDimensions : List ElementwiseDimension
  runtimeDenseReaders : Bool
  runtimeLayout : Bool
  deriving DecidableEq, Repr

structure ElementwiseBinaryDef where
  width : Nat
  height : Nat
  channels : Nat
  op : EwBinaryOp
  runtimeDimensions : List ElementwiseDimension
  runtimeDenseReaders : Bool
  runtimeLayout : Bool
  deriving DecidableEq, Repr

structure ElementwiseLutDef where
  width : Nat
  height : Nat
  channels : Nat
  fn : LutFn
  inputZeroPoint : Nat
  outputZeroPoint : Nat
  inputScale : Nat
  outputScale : Nat
  runtimeDimensions : List ElementwiseDimension
  runtimeDenseReaders : Bool
  runtimeLayout : Bool
  deriving DecidableEq, Repr

/-- The kernel of an executable's single export. -/
inductive KernelDef
  | conv2d (table : Conv2DDef)
  | fullyConnected (table : FullyConnectedDef)
  | pooling (table : PoolingDef)
  | matmul (table : MatmulDef)
  | elementwiseUnary (table : ElementwiseUnaryDef)
  | elementwiseLut (table : ElementwiseLutDef)
  | elementwiseBinary (table : ElementwiseBinaryDef)
  deriving DecidableEq, Repr

end IreeRocket.Schema
