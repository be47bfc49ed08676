import IreeRocket.Lib.Padding

/-!
# Recording a convolution's padding

The fold-conv-pad pass records on a convolution the amounts of the `tensor.pad` its input comes from, so
that the accelerator can pad instead. It walks up through at most four reshapes to the pad, and takes the
padded axes from the pad's rank alone; what the reshapes do to those axes is not looked at. After the marks,
the fills of the pads it has met are sunk into their regions.

Extents are those of a run, where a type may leave them open.
-/

namespace IreeRocket.Plugin.FoldConvPad

open RowMajor

/-! ### The operations -/

/-- A float type: the constants that `APFloat::isZero` accepts, and its `0.0`. -/
structure FloatType (α : Type) where
  isZero : α → Bool
  zero : α
  one : α
  isZero_zero : isZero zero = true
  isZero_one : isZero one = false

/-- An amount of a `tensor.pad`; a dynamic one by its value in a run. -/
inductive Amount
  | static (value : Int)
  | dynamic (value : Int)
  deriving DecidableEq, Repr

namespace Amount

/-- `ShapedType::kDynamic`. -/
def kDynamic : Int := -2 ^ 63

/-- The amount in `getStaticLow` and `getStaticHigh`. -/
def staticValue : Amount → Int
  | static value => value
  | dynamic _ => kDynamic

def isStatic : Amount → Bool
  | static _ => true
  | dynamic _ => false

/-- The amount in a run. -/
def value : Amount → Int
  | static value => value
  | dynamic value => value

end Amount

/-- What the region of a pad yields: a float constant, defined in the region or above it, or something
else. -/
inductive Yielded (α : Type)
  | constant (value : α) (inside : Bool)
  | computed
  deriving DecidableEq, Repr

/-- `tensor.pad`. Its region has a yield where its first block ends in a `tensor.yield`. -/
structure PadOp (α : Type) where
  low : List Amount
  high : List Amount
  blocks : Nat
  yield : Option (Yielded α)
  deriving DecidableEq, Repr

/-- The products of an extent list's groups of adjacent axes. -/
def groupProducts : List Nat → List Nat → List Nat
  | [], _ => []
  | size :: sizes, shape => (shape.take size).prod :: groupProducts sizes (shape.drop size)

/-- A reassociation covers the axes of the finer shape, or collapses unit extents to a scalar. -/
def Reassociated (sizes fine coarse : List Nat) : Prop :=
  coarse = groupProducts sizes fine ∧ (sizes.sum = fine.length ∨ sizes = [] ∧ fine.prod = 1)

/-- `tensor.collapse_shape` and `tensor.expand_shape`, with the sizes of their reassociation's groups. -/
inductive Reshape
  | collapse (sizes : List Nat)
  | expand (sizes shape : List Nat)
  deriving DecidableEq, Repr

namespace Reshape

def shape : Reshape → List Nat → List Nat
  | collapse sizes, source => groupProducts sizes source
  | expand _ shape, _ => shape

/-- The reassociation of a reshape takes one shape to another. -/
def Relates : Reshape → List Nat → List Nat → Prop
  | collapse sizes, source, result => Reassociated sizes source result
  | expand sizes _, source, result => Reassociated sizes result source

end Reshape

/-- An SSA value, as far as the pass looks. Pads are named by their place among a module's. -/
inductive Value
  | result (shape : List Nat)
  | reshape (op : Reshape) (source : Value)
  | pad (index : Nat) (source : Value)
  deriving DecidableEq, Repr

inductive ConvOp
  | conv2DNhwcHwcf
  | depthwiseConv2DNhwcHwc
  | depthwiseConv2DNchwChw
  deriving DecidableEq, Repr

/-- The axis of the height in a convolution's own layout; the width is the next. -/
def ConvOp.spatialH : ConvOp → Nat
  | conv2DNhwcHwcf | depthwiseConv2DNhwcHwc => 1
  | depthwiseConv2DNchwChw => 2

/-- An operation in the body of a `linalg.generic`. -/
inductive BodyOp
  | addf
  | maximumf
  | other
  deriving DecidableEq, Repr

/-- The operation at a use of a convolution's result. -/
inductive User
  | generic (dpsInputs : Nat) (body : List BodyOp)
  | other
  deriving DecidableEq, Repr

structure Conv where
  op : ConvOp
  inputs : List Value
  uses : List User
  padTop : Option Int
  padLeft : Option Int
  deriving DecidableEq, Repr

structure Module (α : Type) where
  pads : List (PadOp α)
  convs : List Conv
  deriving DecidableEq, Repr

variable {α : Type}

/-- The shape of a pad's result. -/
def PadOp.shape (op : PadOp α) (source : List Nat) : List Nat :=
  (axesOf (op.low.map Amount.value) source (op.high.map Amount.value)).map Axis.padded

def Value.shape (pads : List (PadOp α)) : Value → List Nat
  | result shape => shape
  | reshape op source => op.shape (source.shape pads)
  | pad index source => (pads[index]?.map fun op => op.shape (source.shape pads)).getD (source.shape pads)

/-! ### The pass -/

/-- `kMaxPad`, the largest pad the 4-bit fields hold. -/
def kMaxPad : Int := 15

/-- `matchSymmetricSpatialPad`. -/
def matchSymmetricSpatialPad (float : FloatType α) (pad : PadOp α) (spatial : Nat × Nat) :
    Option (Int × Int) := do
  let low := pad.low.map Amount.staticValue
  let high := pad.high.map Amount.staticValue
  guard (low.length = high.length)
  guard (pad.low.all Amount.isStatic ∧ pad.high.all Amount.isStatic)
  guard <| ∀ dim < low.length,
    if dim = spatial.1 ∨ dim = spatial.2 then
      low.getD dim 0 = high.getD dim 0 ∧ 0 ≤ low.getD dim 0 ∧ low.getD dim 0 ≤ kMaxPad
    else low.getD dim 0 = 0 ∧ high.getD dim 0 = 0
  let padHeight := low.getD spatial.1 0
  let padWidth := low.getD spatial.2 0
  guard ¬ (padHeight = 0 ∧ padWidth = 0)
  guard (pad.blocks = 1)
  match ← pad.yield with
  | .constant fill _ => guard (float.isZero fill)
  | .computed => none
  return (padHeight, padWidth)

/-- A convolution another pass has claimed: its only use adds and clamps, with four inputs. -/
def fusedActivation (uses : List User) : Bool :=
  match uses with
  | [.generic 4 (.addf :: .maximumf :: _)] => true
  | _ => false

/-- The reshapes met from a value upward, at most as many as are left to walk, and where the walk ends. -/
def walk : Nat → Value → List Reshape × Value
  | left + 1, .reshape op source => ((op :: (walk left source).1), (walk left source).2)
  | _, value => ([], value)

/-- What a convolution is marked with, and the pad it was taken from. -/
structure Mark where
  padTop : Int
  padLeft : Int
  pad : Nat
  deriving DecidableEq, Repr

/-- `MarkPaddedConv::matchAndRewrite`. -/
def matchAndRewrite (float : FloatType α) (pads : List (PadOp α)) (conv : Conv) : Option Mark := do
  guard conv.padTop.isNone
  guard ¬ fusedActivation conv.uses
  let input ← conv.inputs[0]?
  match (walk 4 input).2 with
  | .pad index source =>
    let pad ← pads[index]?
    let rank := ((Value.pad index source).shape pads).length
    guard (4 ≤ rank ∧ rank ≤ 5)
    let shift := rank - 4
    let (padTop, padLeft) ← matchSymmetricSpatialPad float pad (conv.op.spatialH + shift, conv.op.spatialH + 1 + shift)
    return { padTop, padLeft, pad := index }
  | _ => none

def Conv.mark (conv : Conv) (mark : Mark) : Conv :=
  { conv with padTop := some mark.padTop, padLeft := some mark.padLeft }

/-- A claimed pad yields a zero of its own. -/
def PadOp.sinkFill (float : FloatType α) (pad : PadOp α) : PadOp α :=
  match pad.yield with
  | some (.constant _ true) => pad
  | _ => { pad with yield := some (.constant float.zero true) }

/-- `runOnOperation`. A mark reads nothing that another one changes, and a marked convolution is left alone,
so the order of the driver does not matter. -/
def Module.runOnOperation (float : FloatType α) (module : Module α) : Module α :=
  let marks := module.convs.map (matchAndRewrite float module.pads)
  let claimed := marks.filterMap fun mark => mark.map Mark.pad
  { pads := module.pads.mapIdx fun index pad => if index ∈ claimed then pad.sinkFill float else pad
    convs := module.convs.map fun conv =>
      ((matchAndRewrite float module.pads conv).map conv.mark).getD conv }

end IreeRocket.Plugin.FoldConvPad
