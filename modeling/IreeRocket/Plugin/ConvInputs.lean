import IreeRocket.Lib.Reshapes

/-!
# Demoting and promoting the inputs of contractions

The pass that narrows the inputs of all-f32 convolutions and matmuls to f16, and the one that gives those
that were not claimed their f32 inputs back. A function is a list of operations, each with one result; a
block argument is an operation without operands. The values that a pass creates are told apart from those
that it finds by their names. A pattern looks at no definition that a pattern replaces, so each pass is its
patterns on every operation once, in whatever order.
-/

namespace IreeRocket.Plugin.ConvInputs

/-! ### Functions -/

inductive ElementType
  | f16
  | f32
  | other (name : String)
deriving DecidableEq

/-- The type of a value. A dynamic size has no number. -/
inductive ValueType
  | ranked (shape : List (Option Nat)) (element : ElementType)
  | other
deriving DecidableEq

def ValueType.isRankedF32 : ValueType → Bool
  | .ranked _ .f32 => true
  | _ => false

/-- `clone` with another element type. -/
def ValueType.clone (element : ElementType) : ValueType → ValueType
  | .ranked shape _ => .ranked shape element
  | .other => .other

/-- An element, with the bits of a float. -/
inductive Scalar
  | f16 (bits : BitVec 16)
  | f32 (bits : BitVec 32)
  | other (value : Nat)
deriving DecidableEq

/-- `APFloat::isZero`: a zero of either sign. -/
def Scalar.isZero : Scalar → Bool
  | .f16 bits => bits &&& 0x7fff = 0
  | .f32 bits => bits &&& 0x7fffffff = 0
  | .other _ => false

/-- An amount of padding: an attribute, or an operand. -/
inductive Amount (ι : Type)
  | static (amount : Int)
  | dynamic (value : ι)

def Amount.isStatic {ι : Type} : Amount ι → Bool
  | .static _ => true
  | .dynamic _ => false

/-- What a pad yields: a constant, or what its region computes for a position from values outside. -/
inductive Fill (ι : Type)
  | constant (value : Scalar)
  | region (name : String) (captures : List ι)

/-- The named operations that are demoted. -/
inductive Kind
  | conv2D
  | conv2DNchwFchw
  | conv2DNhwcHwcf
  | conv2DNhwcFhwc
  | conv2DNgchwFgchw
  | conv2DNgchwGfchw
  | matmul
  | depthwiseConv2DNhwcHwc
  | depthwiseConv2DNchwChw
deriving DecidableEq

/-- The region of a `linalg.generic`: `arith.truncf` to f16, or another. -/
inductive Region
  | truncF
  | other (name : String)
deriving DecidableEq

/-- Attributes by name, as they are printed. -/
abbrev Attrs := List (String × String)

inductive Body (ι : Type)
  | contraction (kind : Kind) (inputs inits : List ι) (attrs : Attrs)
  | generic (region : Region) (inputs inits : List ι) (attrs : Attrs)
  | pad (source : ι) (low high : List (Amount ι)) (fill : Fill ι)
  | collapse (source : ι) (reassociation : List (List Nat))
  -- what stands where the Rocket match loop claimed an operation
  | call
  | other (name : String) (operands : List ι)

structure Op (ι : Type) where
  result : ι
  type : ValueType
  body : Body ι

abbrev Func (ι : Type) := List (Op ι)

section Lookup

variable {ι : Type} [DecidableEq ι]

/-- `getDefiningOp`. -/
def bodyOf (f : Func ι) (v : ι) : Option (Body ι) := (f.find? fun op => op.result = v).map Op.body

def typeOf (f : Func ι) (v : ι) : ValueType := ((f.find? fun op => op.result = v).map Op.type).getD .other

end Lookup

/-! ### Names of created values -/

inductive Role
  | truncated
  | padded
  | collapsed (depth : Nat)
deriving DecidableEq

/-- The values of a function and those that a pass creates for an operand of an operation. -/
inductive Extended (ι : Type)
  | old (v : ι)
  | new (owner : ι) (operand : Nat) (role : Role)
deriving DecidableEq

section Rename

variable {ι κ : Type} (φ : ι → κ)

def Amount.map : Amount ι → Amount κ
  | .static amount => .static amount
  | .dynamic value => .dynamic (φ value)

def Fill.map : Fill ι → Fill κ
  | .constant value => .constant value
  | .region name captures => .region name (captures.map φ)

def Body.map : Body ι → Body κ
  | .contraction kind inputs inits attrs => .contraction kind (inputs.map φ) (inits.map φ) attrs
  | .generic region inputs inits attrs => .generic region (inputs.map φ) (inits.map φ) attrs
  | .pad source low high fill => .pad (φ source) (low.map (Amount.map φ)) (high.map (Amount.map φ)) (fill.map φ)
  | .collapse source reassociation => .collapse (φ source) reassociation
  | .call => .call
  | .other name operands => .other name (operands.map φ)

def Op.map (op : Op ι) : Op κ := ⟨φ op.result, op.type, op.body.map φ⟩

end Rename

/-! ### Attributes -/

def kDemotedAttrName : String := "rocket.f16_demoted"

def kShapeDefiningAttrNames : List String := ["strides", "dilations", "indexing_maps", "cast"]

def hasAttr (attrs : Attrs) (name : String) : Bool := (attrs.lookup name).isSome

def removeAttr (attrs : Attrs) (name : String) : Attrs := attrs.filter fun attr => attr.1 ≠ name

def setAttr (attrs : Attrs) (name value : String) : Attrs := (name, value) :: removeAttr attrs name

/-- The inherent attributes of a named operation, which `getPrunedAttributeList` elides. -/
def attributeNames : Kind → List String
  | .matmul => ["indexing_maps", "cast", "operandSegmentSizes"]
  | _ => ["dilations", "strides", "operandSegmentSizes"]

def kMemoizedIndexingMapsAttrName : String := "linalg.memoized_indexing_maps"

def getPrunedAttributeList (kind : Kind) (attrs : Attrs) : Attrs :=
  attrs.filter fun attr => attr.1 ∉ attributeNames kind ∧ attr.1 ≠ kMemoizedIndexingMapsAttrName

/-- The attributes of a rebuilt operation: what is not elided, and those that define the shape. -/
def rebuiltAttrs (kind : Kind) (attrs : Attrs) : Attrs :=
  getPrunedAttributeList kind attrs ++
    kShapeDefiningAttrNames.filterMap fun name => (attrs.lookup name).map fun attr => (name, attr)

/-! ### Demotion -/

section Demotion

variable {ι : Type} [DecidableEq ι]

/-- A pad that an input is read through, and the collapse over it. -/
structure PaddedInput (ι : Type) where
  type : ValueType
  source : ι
  low : List (Amount ι)
  high : List (Amount ι)
  fill : Fill ι
  collapse : Option (ValueType × List (List Nat))

def paddedInput (f : Func ι) (value : ι) : Option (PaddedInput ι) :=
  match bodyOf f value with
  | some (.collapse src reassociation) =>
    match bodyOf f src with
    | some (.pad source low high fill) =>
      some ⟨typeOf f src, source, low, high, fill, some (typeOf f value, reassociation)⟩
    | _ => none
  | some (.pad source low high fill) => some ⟨typeOf f value, source, low, high, fill, none⟩
  | _ => none

def isStaticZeroPad (low high : List (Amount ι)) (fill : Fill ι) : Bool :=
  low.all Amount.isStatic && high.all Amount.isStatic &&
    match fill with
    | .constant value => value.isZero
    | _ => false

/-- The pad that the truncation of an input goes below. -/
def demotedThrough (f : Func ι) (value : ι) : Option (PaddedInput ι) :=
  (paddedInput f value).filter fun input =>
    isStaticZeroPad input.low input.high input.fill && (typeOf f input.source).isRankedF32

/-- An elementwise truncation, with its tag. What its empty accumulator holds is not read. -/
def truncateToF16 (f : Func ι) (result : Extended ι) (input : ι) : Op (Extended ι) :=
  ⟨result, (typeOf f input).clone .f16, .generic .truncF [.old input] [] [(kDemotedAttrName, "unit")]⟩

/-- What is created for an input, and the value that takes its place. -/
def demoteInput (f : Func ι) (fresh : Role → Extended ι) (value : ι) : List (Op (Extended ι)) × Extended ι :=
  match demotedThrough f value with
  | some input =>
    let source := truncateToF16 f (fresh .truncated) input.source
    let newPad := ⟨fresh .padded, input.type.clone .f16, .pad source.result (input.low.map (Amount.map .old))
      (input.high.map (Amount.map .old)) (.constant (.f16 0))⟩
    match input.collapse with
    | none => ([source, newPad], fresh .padded)
    | some (type, reassociation) =>
      ([source, newPad, ⟨fresh (.collapsed 0), type.clone .f16, .collapse (fresh .padded) reassociation⟩],
        fresh (.collapsed 0))
  | none => ([truncateToF16 f (fresh .truncated) value], fresh .truncated)

/-- The depthwise convolutions are behind an environment variable. -/
def Kind.isDemoted (depthwise : Bool) : Kind → Bool
  | .depthwiseConv2DNhwcHwc | .depthwiseConv2DNchwChw => depthwise
  | _ => true

/-- The pattern on one operation: what stands in its place. -/
def demoteOp (depthwise : Bool) (f : Func ι) (op : Op ι) : List (Op (Extended ι)) :=
  match op.body with
  | .contraction kind inputs inits attrs =>
    if kind.isDemoted depthwise ∧ ¬ hasAttr attrs kDemotedAttrName ∧
        (inputs ++ inits).all fun operand => (typeOf f operand).isRankedF32 then
      let demoted := inputs.mapIdx fun i value => demoteInput f (.new op.result i) value
      demoted.flatMap Prod.fst ++ [⟨.old op.result, op.type, .contraction kind (demoted.map Prod.snd)
        (inits.map .old) (setAttr (rebuiltAttrs kind attrs) kDemotedAttrName "unit")⟩]
    else [op.map .old]
  | _ => [op.map .old]

/-- `rocket-demote-conv-inputs-to-f16`. -/
def demote (depthwise : Bool) (f : Func ι) : Func (Extended ι) := f.flatMap (demoteOp depthwise f)

/-- A claimed operation is replaced. A pad or a collapse is claimed with what reads it only, and stands where
it was. -/
def claimOp (claimed : ι → Bool) (op : Op ι) : Op ι :=
  match op.body with
  | .pad _ _ _ _ | .collapse _ _ => op
  | _ => if claimed op.result then { op with body := .call } else op

/-- The match loop. -/
def claim (claimed : ι → Bool) (f : Func ι) : Func ι := f.map (claimOp claimed)

end Demotion

/-! ### Promotion -/

section Promotion

variable {κ : Type} [DecidableEq κ]

/-- The source of one of the project's own truncations. -/
def originalF32Source (g : Func κ) (demoted : κ) : Option κ :=
  match bodyOf g demoted with
  | some (.generic _ [source] _ attrs) =>
    if hasAttr attrs kDemotedAttrName ∧ (typeOf g source).isRankedF32 then some source else none
  | _ => none

/-- `originalF32Source`, through collapses and a pad, which are rebuilt. Nothing where the value is none of
these. The fuel bounds the collapses that are followed, of which there are no more than operations. -/
def promotedF32Source (g : Func κ) (fresh : Role → Extended κ) :
    (fuel depth : Nat) → κ → Option (List (Op (Extended κ)) × Extended κ)
  | 0, _, _ => none
  | fuel + 1, depth, demoted =>
    match originalF32Source g demoted with
    | some source => some ([], .old source)
    | none =>
      match bodyOf g demoted with
      | some (.collapse src reassociation) =>
        (promotedF32Source g fresh fuel (depth + 1) src).map fun source =>
          (source.1 ++ [⟨fresh (.collapsed depth), (typeOf g demoted).clone .f32, .collapse source.2 reassociation⟩],
            fresh (.collapsed depth))
      | some (.pad padSource low high _) =>
        match originalF32Source g padSource with
        | some source =>
          if low.all Amount.isStatic ∧ high.all Amount.isStatic then
            some ([⟨fresh .padded, (typeOf g demoted).clone .f32, .pad (.old source) (low.map (Amount.map .old))
              (high.map (Amount.map .old)) (.constant (.f32 0))⟩], fresh .padded)
          else none
        | none => none
      | _ => none

/-- The check of an input before any is rebuilt. -/
def tracesToTruncation (g : Func κ) (input : κ) : Bool :=
  let probe := match bodyOf g input with
    | some (.collapse src _) => src
    | _ => input
  let probe := match bodyOf g probe with
    | some (.pad source _ _ _) => source
    | _ => probe
  (originalF32Source g probe).isSome

/-- The pattern on one operation. Nothing where it would be built with an operand that is null. -/
def promoteOp (g : Func κ) (op : Op κ) : Option (List (Op (Extended κ))) :=
  match op.body with
  | .contraction kind inputs inits attrs =>
    if hasAttr attrs kDemotedAttrName ∧ inputs.all (tracesToTruncation g) then do
      let promoted ← (inputs.mapIdx fun i input =>
        promotedF32Source g (.new op.result i) (g.length + 1) 0 input).mapM id
      pure (promoted.flatMap Prod.fst ++ [⟨.old op.result, op.type, .contraction kind (promoted.map Prod.snd)
        (inits.map .old) (removeAttr (rebuiltAttrs kind attrs) kDemotedAttrName)⟩])
    else some [op.map .old]
  | _ => some [op.map .old]

/-- `rocket-promote-unclaimed-conv-inputs`. -/
def promote (g : Func κ) : Option (Func (Extended κ)) := (g.mapM (promoteOp g)).map List.flatten

end Promotion

end IreeRocket.Plugin.ConvInputs
