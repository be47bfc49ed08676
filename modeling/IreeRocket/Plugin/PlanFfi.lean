import IreeRocket.Core.Admission
import IreeRocket.Core.Layout

/-!
# `rocket-plan-ffi`: the planner behind a C ABI

The compiler plugin asks the planner through C descriptors of 64-bit extents. Each entry point narrows
them, builds the planner's own types and reports a status; a panic is caught and reported as an
internal failure. A descriptor's floats enter as what the planner makes of them: `quantization` is the
quantization its three scales and zero points encode, or the refusal of the scales, and `clamp` the
activation its ceiling encodes.
-/

namespace IreeRocket.PlanFfi

open Conv Layout

/-- `rocket_plan_status_e`, less `ROCKET_PLAN_OK`. -/
inductive Status
  | plan (code : PlanErrorCode)
  | invalidArgument
  | layoutMismatch
  deriving DecidableEq, Repr

/-- A boundary-level refusal. -/
structure Refusal where
  status : Status
  message : String
  deriving DecidableEq, Repr

abbrev Boundary := Except Refusal

def invalid {α : Type} (message : String) : Boundary α := .error ⟨.invalidArgument, message⟩

/-- `?` on a planner result under `catch_unwind`. -/
def planner {α : Type} (what : String) : Planner α → Boundary α
  | .ok a => .ok a
  | .error (.refused e) => .error ⟨.plan e.code, e.message⟩
  | .error (.panicked text) =>
    .error ⟨.plan .internal, what ++ " panicked instead of refusing: " ++ text⟩

def narrow (value : Nat) (what : String) : Planner Nat := do
  refuseUnless (value < 2 ^ 32) .hardwareLimit
    (what ++ s!" {value} does not fit the hardware's 32-bit fields")
  return value

/-! ### Descriptors -/

structure ConvDesc where
  precision : Nat
  width : Nat
  height : Nat
  inChannels : Nat
  outChannels : Nat
  stride : Nat
  kernelHeight : Nat
  kernelWidth : Nat
  padTop : Int
  padLeft : Int
  activation : Nat
  clamp : Precision → Planner Activation
  depthwise : Bool
  quantization : Planner Quantization

structure MatmulDesc where
  precision : Nat
  m : Nat
  k : Nat
  n : Nat
  activation : Nat
  clamp : Precision → Planner Activation
  quantization : Planner Quantization

structure CubeDesc where
  kind : Nat
  elementBytes : Nat
  width : Nat
  height : Nat
  channels : Nat
  deriving DecidableEq, Repr

/-- `precision`: the rung of a code, in the entry point `what`. -/
def precision (what : String) (code : Nat) (quantization : Planner Quantization) :
    Boundary Precision :=
  match code with
  | 0 => .ok .fp16
  | 1 => .ok .fp16Accumulator
  | 2 => .ok .bf16
  | 3 => .ok .int16
  | 4 => .ok .tf32
  | 5 => .ok .int4
  | 6 => planner what (quantization.map .int8)
  | 7 => planner what (quantization.map .int8Accumulator)
  | other => invalid s!"precision {other} is not a rocket_plan_precision_e"

def activation (code : Nat) (clamp : Precision → Planner Activation) (precision : Precision) :
    Boundary Activation :=
  match code with
  | 0 => .ok .none
  | 1 => .ok .relu
  | 2 => planner "planner" (clamp precision)
  | other => invalid s!"activation {other} is not a rocket_plan_activation_e"

/-- `try_with_precision` on the narrowed extents of a descriptor. -/
def baseShape (desc : ConvDesc) (precision : Precision) : Planner Shape := do
  let width ← narrow desc.width "width"
  let height ← narrow desc.height "height"
  let stride ← narrow desc.stride "stride"
  let inChannels ← narrow desc.inChannels "input channels"
  let outChannels ← narrow desc.outChannels "output channels"
  Shape.tryWithPrecision .default width height stride inChannels outChannels precision

def kernelsOf (desc : ConvDesc) : Planner Kernels := do
  let height ← narrow desc.kernelHeight "kernel height"
  let width ← narrow desc.kernelWidth "kernel width"
  return (height, width)

def pad (value : Int) (what : String) : Planner Nat := do
  refuseUnless (0 ≤ value ∧ value ≤ 15) .hardwareLimit
    (what ++ s!" padding {value} does not fit the CNA's 4-bit pad field")
  return value.toNat

/-- The padding arm of `plan_conv_checked`. -/
def padded (desc : ConvDesc) (shape : Shape) : Boundary Shape :=
  if desc.padTop = -1 ∧ desc.padLeft = -1 then .ok shape
  else if 0 ≤ desc.padTop ∧ 0 ≤ desc.padLeft then
    planner "planner" do
      let top ← pad desc.padTop "top"
      let left ← pad desc.padLeft "left"
      shape.tryWithPadding (top, left)
  else invalid
    "pad_top and pad_left must both be -1 (planner default) or both be non-negative"

def withDepthwise (depthwise : Bool) (shape : Shape) : Planner Shape :=
  if depthwise then shape.tryWithDepthwise .default else return shape

def planConvChecked (desc : ConvDesc) : Boundary ConvPlan := do
  let precision ← precision "planner" desc.precision desc.quantization
  let shape ← planner "planner" (baseShape desc precision)
  let shape ← padded desc shape
  let activation ← activation desc.activation desc.clamp precision
  let shape ← planner "planner" (shape.tryWithActivation activation)
  let shape ← planner "planner" (withDepthwise desc.depthwise shape)
  let kernels ← planner "planner" (kernelsOf desc)
  planner "planner" (ConvPlan.tryNew .default shape kernels)

/-- The convolution `plan_conv_checked` builds, without planning it. -/
def convShapeChecked (desc : ConvDesc) : Boundary (Shape × Kernels) := do
  let precision ← precision "weight packer" desc.precision desc.quantization
  let shape ← planner "weight packer" (baseShape desc precision)
  let shape ← planner "weight packer" (withDepthwise desc.depthwise shape)
  let kernels ← planner "weight packer" (kernelsOf desc)
  return (shape, kernels)

def matmulShapeChecked (desc : MatmulDesc) : Boundary Fc.Shape := do
  let precision ← precision "weight packer" desc.precision desc.quantization
  planner "weight packer" do
    let m ← narrow desc.m "m"
    let k ← narrow desc.k "k"
    let n ← narrow desc.n "n"
    Fc.Shape.tryNew .default m k n precision

/-! ### Cubes -/

def cubeKind (code : Nat) : Boundary CubeKind :=
  match code with
  | 0 => .ok .conv
  | 1 => .ok .matmul
  | 2 => .ok .pooling
  | 3 => .ok .elementwise
  | other => invalid s!"cube kind {other} is not a rocket_plan_cube_kind_e"

def cubeOf (desc : CubeDesc) : Boundary CubeGeometry := do
  let kind ← cubeKind desc.kind
  planner "layout" do
    let width ← narrow desc.width "width"
    let height ← narrow desc.height "height"
    let channels ← narrow desc.channels "channels"
    cubeGeometry kind desc.elementBytes width height channels

/-- `rocket_plan_cube_geometry`: the geometry, whose storage size is asked for too. -/
def cubeGeometryChecked (desc : CubeDesc) : Boundary CubeGeometry := do
  let geometry ← cubeOf desc
  let _ ← planner "layout" geometry.storageBytes
  return geometry

/-- The `Display` text of a refusal. -/
def refusalText : ChainRefusal → String
  | .partialAtom bytesPerPixel =>
    s!"consumer width {bytesPerPixel} is not a whole number of 16-byte atoms"
  | .consumerPadsChannels bytesPerPixel packedBytesPerPixel =>
    s!"consumer width {bytesPerPixel} packs to {packedBytesPerPixel}, not a whole-atom identity"
  | .pixelCount producer consumer =>
    s!"producer wrote {producer} pixels, consumer reads {consumer}"
  | .surfaceStride producer consumer =>
    s!"producer surfaces {producer} pixels apart, consumer packs at {consumer}"
  | .pixelWidth producer consumer =>
    s!"producer pixel is {producer} bytes, consumer pixel is {consumer}"

/-- `rocket_plan_chain_identity`. -/
def chainIdentityChecked (producer consumer : CubeDesc) : Boundary Unit := do
  let producer ← cubeOf producer
  let consumer ← cubeOf consumer
  match chainIdentity producer consumer with
  | .ok _ => .ok ()
  | .error refusal => .error ⟨.layoutMismatch, refusalText refusal⟩

/-! ### What each entry point establishes -/

theorem planner_ok {α : Type} {what : String} {x : Planner α} {a : α} :
    planner what x = .ok a ↔ x = .ok a := by
  cases x with
  | ok b => simp [planner]
  | error stop => cases stop <;> simp [planner]

theorem narrow_ok {value narrowed : Nat} {what : String} :
    narrow value what = .ok narrowed ↔ value < 2 ^ 32 ∧ value = narrowed := by
  unfold narrow
  simp only [bind_ok, refuseUnless_ok, pure_ok, exists_const]

theorem chainIdentityChecked_ok {producer consumer : CubeDesc} {u : Unit} :
    chainIdentityChecked producer consumer = .ok u ↔
      ∃ g g', cubeOf producer = .ok g ∧ cubeOf consumer = .ok g' ∧ chainIdentity g g' = .ok () := by
  unfold chainIdentityChecked
  simp only [bind_ok]
  constructor
  · rintro ⟨g, hg, g', hg', h⟩
    refine ⟨g, g', hg, hg', ?_⟩
    cases hidentity : chainIdentity g g' with
    | ok u => rfl
    | error refusal => simp [hidentity] at h
  · rintro ⟨g, g', hg, hg', h⟩
    exact ⟨g, hg, g', hg', by rw [h]⟩

end IreeRocket.PlanFfi
