import IreeRocket.Core.Plan

/-!
# Admission, and the fully-connected lowering

`admitConv` and `admitMatmul` are what the compiler is willing to claim: an envelope of channel counts
for each precision class, kernel and stride, asked before the spatial extents are known. A matmul is
planned as a convolution whose width is `M`, one row high, under a 1x1 kernel (`Fc.Plan.tryNew`).
-/

namespace IreeRocket

open Conv

/-- The channel envelope for one shape class. -/
structure ChannelCeilings where
  inChannels : Nat
  outChannels : Nat
  minOutChannels : Nat
  deriving DecidableEq, Repr

def maxAdmittedStride : Nat := 4

/-- A convolution the compiler is considering claiming. -/
structure ConvAdmission where
  precision : Precision
  depthwise : Bool
  kernelHeight : Nat
  kernelWidth : Nat
  stride : Nat
  inChannels : Nat
  outChannels : Nat
  deriving DecidableEq, Repr

/-- A matmul the compiler is considering claiming, `[m, k] x [k, n]`. -/
structure MatmulAdmission where
  precision : Precision
  m : Nat
  k : Nat
  n : Nat
  deriving DecidableEq, Repr

/-- How the precision table is keyed. -/
inductive PrecisionClass
  | fp16
  | int8Accumulator
  | int8Requant
  deriving DecidableEq, Repr

namespace PrecisionClass

def of : Precision → Option PrecisionClass
  | .fp16 => some fp16
  | .int8Accumulator _ => some int8Accumulator
  | .int8 _ => some int8Requant
  | _ => none

theorem of_fp16 {p : Precision} (h : of p = some fp16) : p = .fp16 := by
  cases p <;> simp_all [of]

def name : PrecisionClass → String
  | fp16 => "fp16"
  | int8Accumulator => "int8 (accumulator)"
  | int8Requant => "int8 (requantized)"

end PrecisionClass

/-- The table of `conv_ceilings`, for a stride that is admitted. -/
def classCeilings (cls : PrecisionClass) (depthwise : Bool) (kernel stride : Nat) :
    Option ChannelCeilings :=
  match cls, depthwise, kernel with
  | .fp16, true, 1 | .fp16, true, 3 => some ⟨1536, 1536, 1⟩
  | .fp16, false, 1 =>
    if stride ≤ 2 then some ⟨maxInputChannels, maxOutputChannels, 1⟩ else some ⟨512, 512, 1⟩
  | .fp16, false, 3 => if stride ≤ 2 then some ⟨1152, maxOutputChannels, 1⟩ else some ⟨512, 512, 1⟩
  | .int8Accumulator, false, 1 => some ⟨maxInt8InputChannels, maxInt8OutputChannels, 1⟩
  | .int8Accumulator, false, 3 => some ⟨1152, 512, 1⟩
  | .int8Accumulator, true, 1 | .int8Accumulator, true, 3 => some ⟨1344, 1344, 1⟩
  | .int8Requant, false, 1 => some ⟨1344, 1792, 16⟩
  | .int8Requant, false, 3 => some ⟨768, 768, 16⟩
  | .int8Requant, true, 1 | .int8Requant, true, 3 => some ⟨1344, 1344, 1⟩
  | _, _, _ => none

def convCeilings (precision : Precision) (depthwise : Bool) (kernel stride : Nat) :
    Option ChannelCeilings :=
  match PrecisionClass.of precision with
  | none => none
  | some cls =>
    if stride = 0 ∨ stride > maxAdmittedStride then none
    else classCeilings cls depthwise kernel stride

def admitConv (admission : ConvAdmission) : Planner Unit := do
  let precision := admission.precision.debug
  let kernelHeight := admission.kernelHeight
  let kernelWidth := admission.kernelWidth
  let stride := admission.stride
  let inChannels := admission.inChannels
  let outChannels := admission.outChannels
  let density := if admission.depthwise then "depthwise" else "dense"
  let cls ← someOr (PrecisionClass.of admission.precision) .unvalidatedConfiguration
    s!"no Rocket matcher claims a {precision} convolution, so the compiler has no admission envelope for one"
  let name := cls.name
  refuseUnless (admission.kernelHeight = admission.kernelWidth) .unvalidatedConfiguration
    s!"non-square kernel {kernelHeight}x{kernelWidth}: the matchers describe square 1x1 and 3x3 kernels only"
  refuseUnless (admission.stride ≠ 0 ∧ admission.stride ≤ maxAdmittedStride)
    .unvalidatedConfiguration
    s!"stride {stride}: the matchers describe strides 1 through {maxAdmittedStride}"
  let ceilings ← someOr
    (convCeilings admission.precision admission.depthwise admission.kernelHeight admission.stride)
    .unvalidatedConfiguration
    s!"no {name} {density} {kernelHeight}x{kernelWidth} stride-{stride} convolution has been characterized, so no matcher describes one"
  let maxIn := ceilings.inChannels
  let minOut := ceilings.minOutChannels
  let maxOut := ceilings.outChannels
  refuseUnless (admission.inChannels ≠ 0 ∧ admission.outChannels ≠ 0) .invalidShape
    s!"channel counts must be positive, got Cin {inChannels} Cout {outChannels}"
  refuseUnless (admission.inChannels ≤ ceilings.inChannels) .unvalidatedConfiguration
    s!"Cin {inChannels} is past the {name} {density} {kernelHeight}x{kernelWidth} stride-{stride} input-channel ceiling of {maxIn}"
  refuseUnless (ceilings.minOutChannels ≤ admission.outChannels) .unvalidatedConfiguration
    s!"Cout {outChannels} is below the {name} {density} {kernelHeight}x{kernelWidth} stride-{stride} output-channel floor of {minOut}"
  refuseUnless (admission.outChannels ≤ ceilings.outChannels) .unvalidatedConfiguration
    s!"Cout {outChannels} is past the {name} {density} {kernelHeight}x{kernelWidth} stride-{stride} output-channel ceiling of {maxOut}"
  refuseUnless (admission.depthwise → admission.inChannels = admission.outChannels)
    .unsupportedSemantics
    s!"depthwise convolution with Cin {inChannels} and Cout {outChannels}: the lowering programs one output channel per input channel"

def maxAdmittedMatmulM : Nat := 4096

def admitMatmul (admission : MatmulAdmission) : Planner Unit := do
  let precision := admission.precision.debug
  let m := admission.m
  let k := admission.k
  let n := admission.n
  let cls ← someOr (PrecisionClass.of admission.precision) .unvalidatedConfiguration
    s!"no Rocket matcher claims a {precision} matmul, so the compiler has no admission envelope for one"
  let name := cls.name
  refuseUnless (cls = .fp16) .unvalidatedConfiguration
    s!"only the fp16 matmul matcher exists; {name} has no matmul evidence"
  refuseUnless (admission.m ≠ 0 ∧ admission.k ≠ 0 ∧ admission.n ≠ 0) .invalidShape
    s!"matmul extents must be positive, got {m}x{k} x {k}x{n}"
  refuseUnless (admission.m ≤ maxAdmittedMatmulM) .unvalidatedConfiguration
    s!"M {m} is past the matmul row ceiling of {maxAdmittedMatmulM} (CNA_DATA_SIZE0.datain_width is 11 bits)"
  refuseUnless (admission.k ≤ maxInputChannels) .unvalidatedConfiguration
    s!"K {k} is past the fp16 input-channel ceiling of {maxInputChannels}"
  refuseUnless (admission.n ≤ maxOutputChannels) .unvalidatedConfiguration
    s!"N {n} is past the fp16 output-channel ceiling of {maxOutputChannels}"

/-- A convolution to plan: what admission is asked about, and the extents, padding and activation the
descriptor adds. -/
structure ConvRequest where
  admission : ConvAdmission
  width : Nat
  height : Nat
  padding : Option Padding
  activation : Activation
  deriving DecidableEq, Repr

namespace ConvRequest

def kernels (r : ConvRequest) : Kernels := (r.admission.kernelHeight, r.admission.kernelWidth)

/-- Padding is left to the planner's default where the descriptor has none. -/
def tryPad (shape : Shape) : Option Padding → Planner Shape
  | none => pure shape
  | some padding => shape.tryWithPadding padding

/-- The shape `plan_conv_checked` builds. -/
def tryShape (policy : PlanningPolicy) (r : ConvRequest) : Planner Shape := do
  let shape ← Shape.tryWithPrecision policy r.width r.height r.admission.stride
    r.admission.inChannels r.admission.outChannels r.admission.precision
  let shape ← tryPad shape r.padding
  let shape ← shape.tryWithActivation r.activation
  if r.admission.depthwise then shape.tryWithDepthwise policy else return shape

end ConvRequest

theorem admitConv_ok {admission : ConvAdmission} {u : Unit} :
    admitConv admission = .ok u ↔
      admission.kernelHeight = admission.kernelWidth ∧
      (admission.stride ≠ 0 ∧ admission.stride ≤ maxAdmittedStride) ∧
      ∃ cls ceilings, PrecisionClass.of admission.precision = some cls ∧
        classCeilings cls admission.depthwise admission.kernelHeight admission.stride =
          some ceilings ∧
        (admission.inChannels ≠ 0 ∧ admission.outChannels ≠ 0) ∧
        admission.inChannels ≤ ceilings.inChannels ∧
        ceilings.minOutChannels ≤ admission.outChannels ∧
        admission.outChannels ≤ ceilings.outChannels ∧
        (admission.depthwise → admission.inChannels = admission.outChannels) := by
  unfold admitConv
  simp only [bind_ok, someOr_ok, refuseUnless_ok, exists_const]
  constructor
  · rintro ⟨cls, hcls, hsquare, hstride, ceilings, hceilings, h⟩
    refine ⟨hsquare, hstride, cls, ceilings, hcls, ?_, h⟩
    unfold convCeilings at hceilings
    rw [hcls] at hceilings
    simpa only [if_neg (show ¬ (admission.stride = 0 ∨ admission.stride > maxAdmittedStride) by
      omega)] using hceilings
  · rintro ⟨hsquare, hstride, cls, ceilings, hcls, hceilings, h⟩
    refine ⟨cls, hcls, hsquare, hstride, ceilings, ?_, h⟩
    unfold convCeilings
    rw [hcls]
    simpa only [if_neg (show ¬ (admission.stride = 0 ∨ admission.stride > maxAdmittedStride) by
      omega)] using hceilings

theorem admitMatmul_ok {admission : MatmulAdmission} {u : Unit} :
    admitMatmul admission = .ok u ↔
      admission.precision = .fp16 ∧ (admission.m ≠ 0 ∧ admission.k ≠ 0 ∧ admission.n ≠ 0) ∧
        admission.m ≤ 4096 ∧ admission.k ≤ 4096 ∧ admission.n ≤ 4096 := by
  unfold admitMatmul
  simp only [bind_ok, someOr_ok, refuseUnless_ok, exists_const]
  constructor
  · rintro ⟨cls, hcls, rfl, h⟩
    exact ⟨PrecisionClass.of_fp16 hcls, h⟩
  · rintro ⟨hprecision, h⟩
    exact ⟨.fp16, by rw [hprecision]; rfl, rfl, h⟩

namespace Fc

/-- The 1x1 spatial kernel of every fully-connected program. -/
def kernels : Kernels := (1, 1)

/-- Logical `[M,K] x [K,N] -> [M,N]` fully-connected shape. -/
structure Shape where
  m : Nat
  k : Nat
  n : Nat
  precision : Precision
  activation : Activation
  deriving DecidableEq, Repr

namespace Shape

def tryAsConvShape (policy : PlanningPolicy) (s : Shape) : Planner Conv.Shape := do
  let shape ← Conv.Shape.tryWithPrecision policy s.m 1 1 s.k s.n s.precision
  let shape ← shape.tryWithPadding (0, 0)
  shape.tryWithActivation s.activation

def tryNew (policy : PlanningPolicy) (m k n : Nat) (precision : Precision) : Planner Shape := do
  let shape : Shape := { m, k, n, precision, activation := .none }
  let _ ← shape.tryAsConvShape policy
  return shape

end Shape

/-- The fully-connected shape with the plan of its height-one lowering. -/
structure Plan where
  shape : Shape
  conv : ConvPlan
  deriving DecidableEq, Repr

def Plan.tryNew (policy : PlanningPolicy) (shape : Shape) : Planner Plan := do
  let convShape ← shape.tryAsConvShape policy
  let conv ← ConvPlan.tryNew policy convShape kernels
  return { shape, conv }

end Fc

end IreeRocket
