import IreeRocket.Core.Precision

/-!
# Convolution shapes

`Shape` is the planner's description of a convolution. It is built by the `try*` constructors, each
of which may refuse; `Built policy shape` says that a chain of them returned `shape`, and
`Built.wellFormed` collects what every such shape satisfies. The bound that keeps the planner's
arithmetic inside `u32` is `surface`: the input surface stride is below `2 ^ 32`.

The second half of the file holds the geometry derived from a shape and a kernel: channel padding,
the feature layout, the output extents and the strides.
-/

namespace IreeRocket.Conv

structure Shape where
  width : Nat
  height : Nat
  stride : Nat
  inChannels : Nat
  outChannels : Nat
  precision : Precision
  padding : Option Padding
  activation : Activation
  depthwise : Bool
  deriving DecidableEq, Repr

/-- The `Debug` output of a shape. -/
def Shape.debug (s : Shape) : String :=
  let precision := s.precision.debug
  let padding :=
    match s.padding with
    | none => "None"
    | some p => "Some([" ++ toString p.1 ++ ", " ++ toString p.2 ++ "])"
  let activation :=
    match s.activation with
    | .none => "None"
    | .relu => "Relu"
    | .clamped cmp => "Clamped \x7b cmp: " ++ toString cmp ++ " \x7d"
  "Shape \x7b width: " ++ toString s.width ++ ", height: " ++ toString s.height ++
    ", stride: " ++ toString s.stride ++ ", in_channels: " ++ toString s.inChannels ++
    ", out_channels: " ++ toString s.outChannels ++ ", precision: " ++ precision ++
    ", padding: " ++ padding ++ ", activation: " ++ activation ++
    ", depthwise: " ++ toString s.depthwise ++ " \x7d"

inductive FeatureLayout
  | dense
  | surfaces
  deriving DecidableEq, Repr

/-- A kernel with the leading padding it is programmed with. -/
structure KernelProgramming where
  height : Nat
  width : Nat
  padTop : Nat
  padLeft : Nat
  deriving DecidableEq, Repr

/-- Kernel extents the vendor reference data covers. -/
def backed (extent : Nat) : Bool := 1 ≤ extent && extent ≤ 11

/-- `kernel_programming`, which panics where `tryKernelProgramming` refuses. The planner calls it
only after `tryKernelProgramming` succeeded on the same kernel and padding. -/
def kernelProgramming (kernels : Kernels) (padding : Option Padding) : KernelProgramming :=
  let pad := padding.getD (kernels.1 / 2, kernels.2 / 2)
  { height := kernels.1, width := kernels.2, padTop := pad.1, padLeft := pad.2 }

def tryKernelProgramming (kernels : Kernels) (padding : Option Padding) :
    Planner KernelProgramming := do
  let kernel := kernelProgramming kernels padding
  let height := kernel.height
  let width := kernel.width
  let padTop := kernel.padTop
  let padLeft := kernel.padLeft
  refuseUnless (backed height ∧ backed width) .unvalidatedConfiguration
    s!"conv_2d only has vendor reference data for kernel extents from 1 through 11, got {height}x{width}"
  refuseUnless (padTop < height ∧ padLeft < width) .invalidShape
    s!"padding must be smaller than its kernel extent; got padding {padTop}x{padLeft} for kernel {height}x{width}"
  return kernel

namespace Shape

/-! ### Constructors -/

def tryWithPrecision (policy : PlanningPolicy) (width height stride inChannels outChannels : Nat)
    (precision : Precision) : Planner Shape := do
  let maxIn := precision.maxInChannels
  let maxOut := precision.maxOutChannels
  let atom := featureAtomBytes * 2
  refuseUnless (0 < width ∧ 0 < height) .invalidShape "convolution extents must be nonzero"
  refuseUnless (0 < stride) .invalidShape "convolution stride must be nonzero"
  refuseUnless (0 < inChannels ∧ 0 < outChannels) .invalidShape
    "convolution channel counts must be nonzero"
  refuseUnless ((1 ≤ inChannels ∧ inChannels ≤ maxIn) ∨ policy.allowUnbackedChannels)
    .unvalidatedConfiguration
    s!"input channels must be 1..={maxIn}; beyond that the channel padding has no capture backing at this precision"
  refuseUnless ((1 ≤ outChannels ∧ outChannels ≤ maxOut) ∨ policy.allowUnbackedChannels)
    .unvalidatedConfiguration
    s!"output channels must be 1..={maxOut}; beyond that the capture corpus does not reach and the measurement has not been made"
  refuseUnless (precision = .int4 → inChannels % atom = 0) .unvalidatedConfiguration
    s!"int4 input channels must be a whole {atom}-channel feature atom; partial int4 atoms are unmeasured"
  refuseUnless precision.accumulatorZeroPoints .unsupportedSemantics
    "int32 accumulator output currently requires zero input, weight, and output zero-points"
  refuseUnless (width * height < 2 ^ 32 ∧ width * height * featureAtomBytes < 2 ^ 32) .hardwareLimit
    s!"input surface {width}x{height} exceeds the 32-bit address space the DMA engines can name"
  return { width, height, stride, inChannels, outChannels, precision, padding := none
           activation := .none, depthwise := false }

def tryWithPadding (shape : Shape) (padding : Padding) : Planner Shape := do
  refuseUnless (padding.1 ≤ 15 ∧ padding.2 ≤ 15) .hardwareLimit
    "convolution padding must fit the CNA's 4-bit pad fields"
  return { shape with padding := some padding }

def tryWithActivation (shape : Shape) (activation : Activation) : Planner Shape := do
  refuseUnless (!shape.precision.writesAccumulators ∨ activation = .none) .unsupportedSemantics
    "int32 accumulator output must not fuse an activation"
  return { shape with activation }

def tryWithDepthwise (policy : PlanningPolicy) (shape : Shape) : Planner Shape := do
  let precision := shape.precision.debug
  refuseUnless (shape.inChannels = shape.outChannels) .unsupportedSemantics
    "depthwise capture backing covers a channel multiplier of one only"
  refuseUnless (shape.inChannels ≤ maxDepthwiseChannels ∨ policy.allowUnbackedChannels)
    .unvalidatedConfiguration
    s!"depthwise channels must be 1..={maxDepthwiseChannels}; the dense ceilings reach further on dense evidence that does not carry over -- see MAX_DEPTHWISE_CHANNELS"
  refuseUnless ((shape.precision.elementBits = 8 ∨ shape.precision.elementBits = 16) ∧
      !shape.precision.writesFp32Result) .unvalidatedConfiguration
    s!"{precision} depthwise is unmeasured; see Shape::with_depthwise"
  return { shape with depthwise := true }

/-- A chain of the constructors returned the shape. The arguments of `tryWithPrecision` are `u32`
values. -/
inductive Built (policy : PlanningPolicy) : Shape → Prop
  | withPrecision {width height stride inChannels outChannels : Nat} {precision : Precision}
      {shape : Shape} (hstride : stride < 2 ^ 32) (hin : inChannels < 2 ^ 32)
      (hout : outChannels < 2 ^ 32)
      (h : tryWithPrecision policy width height stride inChannels outChannels precision =
        .ok shape) : Built policy shape
  | withPadding {base shape : Shape} {padding : Padding} (hbase : Built policy base)
      (h : base.tryWithPadding padding = .ok shape) : Built policy shape
  | withActivation {base shape : Shape} {activation : Activation} (hbase : Built policy base)
      (h : base.tryWithActivation activation = .ok shape) : Built policy shape
  | withDepthwise {base shape : Shape} (hbase : Built policy base)
      (h : base.tryWithDepthwise policy = .ok shape) : Built policy shape

/-- What every constructed shape satisfies. -/
structure WellFormed (policy : PlanningPolicy) (s : Shape) : Prop where
  width_pos : 0 < s.width
  height_pos : 0 < s.height
  stride_pos : 0 < s.stride
  stride_lt : s.stride < 2 ^ 32
  in_pos : 0 < s.inChannels
  in_lt : s.inChannels < 2 ^ 32
  out_pos : 0 < s.outChannels
  out_lt : s.outChannels < 2 ^ 32
  in_backed : s.inChannels ≤ 4096 ∨ policy.allowUnbackedChannels
  out_backed : s.outChannels ≤ 4096 ∨ policy.allowUnbackedChannels
  int4_atoms : s.precision = .int4 → s.inChannels % 32 = 0
  surface : s.width * s.height * 16 < 2 ^ 32
  pad_le : ∀ p, s.padding = some p → p.1 ≤ 15 ∧ p.2 ≤ 15
  depthwise_eq : s.depthwise → s.inChannels = s.outChannels
  depthwise_backed : s.depthwise → s.inChannels ≤ 1792 ∨ policy.allowUnbackedChannels
  depthwise_precision : s.depthwise →
    (s.precision.elementBits = 8 ∨ s.precision.elementBits = 16) ∧ !s.precision.writesFp32Result
  accumulator_linear : s.precision.writesAccumulators → s.activation = .none
  accumulator_zero : ∀ q, s.precision = .int8Accumulator q →
    q.inputZeroPoint = 0 ∧ q.outputZeroPoint = 0 ∧ q.weightZeroPoint = 0

theorem tryWithPrecision_ok {policy : PlanningPolicy} {width height stride inChannels outChannels : Nat}
    {precision : Precision} {s : Shape}
    (h : tryWithPrecision policy width height stride inChannels outChannels precision = .ok s) :
    (0 < width ∧ 0 < height) ∧ 0 < stride ∧ (0 < inChannels ∧ 0 < outChannels) ∧
      (inChannels ≤ 4096 ∨ policy.allowUnbackedChannels) ∧
      (outChannels ≤ 4096 ∨ policy.allowUnbackedChannels) ∧
      (precision = .int4 → inChannels % 32 = 0) ∧
      (∀ q, precision = .int8Accumulator q →
        q.inputZeroPoint = 0 ∧ q.outputZeroPoint = 0 ∧ q.weightZeroPoint = 0) ∧
      width * height * 16 < 2 ^ 32 ∧
      s = { width, height, stride, inChannels, outChannels, precision, padding := none
            activation := .none, depthwise := false } := by
  unfold tryWithPrecision at h
  simp only [bind_ok, refuseUnless_ok, pure_ok, exists_const] at h
  rw [Precision.maxInChannels_eq, Precision.maxOutChannels_eq] at h
  obtain ⟨h1, h2, h3, h4, h5, h6, h7, h8, rfl⟩ := h
  refine ⟨h1, h2, h3, h4.imp_left And.right, h5.imp_left And.right, h6, ?_, h8.2, rfl⟩
  rintro q rfl
  simpa [Precision.accumulatorZeroPoints, and_assoc] using h7

theorem tryWithPadding_ok {base s : Shape} {padding : Padding}
    (h : base.tryWithPadding padding = .ok s) :
    (padding.1 ≤ 15 ∧ padding.2 ≤ 15) ∧ s = { base with padding := some padding } := by
  unfold tryWithPadding at h
  simp only [bind_ok, refuseUnless_ok, pure_ok, exists_const] at h
  exact ⟨h.1, h.2.symm⟩

theorem tryWithActivation_ok {base s : Shape} {activation : Activation}
    (h : base.tryWithActivation activation = .ok s) :
    (base.precision.writesAccumulators → activation = .none) ∧ s = { base with activation } := by
  unfold tryWithActivation at h
  simp only [bind_ok, refuseUnless_ok, pure_ok, exists_const] at h
  refine ⟨fun hw => ?_, h.2.symm⟩
  simpa [hw] using h.1

theorem tryWithDepthwise_ok {policy : PlanningPolicy} {base s : Shape}
    (h : base.tryWithDepthwise policy = .ok s) :
    base.inChannels = base.outChannels ∧
      (base.inChannels ≤ 1792 ∨ policy.allowUnbackedChannels) ∧
      ((base.precision.elementBits = 8 ∨ base.precision.elementBits = 16) ∧
        !base.precision.writesFp32Result) ∧
      s = { base with depthwise := true } := by
  unfold tryWithDepthwise at h
  simp only [bind_ok, refuseUnless_ok, pure_ok, exists_const] at h
  exact ⟨h.1, h.2.1, h.2.2.1, h.2.2.2.symm⟩

/-- **Every constructed shape is well formed.** -/
theorem Built.wellFormed {policy : PlanningPolicy} {s : Shape} (h : Built policy s) :
    s.WellFormed policy := by
  induction h with
  | withPrecision hstride hin hout h =>
    obtain ⟨h1, h2, h3, h4, h5, h6, h7, h8, rfl⟩ := tryWithPrecision_ok h
    exact {
      width_pos := h1.1, height_pos := h1.2, stride_pos := h2, stride_lt := hstride
      in_pos := h3.1, in_lt := hin, out_pos := h3.2, out_lt := hout
      in_backed := h4, out_backed := h5, int4_atoms := h6, surface := h8
      pad_le := by simp, depthwise_eq := by simp, depthwise_backed := by simp
      depthwise_precision := by simp, accumulator_linear := by simp, accumulator_zero := h7 }
  | withPadding _ h ih =>
    obtain ⟨hpad, rfl⟩ := tryWithPadding_ok h
    exact { ih with
      pad_le := by
        rintro p hp
        obtain rfl := Option.some.inj hp
        exact hpad }
  | withActivation _ h ih =>
    obtain ⟨hlinear, rfl⟩ := tryWithActivation_ok h
    exact { ih with accumulator_linear := hlinear }
  | withDepthwise _ h ih =>
    obtain ⟨heq, hbacked, hprecision, rfl⟩ := tryWithDepthwise_ok h
    exact { ih with
      depthwise_eq := fun _ => heq
      depthwise_backed := fun _ => hbacked
      depthwise_precision := fun _ => hprecision }

end Shape

end IreeRocket.Conv
