import IreeRocket.Core.PackerWrites
import IreeRocket.Driver.Coefficients
import IreeRocket.Plugin.PlanFfi

/-!
# `rocket_pack_conv_weights` and `rocket_pack_matmul_weights`

Both entry points build a `WeightPlan` and hand it to `pack_boundary`, which answers a size query, checks
the two lengths and packs into the caller's buffer. A call is modelled by what it leaves: its status, the
length it reports and the buffer. A null pointer is `none`.
-/

namespace IreeRocket.PlanFfi

open Conv Weights Driver

structure PackOutcome where
  result : Boundary Unit
  packedLength : Option Nat
  packed : Option Bytes
  deriving DecidableEq

/-- `pack_boundary` past the size query. -/
def packInto (plan : WeightPlan) (packedLength : Nat) (dense : Option Bytes) (packed : Bytes) :
    Boundary Unit × Bytes :=
  match dense with
  | none => (invalid "dense filter pointer is null", packed)
  | some dense =>
    match planner "weight packer" plan.denseBytes with
    | .error refusal => (.error refusal, packed)
    | .ok denseBytes =>
      let denseLength := dense.length
      let capacity := packed.length
      if denseLength ≠ denseBytes then
        (invalid s!"dense filter is {denseLength} bytes, the shape needs {denseBytes}", packed)
      else if capacity < packedLength then
        (invalid s!"packed buffer holds {capacity} bytes, the layout needs {packedLength}", packed)
      else
        match plan.packInto dense packed with
        | (outcome, packed) => ((planner "weight packer" outcome).map fun _ => (), packed)

/-- The plan with the packed length it reports. -/
def sized (plan : Boundary WeightPlan) : Boundary (WeightPlan × Nat) := do
  let plan ← plan
  let packedLength ← planner "weight packer" plan.packedBytes
  return (plan, packedLength)

def packBoundary (plan : Boundary WeightPlan) (dense packed : Option Bytes) : PackOutcome :=
  match sized plan with
  | .error refusal => { result := .error refusal, packedLength := none, packed }
  | .ok (plan, packedLength) =>
    match packed with
    | none => { result := .ok (), packedLength := some packedLength, packed := none }
    | some destination =>
      match packInto plan packedLength dense destination with
      | (result, destination) =>
        { result, packedLength := some packedLength, packed := some destination }

def convWeightPlan (desc : ConvDesc) : Boundary WeightPlan := do
  let (shape, kernels) ← convShapeChecked desc
  return .forConv shape kernels

def matmulWeightPlan (desc : MatmulDesc) : Boundary WeightPlan := do
  let shape ← matmulShapeChecked desc
  planner "weight packer" (WeightPlan.forMatmul .default shape)

def rocketPackConvWeights (desc : ConvDesc) (dense packed : Option Bytes) : PackOutcome :=
  packBoundary (convWeightPlan desc) dense packed

def rocketPackMatmulWeights (desc : MatmulDesc) (dense packed : Option Bytes) : PackOutcome :=
  packBoundary (matmulWeightPlan desc) dense packed

/-! ### The plans it packs with -/

/-- What a convolution descriptor's plan keeps of it. -/
structure ConvPlanned (desc : ConvDesc) (plan : WeightPlan) : Prop where
  kernels : plan.kernels = (desc.kernelHeight, desc.kernelWidth)
  inChannels : plan.shape.inChannels = desc.inChannels
  outChannels : plan.shape.outChannels = desc.outChannels
  depthwise : plan.shape.depthwise = desc.depthwise
  precision : precision "weight packer" desc.precision desc.quantization = .ok plan.shape.precision
  zeroPoint : plan.weightZeroPoint = WeightPlan.zeroPoint plan.shape.precision
  built : plan.shape.Built policy

theorem convWeightPlan_ok {desc : ConvDesc} {plan : WeightPlan} (h : convWeightPlan desc = .ok plan) :
    ConvPlanned desc plan := by
  unfold convWeightPlan convShapeChecked baseShape kernelsOf at h
  simp only [bind_ok, planner_ok, narrow_ok, pure_ok] at h
  obtain ⟨_, ⟨precision, hprecision, base, ⟨_, ⟨-, rfl⟩, _, ⟨-, rfl⟩, stride, ⟨hstride, rfl⟩, _,
    ⟨hin, rfl⟩, _, ⟨hout, rfl⟩, hbase⟩, shape, hdepthwise, kernels, ⟨_, ⟨-, rfl⟩, _, ⟨-, rfl⟩, rfl⟩, rfl⟩,
    rfl⟩ := h
  have hbuilt : base.Built policy := .withPrecision hstride hin hout hbase
  obtain ⟨-, -, -, -, -, -, -, -, rfl⟩ := Shape.tryWithPrecision_ok hbase
  unfold withDepthwise at hdepthwise
  split_ifs at hdepthwise with hflag
  · have hshape := hbuilt.withDepthwise hdepthwise
    obtain ⟨-, -, -, rfl⟩ := Shape.tryWithDepthwise_ok hdepthwise
    exact ⟨rfl, rfl, rfl, hflag.symm, hprecision, rfl, hshape⟩
  · obtain rfl := Except.ok.inj hdepthwise
    exact ⟨rfl, rfl, rfl, (Bool.eq_false_of_not_eq_true hflag).symm, hprecision, rfl, hbuilt⟩

/-- What a matmul's plan keeps of its shape. -/
structure MatmulPlanned (k n : Nat) (precision : Precision) (plan : WeightPlan) : Prop where
  kernels : plan.kernels = Fc.kernels
  inChannels : plan.shape.inChannels = k
  outChannels : plan.shape.outChannels = n
  depthwise : plan.shape.depthwise = false
  precision : plan.shape.precision = precision
  zeroPoint : plan.weightZeroPoint = none

theorem forMatmul_ok {shape : Fc.Shape} {plan : WeightPlan}
    (h : WeightPlan.forMatmul policy shape = .ok plan) :
    MatmulPlanned shape.k shape.n shape.precision plan := by
  unfold WeightPlan.forMatmul Fc.Shape.tryAsConvShape at h
  simp only [bind_ok, pure_ok] at h
  obtain ⟨conv, ⟨base, hbase, padded, hpadded, hconv⟩, rfl⟩ := h
  obtain ⟨-, -, -, -, -, -, -, -, rfl⟩ := Shape.tryWithPrecision_ok hbase
  obtain ⟨-, rfl⟩ := Shape.tryWithPadding_ok hpadded
  obtain ⟨-, rfl⟩ := Shape.tryWithActivation_ok hconv
  exact ⟨rfl, rfl, rfl, rfl, rfl, rfl⟩

theorem matmulWeightPlan_ok {desc : MatmulDesc} {plan : WeightPlan}
    (h : matmulWeightPlan desc = .ok plan) : ∃ rung,
      precision "weight packer" desc.precision desc.quantization = .ok rung ∧
        MatmulPlanned desc.k desc.n rung plan := by
  unfold matmulWeightPlan matmulShapeChecked Fc.Shape.tryNew at h
  simp only [bind_ok, planner_ok, narrow_ok, pure_ok] at h
  obtain ⟨_, ⟨rung, hrung, _, ⟨-, rfl⟩, _, ⟨-, rfl⟩, _, ⟨-, rfl⟩, _, -, rfl⟩, hplan⟩ := h
  exact ⟨rung, hrung, forMatmul_ok hplan⟩

theorem ConvPlanned.sized {desc : ConvDesc} {plan : WeightPlan} (h : ConvPlanned desc plan) :
    plan.Sized where
  affine hzero := elementBytes_of_zeroPoint (h.zeroPoint ▸ hzero)
  depthwise hdepthwise length hlength := by
    rw [WeightPlan.packedBytes_of_depthwise hdepthwise] at hlength
    have hprogram : ∃ kernel, plan.shape.tryKernelProgramming plan.kernels = .ok kernel := by
      unfold Shape.tryWeightBytes at hlength
      rw [bind_ok] at hlength
      exact hlength.imp fun _ => And.left
    obtain ⟨kernel, hkernel⟩ := hprogram
    obtain ⟨-, -, rfl⟩ := tryKernelProgramming_ok.mp hkernel
    obtain ⟨hbytes, hproduct⟩ := depthwise_weightBytes h.built.wellFormed hdepthwise hkernel
    rw [hproduct, Except.ok.inj (hbytes.symm.trans hlength)]

theorem MatmulPlanned.sized {k n : Nat} {precision : Precision} {plan : WeightPlan}
    (h : MatmulPlanned k n precision plan) : plan.Sized where
  affine hzero := absurd h.zeroPoint hzero
  depthwise hdepthwise := absurd hdepthwise (by rw [h.depthwise]; exact Bool.false_ne_true)

/-! ### What a call leaves -/

/-- A call with a destination either fills the length it reports and leaves the rest of the destination
as it was, or refuses and leaves all of it as it was. -/
def PackOutcome.Clean (out : PackOutcome) (destination : Bytes) : Prop :=
  (out.result = .ok () ∧ ∃ fresh : Bytes, out.packedLength = some fresh.length ∧
      fresh.length ≤ destination.length ∧
      out.packed = some (fresh ++ destination.drop fresh.length)) ∨
    (∃ refusal, out.result = .error refusal) ∧ out.packed = some destination

/-- A packer call that returns `OK` with a destination packed into it. -/
theorem packInto_ok {plan : WeightPlan} {packedLength : Nat} {dense : Option Bytes}
    {packed out : Bytes} (h : packInto plan packedLength dense packed = (.ok (), out)) :
    ∃ filter length, dense = some filter ∧ plan.pack filter packed = .ok (length, out) := by
  unfold packInto at h
  split at h
  · cases h
  · rename_i filter
    split at h
    · cases h
    · dsimp only at h
      split_ifs at h
      · cases h
      · cases h
      · rw [WeightPlan.packInto_run] at h
        obtain ⟨hresult, rfl⟩ := Prod.mk.inj h
        cases hpack : plan.pack filter packed with
        | error stop =>
          rw [hpack] at hresult
          cases stop <;> cases hresult
        | ok filled => exact ⟨filter, filled.1, rfl, hpack⟩

/-- A refusal leaves the destination. -/
theorem packInto_error {plan : WeightPlan} {packedLength : Nat} {dense : Option Bytes}
    {packed out : Bytes} {refusal : Refusal}
    (h : packInto plan packedLength dense packed = (.error refusal, out)) : out = packed := by
  unfold packInto at h
  split at h
  · exact (Prod.mk.inj h).2.symm
  · split at h
    · exact (Prod.mk.inj h).2.symm
    · dsimp only at h
      split_ifs at h
      · exact (Prod.mk.inj h).2.symm
      · exact (Prod.mk.inj h).2.symm
      · rename_i filter _ _ _ _ _
        rw [WeightPlan.packInto_run] at h
        obtain ⟨hresult, rfl⟩ := Prod.mk.inj h
        cases hpack : plan.pack filter packed with
        | error stop => rfl
        | ok filled =>
          rw [hpack] at hresult
          cases hresult

/-- **The boundary is clean**, for plans whose reported size is the one they fill. -/
theorem packBoundary_clean {plan : Boundary WeightPlan} (hsized : ∀ p, plan = .ok p → p.Sized)
    (dense : Option Bytes) (destination : Bytes) :
    (packBoundary plan dense (some destination)).Clean destination := by
  unfold packBoundary PackOutcome.Clean
  cases hplan : sized plan with
  | error refusal => exact .inr ⟨⟨refusal, rfl⟩, rfl⟩
  | ok found =>
    obtain ⟨p, packedLength⟩ := found
    unfold sized at hplan
    simp only [bind_ok, planner_ok, pure_ok, Prod.mk.injEq] at hplan
    obtain ⟨q, hq, length, hlength, hsame, hsame'⟩ := hplan
    subst hsame hsame'
    dsimp only
    cases hrun : packInto q length dense destination with
    | mk result out =>
      cases result with
      | error refusal => exact .inr ⟨⟨refusal, rfl⟩, congrArg some (packInto_error hrun)⟩
      | ok u =>
        obtain ⟨filter, filled, -, hpack⟩ := packInto_ok hrun
        obtain ⟨hreported, hle, fresh, hfresh, hfills⟩ := WeightPlan.pack_frame (hsized q hq) hpack
        have hlength : length = filled := Except.ok.inj (hlength.symm.trans hreported)
        have hout := (Prod.mk.inj (Except.ok.inj (hpack.symm.trans (hfills destination hle)))).2
        exact .inl ⟨rfl, fresh, by rw [hfresh, hlength], hfresh ▸ hle, by rw [hout, hfresh]⟩

theorem rocketPackConvWeights_clean (desc : ConvDesc) (dense : Option Bytes) (destination : Bytes) :
    (rocketPackConvWeights desc dense (some destination)).Clean destination :=
  packBoundary_clean (fun _ h => (convWeightPlan_ok h).sized) dense destination

theorem rocketPackMatmulWeights_clean (desc : MatmulDesc) (dense : Option Bytes) (destination : Bytes) :
    (rocketPackMatmulWeights desc dense (some destination)).Clean destination := by
  apply packBoundary_clean
  intro plan h
  obtain ⟨rung, -, hplan⟩ := matmulWeightPlan_ok h
  exact hplan.sized

end IreeRocket.PlanFfi
