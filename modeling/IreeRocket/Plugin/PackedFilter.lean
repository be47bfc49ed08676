import IreeRocket.Driver.ExecutableDecode
import IreeRocket.Plugin.PackKey

/-!
# Packed at compile time as at run time

The pass and the driver build their weight plans from different descriptions: placeholder scales, default
padding and a memoized request on one side, the decoded executable on the other. Both plans agree on what
packing reads of a plan (`SamePacking`), so `packWeights_agrees` says that they give the same bytes.
-/

namespace IreeRocket.Plugin

open Conv Layout PlanFfi Driver Weights

/-! ### Plans that pack alike -/

/-- What packing reads of a plan. -/
structure SamePacking (plan plan' : WeightPlan) : Prop where
  kernels : plan.kernels = plan'.kernels
  inChannels : plan.shape.inChannels = plan'.shape.inChannels
  outChannels : plan.shape.outChannels = plan'.shape.outChannels
  depthwise : plan.shape.depthwise = plan'.shape.depthwise
  zeroPoint : plan.weightZeroPoint = plan'.weightZeroPoint
  elementBits : plan.shape.precision.elementBits = plan'.shape.precision.elementBits

namespace SamePacking

variable {plan plan' : WeightPlan}

theorem elementBytes (h : SamePacking plan plan') {bytes : Nat} :
    plan.elementBytes = .ok bytes ↔ plan'.elementBytes = .ok bytes := by
  unfold WeightPlan.elementBytes
  simp only [bind_ok, refuseUnless_ok, pure_ok, exists_const, h.elementBits]

theorem denseBytes (h : SamePacking plan plan') {bytes : Nat} :
    plan.denseBytes = .ok bytes ↔ plan'.denseBytes = .ok bytes := by
  unfold WeightPlan.denseBytes
  simp only [bind_ok, someOr_ok, h.elementBytes, h.kernels, h.inChannels, h.outChannels, h.depthwise]

theorem cbufAtoms (h : SamePacking plan plan') : plan.shape.cbufAtoms = plan'.shape.cbufAtoms ∧
    plan.shape.precision.channelsPerAtom = plan'.shape.precision.channelsPerAtom := by
  have hatom : plan.shape.precision.channelsPerAtom = plan'.shape.precision.channelsPerAtom := by
    unfold Precision.channelsPerAtom
    rw [h.elementBits]
  unfold Shape.cbufAtoms Shape.featureAtoms
  rw [hatom, h.inChannels]
  exact ⟨rfl, rfl⟩

theorem select (h : SamePacking plan plan') : plan.select = plan'.select := by
  funext programmed elementBytes dense packed
  unfold WeightPlan.select Shape.depthwisePaddedChannels
  rw [h.kernels, h.inChannels, h.outChannels, h.depthwise, h.zeroPoint, h.cbufAtoms.1, h.cbufAtoms.2]

/-- The padding of a depthwise shape decides only whether its size is given. -/
theorem packedBytes (h : SamePacking plan plan') {length : Nat} (hpacked : plan.packedBytes = .ok length)
    (hprogram : ∃ kernel, plan'.shape.tryKernelProgramming plan'.kernels = .ok kernel) :
    plan'.packedBytes = .ok length := by
  unfold WeightPlan.packedBytes at hpacked ⊢
  rw [← h.depthwise]
  split_ifs at hpacked ⊢ with hdepthwise
  · obtain ⟨kernel', hkernel'⟩ := hprogram
    have hdepthwise' : plan'.shape.depthwise = true := h.depthwise ▸ hdepthwise
    unfold Shape.tryWeightBytes at hpacked ⊢
    simp only [bind_ok, refuseUnless_ok, pure_ok, exists_const, if_pos hdepthwise] at hpacked
    simp only [bind_ok, refuseUnless_ok, pure_ok, exists_const, if_pos hdepthwise']
    obtain ⟨kernel, hkernel, hlt, rfl⟩ := hpacked
    obtain ⟨-, -, rfl⟩ := tryKernelProgramming_ok.mp hkernel
    obtain ⟨-, -, rfl⟩ := tryKernelProgramming_ok.mp hkernel'
    simp only [kernelProgramming_height, kernelProgramming_width] at hlt ⊢
    rw [h.kernels, h.cbufAtoms.1, h.cbufAtoms.2, h.elementBits] at hlt
    refine ⟨_, hkernel', hlt, ?_⟩
    rw [h.kernels, h.cbufAtoms.1, h.cbufAtoms.2, h.elementBits]
    simp only [kernelProgramming_height, kernelProgramming_width]
  · unfold WeightPlan.programmedOutChannels at hpacked ⊢
    simp only [bind_ok, pure_ok, exists_eq_left', invalidShape_ok] at hpacked ⊢
    obtain ⟨bytes, hbytes, hsize⟩ := hpacked
    refine ⟨bytes, h.elementBytes.mp hbytes, ?_⟩
    rw [← h.kernels, ← h.inChannels, ← h.outChannels]
    exact hsize

/-- Where both have a size, both pack alike. -/
theorem pack (h : SamePacking plan plan') {length : Nat} {dense packed : Bytes} {result : Nat × Bytes}
    (hpacked' : plan'.packedBytes = .ok length) (hle : length ≤ packed.length)
    (hpack : plan.pack dense packed = .ok result) : plan'.pack dense packed = .ok result := by
  obtain ⟨packedLen, elementBytes, hdense, -, -, helement, hselect⟩ := WeightPlan.pack_ok.mp hpack
  refine WeightPlan.pack_ok.mpr ⟨length, elementBytes, h.denseBytes.mp hdense, hpacked', hle,
    h.elementBytes.mp helement, ?_⟩
  rw [← h.select, ← h.outChannels]
  exact hselect

end SamePacking

/-! ### What the pass packs -/

namespace PackDesc

/-- The plan behind a call. -/
def weightPlan : PackDesc → Boundary WeightPlan
  | conv precision dims depthwise weightZeroPoint =>
    convWeightPlan (convRequest precision dims depthwise weightZeroPoint)
  | matmul precision m k n weightZeroPoint =>
    matmulWeightPlan (matmulRequest precision m k n weightZeroPoint)

theorem call_eq (desc : PackDesc) (dense packed : Option Bytes) :
    desc.call dense packed = packBoundary desc.weightPlan dense packed := by
  cases desc <;> rfl

theorem weightPlan_sized {desc : PackDesc} {plan : WeightPlan} (h : desc.weightPlan = .ok plan) :
    plan.Sized := by
  cases desc with
  | conv precision dims depthwise weightZeroPoint => exact (convWeightPlan_ok h).sized
  | matmul precision m k n weightZeroPoint =>
    obtain ⟨rung, -, hplan⟩ := matmulWeightPlan_ok h
    exact hplan.sized

/-- A size query that returns `OK` reports the plan's packed size. -/
theorem sized_of_call {desc : PackDesc} {dense packed : Option Bytes} {length : Nat}
    (h : (desc.call dense packed).packedLength = some length) :
    ∃ plan, desc.weightPlan = .ok plan ∧ plan.packedBytes = .ok length := by
  rw [call_eq] at h
  unfold packBoundary at h
  cases hsized : sized desc.weightPlan with
  | error refusal =>
    rw [hsized] at h
    cases h
  | ok found =>
    obtain ⟨plan, packedLength⟩ := found
    have hlength : packedLength = length := by
      rw [hsized] at h
      cases packed with
      | none => exact Option.some.inj h
      | some destination => exact Option.some.inj h
    unfold sized at hsized
    simp only [bind_ok, planner_ok, pure_ok, Prod.mk.injEq] at hsized
    obtain ⟨plan', hplan, length', hpacked, rfl, rfl⟩ := hsized
    exact ⟨plan', hplan, hlength ▸ hpacked⟩

/-- **What the pass packs** fills any destination of its length the way the plan does. -/
theorem pack_some {desc : PackDesc} {bytes out : Bytes} (h : desc.pack bytes = some out) :
    ∃ plan, desc.weightPlan = .ok plan ∧ plan.packedBytes = .ok out.length ∧
      ∀ scratch : Bytes, scratch.length = out.length →
        plan.pack bytes scratch = .ok (out.length, out) := by
  unfold PackDesc.pack at h
  split at h
  · rename_i u length packed hquery
    split at h
    · rename_i u' length' packed' hcall
      subst h
      obtain ⟨plan, hplan, hpacked⟩ := sized_of_call (congrArg PackOutcome.packedLength hquery)
      refine ⟨plan, hplan, ?_⟩
      have hsized : sized desc.weightPlan = .ok (plan, length) := by
        unfold sized
        simp only [bind_ok, planner_ok, pure_ok]
        exact ⟨plan, hplan, length, hpacked, rfl⟩
      rw [call_eq] at hcall
      unfold packBoundary at hcall
      rw [hsized] at hcall
      simp only [PackOutcome.mk.injEq, Option.some.injEq] at hcall
      obtain ⟨hresult, -, hout⟩ := hcall
      have hrun : packInto plan length (some bytes) (List.replicate length 0) = (.ok (), out) :=
        Prod.ext hresult hout
      obtain ⟨filter, filled, hfilter, hpack⟩ := packInto_ok hrun
      obtain rfl := Option.some.inj hfilter
      obtain ⟨hreported, -, fresh, hfresh, hfills⟩ :=
        WeightPlan.pack_frame (weightPlan_sized hplan) hpack
      obtain rfl : length = filled := Except.ok.inj (hpacked.symm.trans hreported)
      have hall : ∀ scratch : Bytes, scratch.length = length →
          plan.pack bytes scratch = .ok (length, fresh) := by
        intro scratch hscratch
        rw [hfills scratch hscratch.ge, List.drop_eq_nil_of_le hscratch.le, List.append_nil]
      have hsame := hpack.symm.trans (hall _ List.length_replicate)
      obtain rfl : out = fresh := (Prod.mk.inj (Except.ok.inj hsame)).2
      rw [hfresh]
      exact ⟨hpacked, hall⟩
    · cases h
  · cases h

end PackDesc

end IreeRocket.Plugin

/-! ### The driver's side -/

namespace IreeRocket.Driver.ResolvedShape

open Conv Weights

/-- The plan a dispatch arm packs its weights with. -/
def weightPlan : ResolvedShape → Option (Planner WeightPlan)
  | conv2d shape kernels _ => some (.ok (.forConv shape kernels))
  | matmul shape => some (WeightPlan.forMatmul policy shape)
  | _ => none

/-- The length checks of a `weights_packed` binding of `length` bytes. -/
def acceptsPacked (length : Nat) : ResolvedShape → Bool
  | conv2d shape kernels _ =>
    match (WeightPlan.forConv shape kernels).packedBytes with
    | .ok bytes => bytes ≤ length
    | .error _ => false
  | matmul shape =>
    shape.k * shape.n * shape.precision.elementBytes ≤ length &&
      match rocketWeightStorageSize 1 1 shape.k shape.n shape.precision.elementBytes with
      | .ok bytes => bytes ≤ length
      | .error _ => false
  | _ => false

/-- `resolve_shape` returned the shape: it passed `validate_conv_shape`. -/
def Accepted : ResolvedShape → Prop
  | conv2d shape kernels _ => validateConvShape shape kernels = .ok ()
  | matmul shape => ∃ conv, shape.tryAsConvShape policy = .ok conv ∧
      validateConvShape conv Fc.kernels = .ok ()
  | _ => True

def precision : ResolvedShape → Option Precision
  | conv2d shape _ _ => some shape.precision
  | matmul shape => some shape.precision
  | _ => none

/-- What the driver would have packed `dense` to is `packed`, and it binds `packed` instead. -/
def PacksTo (u : ResolvedShape) (dense packed : Bytes) : Prop :=
  u.acceptsPacked packed.length = true ∧ ∃ plan, u.weightPlan = some (.ok plan) ∧
    plan.packedBytes = .ok packed.length ∧ ∀ scratch : Bytes, scratch.length = packed.length →
      plan.pack dense scratch = .ok (packed.length, packed)

theorem rebuilt_ok {shape programmed : Shape} (h : rebuilt shape = .ok programmed) :
    programmed = shape := by
  obtain ⟨width, height, stride, inChannels, outChannels, precision, padding, activation, depthwise⟩ :=
    shape
  have hlast : ∀ {active : Shape}, (if depthwise then active.tryWithDepthwise policy else .ok active) =
      .ok programmed → active.depthwise = false → programmed = { active with depthwise } := by
    intro active h hactive
    split_ifs at h with hdepthwise
    · obtain ⟨-, -, -, rfl⟩ := Shape.tryWithDepthwise_ok h
      rw [hdepthwise]
    · obtain rfl := Except.ok.inj h
      rw [Bool.eq_false_of_not_eq_true hdepthwise, ← hactive]
  unfold rebuilt at h
  cases padding with
  | none =>
    simp only [bind_ok, Except.ok.injEq] at h
    obtain ⟨base, hbase, padded, hpadded, active, hactive, h⟩ := h
    obtain ⟨-, -, -, -, -, -, -, -, rfl⟩ := Shape.tryWithPrecision_ok hbase
    subst hpadded
    obtain ⟨-, rfl⟩ := Shape.tryWithActivation_ok hactive
    exact hlast h rfl
  | some padding =>
    simp only [bind_ok] at h
    obtain ⟨base, hbase, padded, hpadded, active, hactive, h⟩ := h
    obtain ⟨-, -, -, -, -, -, -, -, rfl⟩ := Shape.tryWithPrecision_ok hbase
    obtain ⟨-, rfl⟩ := Shape.tryWithPadding_ok hpadded
    obtain ⟨-, rfl⟩ := Shape.tryWithActivation_ok hactive
    exact hlast h rfl

/-- A validated shape programs its kernel. -/
theorem validated_program {shape : Shape} {kernels : Kernels}
    (h : validateConvShape shape kernels = .ok ()) :
    ∃ kernel, shape.tryKernelProgramming kernels = .ok kernel := by
  unfold validateConvShape at h
  simp only [bind_ok] at h
  obtain ⟨programmed, hrebuilt, plan, hplan, -⟩ := h
  obtain rfl := rebuilt_ok hrebuilt
  obtain ⟨kernel, -, -, -, hkernel, -⟩ := tryNew_ok.mp hplan
  exact ⟨kernel, hkernel⟩

end IreeRocket.Driver.ResolvedShape

namespace IreeRocket.Plugin

open Conv Layout PlanFfi Driver Weights

/-- The weight zero point of the config is the decoded one. -/
def ZeroPointAgrees (config : Config) (u : ResolvedShape) : Prop :=
  ∀ precision q, u.precision = some precision → precision.quantization = some q →
    q.weightZeroPoint = toI32 ((config.integerAttr "weights_zero_point").getD 0)

namespace PackDesc

/-- The request carries what the coefficients of a dispatch depend on. -/
def Describes : PackDesc → ResolvedShape → Prop
  | conv precision dims depthwise weightZeroPoint, .conv2d shape kernels _ =>
    wirePrecision shape.precision = some precision ∧ dims = dimsOf shape kernels ∧
      depthwise = shape.depthwise ∧
      (∀ q, shape.precision.quantization = some q → q.weightZeroPoint = weightZeroPoint) ∧
      shape.inChannels < 2 ^ 32 ∧ shape.outChannels < 2 ^ 32 ∧ kernels.1 < 2 ^ 32 ∧ kernels.2 < 2 ^ 32
  | matmul precision m k n _, .matmul shape =>
    wirePrecision shape.precision = some precision ∧ m = shape.m ∧ k = shape.k ∧ n = shape.n ∧
      shape.k < 2 ^ 32 ∧ shape.n < 2 ^ 32
  | _, _ => False

theorem SameCoefficients.describes {desc desc' : PackDesc} {u : ResolvedShape}
    (h : desc.SameCoefficients desc') (hu : desc.Describes u) : desc'.Describes u := by
  cases desc with
  | conv precision dims depthwise weightZeroPoint =>
    cases desc' with
    | conv precision' dims' depthwise' weightZeroPoint' =>
      obtain ⟨rfl, rfl, rfl, rfl⟩ := h
      exact hu
    | matmul precision' m k n weightZeroPoint' => exact h.elim
  | matmul precision m k n weightZeroPoint =>
    cases desc' with
    | conv precision' dims' depthwise' weightZeroPoint' => exact h.elim
    | matmul precision' m' k' n' weightZeroPoint' =>
      obtain ⟨rfl, rfl, rfl, rfl⟩ := h
      cases u <;> exact hu

theorem sameCoefficients_refl (desc : PackDesc) : desc.SameCoefficients desc := by
  cases desc
  · exact ⟨rfl, rfl, rfl, rfl⟩
  · exact ⟨rfl, rfl, rfl, rfl⟩

/-- The rung a descriptor's code gives and the decoded one store elements of the same width. -/
theorem precision_elementBits {what : String} {code : Nat} {quantization : Quantization}
    {rung decoded : Precision} (hrung : precision what code (.ok quantization) = .ok rung)
    (hwire : wirePrecision decoded = some code) : rung.elementBits = decoded.elementBits := by
  cases decoded <;> simp only [wirePrecision, Option.some.injEq, reduceCtorEq] at hwire <;>
    subst hwire <;> obtain rfl := Except.ok.inj hrung <;> rfl

theorem precision_zeroPoint {what : String} {code : Nat} {weightZeroPoint : Int}
    {rung decoded : Precision}
    (hrung : precision what code (.ok (unitQuantization weightZeroPoint)) = .ok rung)
    (hwire : wirePrecision decoded = some code)
    (hzero : ∀ q, decoded.quantization = some q → q.weightZeroPoint = weightZeroPoint) :
    WeightPlan.zeroPoint rung = WeightPlan.zeroPoint decoded := by
  cases decoded with
  | fp16 =>
    obtain rfl := Option.some.inj hwire
    obtain rfl := Except.ok.inj hrung
    rfl
  | int8 q | int8Accumulator q =>
    obtain rfl := Option.some.inj hwire
    obtain rfl := Except.ok.inj hrung
    rw [← hzero q rfl]
    rfl
  | _ => cases hwire

/-- **The two plans pack alike.** -/
theorem Describes.samePacking {desc : PackDesc} {u : ResolvedShape} {plan plan' : WeightPlan}
    (h : desc.Describes u) (hplan : desc.weightPlan = .ok plan)
    (hplan' : u.weightPlan = some (.ok plan')) : SamePacking plan plan' := by
  cases desc with
  | conv code dims depthwise weightZeroPoint =>
    cases u with
    | conv2d shape kernels epilogueAdd =>
      obtain ⟨hwire, rfl, rfl, hzero, hin, hout, hkh, hkw⟩ := h
      obtain rfl := Except.ok.inj (Option.some.inj hplan')
      have hplanned := convWeightPlan_ok hplan
      have hrung := hplanned.precision
      have hkernels := hplanned.kernels
      have hinput := hplanned.inChannels
      have houtput := hplanned.outChannels
      simp only [convRequest, convDesc, dimsOf] at hrung hkernels hinput houtput
      rw [toU64_natCast (by omega), toU64_natCast (by omega)] at hkernels
      rw [toU64_natCast (by omega)] at hinput houtput
      exact {
        kernels := hkernels
        inChannels := hinput
        outChannels := houtput
        depthwise := hplanned.depthwise
        zeroPoint := hplanned.zeroPoint.trans (precision_zeroPoint hrung hwire hzero)
        elementBits := precision_elementBits hrung hwire }
    | _ => exact h.elim
  | matmul code m k n weightZeroPoint =>
    cases u with
    | matmul shape =>
      obtain ⟨hwire, rfl, rfl, rfl, hk, hn⟩ := h
      obtain ⟨rung, hrung, hplanned⟩ := matmulWeightPlan_ok hplan
      have hruntime := forMatmul_ok (Option.some.inj hplan')
      have hinput := hplanned.inChannels
      have houtput := hplanned.outChannels
      simp only [matmulRequest] at hrung hinput houtput
      rw [toU64_natCast (by omega)] at hinput houtput
      exact {
        kernels := hplanned.kernels.trans hruntime.kernels.symm
        inChannels := hinput.trans hruntime.inChannels.symm
        outChannels := houtput.trans hruntime.outChannels.symm
        depthwise := hplanned.depthwise.trans hruntime.depthwise.symm
        zeroPoint := hplanned.zeroPoint.trans hruntime.zeroPoint.symm
        elementBits := by
          rw [hplanned.precision, hruntime.precision]
          exact precision_elementBits hrung hwire }
    | _ => exact h.elim

end PackDesc

/-! ### The descriptor of a dispatch -/

/-- A request describes the dispatch the driver resolves from the same dimension values. -/
theorem readRequest_describes {m : Module} {config : Config} {dispatch : Dispatch}
    {request : PackRequest} {u : ResolvedShape} {kernel : String}
    (h : readRequest m config dispatch = some request)
    (hkernel : config.stringAttr "kernel" = some kernel)
    (hagrees : Agrees kernel config (m.dimension config dispatch.arguments) u)
    (hzero : ZeroPointAgrees config u) : request.desc.Describes u := by
  unfold readRequest at h
  simp only [Option.bind_eq_bind, Option.bind_eq_some_iff, hkernel, Option.some.injEq] at h
  obtain ⟨_, rfl, code, hcode, -, -, desc, hdesc, hrequest⟩ := h
  obtain rfl := Option.some.inj hrequest
  unfold readDesc at hdesc
  dsimp only at hdesc ⊢
  cases u with
  | conv2d shape kernels epilogueAdd =>
    obtain ⟨rfl, hprecision, hdepthwise, -, hdims, -⟩ := hagrees
    simp only [dimsAgree_cons, dimsAgree_nil, and_true] at hdims
    obtain ⟨⟨hw, -⟩, ⟨hh, -⟩, ⟨hcin, hin⟩, ⟨hcout, hout⟩, ⟨hkw, hkw_lt⟩, ⟨hkh, hkh_lt⟩, hs, -⟩ := hdims
    have hconv : convDims (m.dimension config dispatch.arguments) = some (dimsOf shape kernels) := by
      unfold convDims
      rw [hw, hh, hcin, hcout, hkw, hkh, hs]
      rfl
    rw [if_neg (by decide), if_pos rfl, hconv] at hdesc
    obtain rfl := Option.some.inj hdesc
    exact ⟨hprecision.trans hcode, rfl, hdepthwise, fun q hq => hzero _ q rfl hq, hin, hout, hkh_lt,
      hkw_lt⟩
  | matmul shape =>
    obtain ⟨rfl, hprecision, -, hdims⟩ := hagrees
    simp only [dimsAgree_cons, dimsAgree_nil, and_true] at hdims
    obtain ⟨⟨hm, -⟩, ⟨hk, hk_lt⟩, hn, hn_lt⟩ := hdims
    rw [if_pos rfl, hm, hk, hn] at hdesc
    obtain rfl := Option.some.inj hdesc
    exact ⟨hprecision.trans hcode, rfl, rfl, rfl, hk_lt, hn_lt⟩
  | pooling shape =>
    obtain ⟨rfl, -⟩ := hagrees
    rw [if_neg (by decide), if_neg (by decide)] at hdesc
    cases hdesc
  | elementwiseBinary shape =>
    obtain ⟨rfl, -⟩ := hagrees
    rw [if_neg (by decide), if_neg (by decide)] at hdesc
    cases hdesc
  | elementwiseUnary shape =>
    obtain rfl : kernel = "elementwise_unary" := hagrees
    rw [if_neg (by decide), if_neg (by decide)] at hdesc
    cases hdesc
  | elementwiseLut shape =>
    obtain rfl : kernel = "elementwise_lut" := hagrees
    rw [if_neg (by decide), if_neg (by decide)] at hdesc
    cases hdesc

/-- An accepted dispatch that a request describes has a plan, of a padding that programs its kernel. -/
theorem PackDesc.Describes.planned {desc : PackDesc} {u : ResolvedShape} (h : desc.Describes u)
    (haccepted : u.Accepted) : ∃ plan, u.weightPlan = some (.ok plan) ∧
      ∃ kernel, plan.shape.tryKernelProgramming plan.kernels = .ok kernel := by
  cases u with
  | conv2d shape kernels epilogueAdd => exact ⟨_, rfl, ResolvedShape.validated_program haccepted⟩
  | matmul shape =>
    obtain ⟨conv, hconv, hvalid⟩ := haccepted
    have hplan : WeightPlan.forMatmul policy shape =
        .ok { shape := conv, kernels := Fc.kernels, weightZeroPoint := none } := by
      unfold WeightPlan.forMatmul
      rw [hconv]
      rfl
    exact ⟨_, congrArg some hplan, ResolvedShape.validated_program hvalid⟩
  | _ => cases desc <;> exact h.elim

theorem le_paddedInputChannels {cin cout elementBits : Nat} {layout : WeightLayout}
    (h : WeightLayout.new cin cout elementBits = .ok layout) :
    cin ≤ layout.paddedInputChannels ∧ cout ≤ layout.programmedOutputChannels := by
  unfold WeightLayout.new at h
  simp only [bind_ok, unlessErr_ok, pure_ok, exists_const] at h
  obtain ⟨⟨-, -, hbits⟩, rfl⟩ := h
  simp only [List.mem_cons, List.not_mem_nil, or_false] at hbits
  have hatom : 0 < featureAtomBytes * 8 / elementBits := by
    rcases hbits with rfl | rfl | rfl | rfl <;> decide
  have hatoms := le_ceilDiv_mul cin hatom
  constructor
  · refine hatoms.trans (Nat.mul_le_mul_right _ ?_)
    split_ifs <;> omega
  · dsimp only
    split_ifs
    · exact le_nextMultipleOf cout (by decide)
    · exact le_rfl

/-- A packed filter is no shorter than the dense one. -/
theorem dense_le_storage {cin cout elementSize length : Nat}
    (h : rocketWeightStorageSize 1 1 cin cout elementSize = .ok length) :
    cin * cout * elementSize ≤ length := by
  obtain ⟨layout, hlayout⟩ := layout_of_size h
  obtain ⟨hcin, hcout⟩ := le_paddedInputChannels hlayout
  unfold rocketWeightStorageSize rocketWeightStorageSizeBits at h
  simp only [bind_ok, unlessErr_ok, okOr_ok, pure_ok, exists_const, hlayout, Except.ok.injEq,
    exists_eq_left'] at h
  obtain ⟨-, -, bits, hbits, rfl⟩ := h
  have htotal := checkedProduct_some hbits
  simp only [List.prod_cons, List.prod_nil, Nat.mul_one, Nat.one_mul] at htotal
  have hbytes : bits = layout.paddedInputChannels * layout.programmedOutputChannels * elementSize * 8 := by
    rw [htotal]
    ring
  rw [hbytes, Nat.mul_div_cancel _ (by decide)]
  exact Nat.mul_le_mul_right _ (Nat.mul_le_mul hcin hcout)

/-- The length of the packed bytes passes the driver's checks. -/
theorem acceptsPacked_of_packedBytes {u : ResolvedShape} {plan : WeightPlan} {length : Nat}
    (hplan : u.weightPlan = some (.ok plan)) (hpacked : plan.packedBytes = .ok length) :
    u.acceptsPacked length = true := by
  cases u with
  | conv2d shape kernels epilogueAdd =>
    obtain rfl := Except.ok.inj (Option.some.inj hplan)
    simp only [ResolvedShape.acceptsPacked, hpacked, decide_eq_true_eq]
    exact le_rfl
  | matmul shape =>
    have hplanned := forMatmul_ok (Option.some.inj hplan)
    have hsize : rocketWeightStorageSize 1 1 shape.k shape.n shape.precision.elementBytes =
        .ok length := by
      have hdense : ¬ plan.shape.depthwise = true := by
        rw [hplanned.depthwise]
        exact Bool.false_ne_true
      unfold WeightPlan.packedBytes at hpacked
      rw [if_neg hdense] at hpacked
      simp only [bind_ok, invalidShape_ok] at hpacked
      obtain ⟨programmed, hprogrammed, elementBytes, helement, hsize⟩ := hpacked
      obtain rfl := Except.ok.inj hprogrammed
      rw [WeightPlan.elementBytes_eq helement, hplanned.kernels, hplanned.inChannels,
        hplanned.outChannels, hplanned.precision] at hsize
      exact hsize
    simp only [ResolvedShape.acceptsPacked, hsize, Bool.and_eq_true, decide_eq_true_eq]
    exact ⟨dense_le_storage hsize, le_rfl⟩
  | _ => cases hplan

/-- **What the pass packs for a request, the driver would have packed for the dispatch.** -/
theorem PackDesc.Describes.packsTo {desc : PackDesc} {u : ResolvedShape} {dense packed : Bytes}
    (h : desc.Describes u) (haccepted : u.Accepted) (hpack : desc.pack dense = some packed) :
    u.PacksTo dense packed := by
  obtain ⟨plan, hplan, hpacked, hall⟩ := PackDesc.pack_some hpack
  obtain ⟨plan', hplan', hprogram⟩ := h.planned haccepted
  have hsame := h.samePacking hplan hplan'
  have hpacked' := hsame.packedBytes hpacked hprogram
  refine ⟨acceptsPacked_of_packedBytes hplan' hpacked', plan', hplan', hpacked', fun scratch hscratch => ?_⟩
  exact hsame.pack hpacked' hscratch.ge (hall scratch hscratch)

/-! ### The whole pass -/

namespace Module

variable {m : Module} {f : Filters}

/-- Every packed global holds what its key says. -/
def PackedOf (m : Module) (f : Filters) (packedGlobals : List (String × Bytes)) : Prop :=
  ∀ key packed, (key, packed) ∈ packedGlobals → ∃ op request name initial dense,
    m.candidate f op = some (request, name, initial) ∧ key = globalKey name request.desc ∧
      rawBytes initial = some dense ∧ request.desc.pack dense = some packed

/-- A dispatch is pointed at its own filter, packed for a request with the same coefficients. -/
def PointedAt (m : Module) (f : Filters) (op : Nat) (packed : Bytes) : Prop :=
  ∃ request name initial dense desc, m.candidate f op = some (request, name, initial) ∧
    rawBytes initial = some dense ∧ request.desc.SameCoefficients desc ∧ desc.pack dense = some packed

theorem candidate_some {op : Nat} {request : PackRequest} {name : String} {initial : InitialValue}
    (h : m.candidate f op = some (request, name, initial)) :
    (∃ dispatch target, m.ops[op]? = some (.dispatch dispatch) ∧ dispatch.target = some target ∧
      readRequest m target.config dispatch = some request) ∧
    ∃ found, (f.globals.find? fun global => global.name = name) = some found ∧
      found.initial = some initial := by
  unfold candidate at h
  split at h
  · rename_i dispatch hop
    simp only [Option.bind_eq_bind, Option.bind_eq_some_iff] at h
    obtain ⟨target, htarget, -, -, request', hrequest, ⟨name', initial'⟩, hfilter, h⟩ := h
    obtain ⟨rfl, rfl, rfl⟩ : request' = request ∧ name' = name ∧ initial' = initial := by
      simpa using h
    unfold filterOf at hfilter
    simp only [Option.bind_eq_bind, Option.bind_eq_some_iff] at hfilter
    obtain ⟨weights, -, loaded, -, found, hfound, -, -, initial'', hinitial, bits, -, -, -, h⟩ := hfilter
    obtain ⟨rfl, rfl⟩ := Prod.mk.inj (Option.some.inj h)
    have hname : found.name = loaded := by simpa using List.find?_some hfound
    exact ⟨⟨dispatch, target, hop, htarget, hrequest⟩, found, by rw [hname]; exact hfound, hinitial⟩
  · cases h

/-- One global, one initial value. -/
theorem candidate_initial {op op' : Nat} {request request' : PackRequest} {name : String}
    {initial initial' : InitialValue} (h : m.candidate f op = some (request, name, initial))
    (h' : m.candidate f op' = some (request', name, initial')) : initial = initial' := by
  obtain ⟨-, found, hfound, hinitial⟩ := candidate_some h
  obtain ⟨-, found', hfound', hinitial'⟩ := candidate_some h'
  obtain rfl := Option.some.inj (hfound.symm.trans hfound')
  exact Option.some.inj (hinitial.symm.trans hinitial')

/-- One dispatch keeps the packed globals, and is pointed at one of them. -/
theorem packDispatch_pointed {packedGlobals : List (String × Bytes)}
    (h : m.PackedOf f packedGlobals) (op : Nat) :
    m.PackedOf f (m.packDispatch f packedGlobals op).1 ∧
      ∀ packed, (m.packDispatch f packedGlobals op).2 = some packed → m.PointedAt f op packed := by
  unfold packDispatch
  cases hcandidate : m.candidate f op with
  | none => exact ⟨h, fun _ hnone => nomatch hnone⟩
  | some found =>
    obtain ⟨request, name, initial⟩ := found
    dsimp only
    cases hlookup : packedGlobals.lookup (globalKey name request.desc) with
    | some packed =>
      refine ⟨h, fun packed' heq => ?_⟩
      obtain rfl := Option.some.inj heq
      obtain ⟨front, rest, rfl, -⟩ := List.lookup_eq_some_iff.mp hlookup
      obtain ⟨op', request', name', initial', dense, hcandidate', hkey, hdense, hpack⟩ :=
        h _ _ (List.mem_append_right _ List.mem_cons_self)
      obtain ⟨rfl, hsame⟩ := PackDesc.globalKey_inj hkey
      obtain rfl := candidate_initial hcandidate hcandidate'
      exact ⟨request, name, initial, dense, request'.desc, hcandidate, hdense, hsame, hpack⟩
    | none =>
      cases hpacked : (rawBytes initial).bind request.desc.pack with
      | none => exact ⟨h, fun _ hnone => nomatch hnone⟩
      | some packed =>
        obtain ⟨dense, hdense, hpack⟩ := Option.bind_eq_some_iff.mp hpacked
        refine ⟨fun key packed' hmem => ?_, fun packed' heq => ?_⟩
        · rcases List.mem_cons.mp hmem with heq | hmem
          · obtain ⟨rfl, rfl⟩ := Prod.mk.inj heq
            exact ⟨op, request, name, initial, dense, hcandidate, rfl, hdense, hpack⟩
          · exact h key packed' hmem
        · obtain rfl := Option.some.inj heq
          exact ⟨request, name, initial, dense, request.desc, hcandidate, hdense,
            request.desc.sameCoefficients_refl, hpack⟩

/-- Every dispatch of a run is. -/
theorem packFrom_pointed (ops : List Nat) {packedGlobals : List (String × Bytes)}
    (h : m.PackedOf f packedGlobals) {op : Nat} {packed : Bytes}
    (hmem : (op, packed) ∈ m.packFrom f packedGlobals ops) : m.PointedAt f op packed := by
  induction ops generalizing packedGlobals with
  | nil => cases hmem
  | cons first rest ih =>
    obtain ⟨hkept, hpointed⟩ := packDispatch_pointed h first
    unfold packFrom at hmem
    cases hstep : m.packDispatch f packedGlobals first with
    | mk packedGlobals' result =>
      rw [hstep] at hkept hpointed hmem
      cases result with
      | none => exact ih hkept hmem
      | some bytes =>
        rcases List.mem_cons.mp hmem with heq | hmem
        · obtain ⟨rfl, rfl⟩ := Prod.mk.inj heq
          exact hpointed _ rfl
        · exact ih hkept hmem

/-- **Compile-time packing is run-time packing.** A rewritten dispatch is pointed at the bytes its
`WeightPlan` packs its global's bytes to, for the shape the driver resolves and accepts, and their length
passes the driver's checks. At the boundary a call fills the length it reports and nothing else, or
refuses and writes nothing. -/
theorem packWeights_agrees (m : Module) (f : Filters) :
    (∀ op packed, (op, packed) ∈ m.packWeights f → ∃ dispatch target request name initial dense,
      m.ops[op]? = some (.dispatch dispatch) ∧ dispatch.target = some target ∧
        m.candidate f op = some (request, name, initial) ∧ rawBytes initial = some dense ∧
        ∀ kernel u, target.config.stringAttr "kernel" = some kernel →
          Agrees kernel target.config (m.dimension target.config dispatch.arguments) u →
          ZeroPointAgrees target.config u → u.Accepted → u.PacksTo dense packed) ∧
    (∀ (desc : ConvDesc) (dense : Option Bytes) (destination : Bytes),
      (rocketPackConvWeights desc dense (some destination)).Clean destination) ∧
    ∀ (desc : MatmulDesc) (dense : Option Bytes) (destination : Bytes),
      (rocketPackMatmulWeights desc dense (some destination)).Clean destination := by
  refine ⟨fun op packed hmem => ?_, rocketPackConvWeights_clean, rocketPackMatmulWeights_clean⟩
  have hempty : m.PackedOf f [] := fun _ _ h => nomatch h
  obtain ⟨request, name, initial, dense, desc, hcandidate, hdense, hsame, hpack⟩ :=
    packFrom_pointed _ hempty hmem
  obtain ⟨⟨dispatch, target, hop, htarget, hrequest⟩, -⟩ := candidate_some hcandidate
  refine ⟨dispatch, target, request, name, initial, dense, hop, htarget, hcandidate, hdense, ?_⟩
  intro kernel u hkernel hagrees hzero haccepted
  have hdescribes := readRequest_describes hrequest hkernel hagrees hzero
  exact (hsame.describes hdescribes).packsTo haccepted hpack

/-! ### Two matmuls of one splat filter -/

/-- A `[1, 2] x [2, 2]` fp16 matmul. -/
def matmulTarget : Target where
  executable := "matmul"
  config := [("kernel", .string "matmul"), ("precision", .string "fp16"), ("m", .integer 1),
    ("k", .integer 2), ("n", .integer 2)]

def matmulDispatch : Dispatch where
  target := some matmulTarget
  workload := []
  arguments := [.argument 0, .result 0 0, .argument 1, .argument 2]
  others := []
  tied := []
  results := 1

/-- A load of the filter, and two matmuls that read it. -/
def twoMatmuls : Module where
  ops := [.other [], .dispatch matmulDispatch, .dispatch matmulDispatch]
  isI32 := fun _ => false
  dominance := by
    intro o source dims h
    rcases o with _ | _ | _ | o <;> simp at h

/-- Four ones. -/
def onesFilter : Filters where
  isReshape := fun _ => false
  load := fun value => if value = .result 0 0 then some "filter" else none
  globals := [{ name := "filter", isMutable := false, initial := some (.splat [0, 60] 4) }]
  elementBits := fun _ => some 16

def packedOnes : Bytes :=
  [0, 60, 0, 60] ++ List.replicate 12 0 ++ [0, 60, 0, 60] ++ List.replicate 12 0

theorem twoMatmuls_packed : (2, packedOnes) ∈ twoMatmuls.packWeights onesFilter := by decide +kernel

def onesShape : Fc.Shape := { m := 1, k := 2, n := 2, precision := .fp16, activation := .none }

theorem onesShape_accepted : (ResolvedShape.matmul onesShape).Accepted :=
  ⟨asConvShape onesShape, by decide, by decide⟩

/-- The second matmul is pointed at the filter packed for the first. -/
theorem twoMatmuls_agree :
    (ResolvedShape.matmul onesShape).PacksTo [0, 60, 0, 60, 0, 60, 0, 60] packedOnes := by
  obtain ⟨dispatch, target, request, name, initial, dense, hop, htarget, hcandidate, hdense, h⟩ :=
    (packWeights_agrees twoMatmuls onesFilter).1 2 packedOnes twoMatmuls_packed
  have hdispatch : some (Op.dispatch matmulDispatch) = some (.dispatch dispatch) := hop
  rw [Option.some.injEq, Op.dispatch.injEq] at hdispatch
  subst hdispatch
  have hconfig : some matmulTarget = some target := htarget
  rw [Option.some.injEq] at hconfig
  subst hconfig
  have hinitial : (twoMatmuls.candidate onesFilter 2).map (fun found => found.2.2) =
      some (.splat [0, 60] 4) := by decide
  rw [hcandidate, Option.map_some, Option.some.injEq] at hinitial
  subst hinitial
  have hsplat : some [0, 60, 0, 60, 0, 60, 0, 60] = some dense := hdense
  rw [Option.some.injEq] at hsplat
  subst hsplat
  apply h "matmul" (.matmul onesShape) rfl
  · refine ⟨rfl, rfl, rfl, ?_⟩
    simp only [dimsAgree_cons, dimsAgree_nil, and_true]
    exact ⟨⟨rfl, by decide⟩, ⟨rfl, by decide⟩, rfl, by decide⟩
  · intro precision q hprecision hq
    obtain rfl := Option.some.inj hprecision
    cases hq
  · exact onesShape_accepted

end Module

end IreeRocket.Plugin
