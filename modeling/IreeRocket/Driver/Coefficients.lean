import IreeRocket.Core.PlanSpec
import IreeRocket.Driver.WeightCache

/-!
# The geometry a dispatch caches its coefficients under

The convolution and matmul arms of `dispatch` compute a cache geometry and a weight plan from the
same shape. `packs_iff` says that the geometry alone decides the packed bytes: whatever shape it was
computed from, and whatever the destination held before, the plan's packer leaves
`Geometry.packing`.
-/

namespace IreeRocket.Driver

open Conv Weights WeightCache

/-- The default channel policy: neither probing override is set. -/
def policy : PlanningPolicy := .default

/-- The coefficients of a convolution or a matmul dispatch. -/
inductive Coefficients
  | conv (shape : Shape) (kernels : Kernels) (built : shape.Built policy)
  | matmul (shape : Fc.Shape)

namespace Coefficients

/-- `scratch_bytes` of the convolution arm's two branches. -/
def convScratchBytes (shape : Shape) (kernels : Kernels) (elementSize : Nat) : Option Nat :=
  if shape.depthwise then some (shape.weightBytes kernels)
  else (rocketWeightStorageSize kernels.1 kernels.2 shape.inChannels shape.outChannels
    elementSize).toOption

/-- What the convolution arm stages a logical filter of `length` bytes under. `element_bytes` asserts
a whole number of bytes. -/
def convGeometry (shape : Shape) (kernels : Kernels) (length : Nat) : Option Geometry := do
  let elementSize := shape.precision.elementBytes
  guard (shape.precision.elementBits % 8 = 0)
  let dense ← checkedProduct kernels.1 ([kernels.2, shape.inChannels] ++
    (if shape.depthwise then [] else [shape.outChannels]) ++ [elementSize])
  guard (dense ≤ length)
  let scratchLength ← convScratchBytes shape kernels elementSize
  some {
    filterHeight := kernels.1
    filterWidth := kernels.2
    inputChannels := shape.inChannels
    outputChannels := shape.outChannels
    programmedOutputChannels := shape.outChannels
    elementSize
    depthwise := shape.depthwise
    paddedChannels := if shape.depthwise then shape.depthwisePaddedChannels else 0
    weightZeroPoint := WeightPlan.zeroPoint shape.precision
    scratchLength }

/-- What the matmul arm stages a `[K, N]` operand of `length` bytes under. -/
def matmulGeometry (shape : Fc.Shape) (length : Nat) : Option Geometry := do
  let elementSize := shape.precision.elementBytes
  guard (shape.precision.elementBits % 8 = 0)
  let dense ← checkedProduct shape.k [shape.n, elementSize]
  guard (dense ≤ length)
  let scratchLength ←
    (rocketWeightStorageSize 1 1 shape.k shape.n elementSize).toOption
  guard (scratchLength < 2 ^ 32)
  some {
    filterHeight := 1
    filterWidth := 1
    inputChannels := shape.k
    outputChannels := shape.n
    programmedOutputChannels := shape.n
    elementSize
    depthwise := false
    paddedChannels := 0
    weightZeroPoint := none
    scratchLength }

def geometry (length : Nat) : Coefficients → Option Geometry
  | conv shape kernels _ => convGeometry shape kernels length
  | matmul shape => matmulGeometry shape length

/-- The plan the coefficients are packed with. -/
def weightPlan : Coefficients → Planner WeightPlan
  | conv shape kernels _ => .ok (.forConv shape kernels)
  | matmul shape => WeightPlan.forMatmul policy shape

/-- The plan the executable is trial-planned with before anything is recorded. -/
def convPlan : Coefficients → Planner ConvPlan
  | conv shape kernels _ => ConvPlan.tryNew policy shape kernels
  | matmul shape => Fc.Plan.conv <$> Fc.Plan.tryNew policy shape

end Coefficients

/-! ### The packing a geometry determines -/

/-- Bytes of the logical filter. -/
def denseBytes (g : Geometry) : Nat :=
  g.filterHeight * g.filterWidth * g.inputChannels *
    (if g.depthwise then 1 else g.outputChannels) * g.elementSize

/-- The packed coefficients of a filter under a cache geometry, in a fresh buffer. -/
def packing (g : Geometry) (dense : Bytes) : Option Bytes :=
  if dense.length = denseBytes g then
    let fresh := List.replicate g.scratchLength 0
    let result :=
      if g.depthwise then
        packDepthwiseToRocketWeights dense g.filterHeight g.filterWidth g.inputChannels
          g.paddedChannels g.elementSize fresh
      else
        match g.weightZeroPoint with
        | some zeroPoint =>
          packHwcfToRocketWeightsAffineI8 dense g.filterHeight g.filterWidth g.inputChannels
            g.outputChannels (List.replicate g.outputChannels zeroPoint) fresh
        | none =>
          packHwcfToRocketWeights dense g.filterHeight g.filterWidth g.inputChannels
            g.outputChannels g.elementSize fresh
    result.toOption.map Prod.snd
  else none

/-- The geometry carries everything the plan's packer reads. -/
structure Describes (g : Geometry) (plan : WeightPlan) : Prop where
  kernels : plan.kernels = (g.filterHeight, g.filterWidth)
  inChannels : plan.shape.inChannels = g.inputChannels
  outChannels : plan.shape.outChannels = g.outputChannels
  depthwise : plan.shape.depthwise = g.depthwise
  zeroPoint : plan.weightZeroPoint = g.weightZeroPoint
  padded : g.depthwise → plan.shape.depthwisePaddedChannels = g.paddedChannels
  elementBytes : plan.elementBytes = .ok g.elementSize
  denseBytes_eq : plan.denseBytes = .ok (denseBytes g)
  packedBytes_eq : plan.packedBytes = .ok g.scratchLength
  affine : g.weightZeroPoint ≠ none → g.elementSize = 1
  depthwise_size : g.depthwise →
    checkedProduct g.filterHeight [g.filterWidth, g.paddedChannels, g.elementSize] =
      some g.scratchLength
  dense_size : g.depthwise = false →
    rocketWeightStorageSize g.filterHeight g.filterWidth g.inputChannels g.outputChannels
      g.elementSize = .ok g.scratchLength

/-- The selected packer reads the plan through the geometry. -/
theorem Describes.select_eq {g : Geometry} {plan : WeightPlan} (h : Describes g plan)
    (dense : Bytes) {packed : Bytes} (hlength : packed.length = g.scratchLength) :
    plan.select plan.shape.outChannels g.elementSize dense packed =
      if g.depthwise then
        packDepthwiseToRocketWeights dense g.filterHeight g.filterWidth g.inputChannels
          g.paddedChannels g.elementSize (List.replicate g.scratchLength 0)
      else
        match g.weightZeroPoint with
        | some zeroPoint =>
          packHwcfToRocketWeightsAffineI8 dense g.filterHeight g.filterWidth g.inputChannels
            g.outputChannels (List.replicate g.outputChannels zeroPoint)
            (List.replicate g.scratchLength 0)
        | none =>
          packHwcfToRocketWeights dense g.filterHeight g.filterWidth g.inputChannels
            g.outputChannels g.elementSize (List.replicate g.scratchLength 0) := by
  unfold WeightPlan.select
  simp only [h.kernels, h.inChannels, h.outChannels, h.depthwise, h.zeroPoint, lt_irrefl,
    if_false]
  split_ifs with hdepthwise
  · rw [h.padded hdepthwise, packDepthwise_eq_fresh (by rw [hlength]; exact h.depthwise_size hdepthwise),
      hlength]
  · have hsize := h.dense_size (by simpa using hdepthwise)
    cases hzero : g.weightZeroPoint with
    | some zeroPoint =>
      have helement := h.affine (by simp [hzero])
      rw [helement] at hsize
      simp only [packHwcfToRocketWeightsAffineI8]
      rw [packHwcf_eq_fresh (by rw [hlength]; exact hsize), hlength]
    | none =>
      simp only [packHwcfToRocketWeights]
      rw [packHwcf_eq_fresh (by rw [hlength]; exact hsize), hlength]

/-- The plan packs what its geometry determines, whatever the destination held. -/
theorem Describes.packs_iff {g : Geometry} {plan : WeightPlan} (h : Describes g plan)
    {dense packed out : Bytes} (hlength : packed.length = g.scratchLength) :
    (∃ count, plan.pack dense packed = .ok (count, out)) ↔ packing g dense = some out := by
  have hselect := h.select_eq dense hlength
  unfold packing
  simp only [← hselect]
  constructor
  · rintro ⟨count, hpack⟩
    obtain ⟨packedLen, elementBytes, hdense, -, -, helement, hresult⟩ := WeightPlan.pack_ok.mp hpack
    obtain rfl := Except.ok.inj (h.elementBytes.symm.trans helement)
    have hlen := Except.ok.inj (h.denseBytes_eq.symm.trans hdense)
    rw [if_pos hlen.symm, hresult]
    rfl
  · intro hpacking
    split_ifs at hpacking with hlen
    obtain ⟨⟨count, bytes⟩, hresult, rfl⟩ := Option.map_eq_some_iff.mp hpacking
    refine ⟨count, WeightPlan.pack_ok.mpr ⟨g.scratchLength, g.elementSize, ?_, h.packedBytes_eq,
      hlength.ge, h.elementBytes, ?_⟩⟩
    · rw [hlen]
      exact h.denseBytes_eq
    · revert hresult
      cases plan.select plan.shape.outChannels g.elementSize dense packed with
      | error reason => intro hresult; cases hresult
      | ok result => intro hresult; rw [Option.some.inj hresult]

theorem toOption_some {ε α : Type} {x : Except ε α} {a : α} : x.toOption = some a ↔ x = .ok a := by
  cases x <;> simp [Except.toOption]

/-- A packing fills its buffer. -/
theorem length_packing {g : Geometry} {dense out : Bytes} (h : packing g dense = some out) :
    out.length = g.scratchLength := by
  unfold packing at h
  split_ifs at h with hlength hdepthwise
  · obtain ⟨result, hresult, rfl⟩ := Option.map_eq_some_iff.mp h
    rw [length_packDepthwise (toOption_some.mp hresult), List.length_replicate]
  · obtain ⟨result, hresult, rfl⟩ := Option.map_eq_some_iff.mp h
    have hresult := toOption_some.mp hresult
    split at hresult
    · simp only [packHwcfToRocketWeightsAffineI8, bind_ok, unlessErr_ok, exists_const] at hresult
      rw [length_packHwcf hresult.2, List.length_replicate]
    · rw [length_packHwcf hresult, List.length_replicate]

/-! ### The arms compute such geometries -/

theorem guard_some {p : Prop} [Decidable p] {u : Unit} : (guard p : Option Unit) = some u ↔ p := by
  unfold guard
  split_ifs with h <;> simp [h]

/-- A depthwise shape's padded channels are few. -/
theorem depthwise_channels_lt {s : Shape} (hs : s.WellFormed policy) (hdepthwise : s.depthwise) :
    s.cbufAtoms * s.precision.channelsPerAtom < 2000 := by
  have hbacked := (hs.depthwise_backed hdepthwise).resolve_right (by decide)
  have hbits := (hs.depthwise_precision hdepthwise).1
  have hmul := s.precision.channelsPerAtom_mul_elementBits
  have hround := ceilDiv_mul_lt s.inChannels s.precision.channelsPerAtom_pos
  have hquad := quadAtoms_le s.featureAtoms
  have hcpa : s.precision.channelsPerAtom ≤ 16 := by
    rcases hbits with h | h <;> rw [h] at hmul <;> omega
  have hfeature : s.featureAtoms * s.precision.channelsPerAtom ≤
      s.inChannels + s.precision.channelsPerAtom := by
    unfold Shape.featureAtoms
    rcases le_total (s.inChannels ⌈/⌉ s.precision.channelsPerAtom) 1 with h | h
    · rw [max_eq_right h]
      omega
    · rw [max_eq_left h]
      exact hround.le
  have hstep : s.cbufAtoms * s.precision.channelsPerAtom ≤
      (s.featureAtoms + 1) * s.precision.channelsPerAtom := Nat.mul_le_mul_right _ hquad
  rw [Nat.add_mul] at hstep
  omega

/-- Depthwise coefficients: the byte count the CNA is programmed with is the packer's. -/
theorem depthwise_weightBytes {s : Shape} {kernels : Kernels} (hs : s.WellFormed policy)
    (hdepthwise : s.depthwise)
    (hk : s.tryKernelProgramming kernels = .ok (s.kernelProgramming kernels)) :
    s.tryWeightBytes kernels = .ok (s.weightBytes kernels) ∧
      checkedProduct kernels.1 [kernels.2, s.depthwisePaddedChannels, s.precision.elementBytes] =
        some (s.weightBytes kernels) := by
  have hchannels := depthwise_channels_lt hs hdepthwise
  obtain ⟨⟨hheight, hwidth⟩, -, -⟩ := tryKernelProgramming_ok.mp hk
  simp only [backed, Bool.and_eq_true, decide_eq_true_eq] at hheight hwidth
  replace hheight := hheight.2
  replace hwidth := hwidth.2
  have harea : kernels.1 * kernels.2 ≤ 11 * 11 := Nat.mul_le_mul hheight hwidth
  have hpadded : s.depthwisePaddedChannels = s.cbufAtoms * s.precision.channelsPerAtom :=
    wrap32_of_lt (by omega)
  have hbits : s.precision.elementBits = 8 * s.precision.elementBytes := by
    unfold Precision.elementBytes
    rcases (hs.depthwise_precision hdepthwise).1 with h | h <;> omega
  have helement : s.precision.elementBytes ≤ 4 := s.precision.elementBytes_le
  generalize hchannel : s.cbufAtoms * s.precision.channelsPerAtom = channels at *
  have hmul : channels * s.precision.elementBits = channels * s.precision.elementBytes * 8 := by
    rw [hbits, Nat.mul_left_comm, Nat.mul_comm]
  have hsmall : channels * s.precision.elementBytes ≤ 2000 * 4 :=
    Nat.mul_le_mul (by omega) helement
  have hbytes : s.weightBytes kernels =
      kernels.1 * kernels.2 * (channels * s.precision.elementBytes) := by
    unfold Shape.weightBytes Precision.bytesFor
    simp only [hdepthwise, if_true, kernelProgramming_height, kernelProgramming_width, hchannel]
    have htotal : kernels.1 * kernels.2 * (channels * s.precision.elementBytes) ≤
        11 * 11 * (2000 * 4) := Nat.mul_le_mul harea hsmall
    rw [wrap32_of_lt (n := channels) (by omega), hmul,
      wrap32_of_lt (n := channels * s.precision.elementBytes * 8) (by omega),
      Nat.mul_div_cancel _ (by decide), wrap32_of_lt (by omega)]
  constructor
  · unfold Shape.tryWeightBytes
    simp only [bind_ok, refuseUnless_ok, pure_ok, exists_const, hk,
      Except.ok.injEq, exists_eq_left', kernelProgramming_height, kernelProgramming_width,
      hdepthwise, if_true, hchannel]
    have hrow : channels * s.precision.elementBytes * kernels.1 ≤ 2000 * 4 * 11 :=
      Nat.mul_le_mul hsmall hheight
    have htotal : channels * s.precision.elementBytes * kernels.1 * kernels.2 ≤
        2000 * 4 * 11 * 11 := Nat.mul_le_mul hrow hwidth
    rw [hmul, wrap64_of_lt (n := channels * s.precision.elementBytes * 8) (by omega),
      Nat.mul_div_cancel _ (by decide),
      wrap64_of_lt (n := channels * s.precision.elementBytes * kernels.1) (by omega),
      wrap64_of_lt (by omega), hbytes]
    exact ⟨by omega, by rw [Nat.mul_assoc (channels * _), Nat.mul_comm]⟩
  · have hfirst : kernels.1 * kernels.2 * channels ≤ 11 * 11 * 2000 :=
      Nat.mul_le_mul harea (by omega)
    have hsecond : kernels.1 * kernels.2 * channels * s.precision.elementBytes ≤
        11 * 11 * 2000 * 4 := Nat.mul_le_mul hfirst helement
    rw [hpadded, hbytes]
    simp only [checkedProduct, checkedMul]
    rw [if_pos (by omega), Option.bind_some, if_pos (by omega), Option.bind_some,
      if_pos (by omega), Option.bind_some, Nat.mul_assoc (kernels.1 * kernels.2)]

/-- **A convolution's geometry describes its plan.** -/
theorem conv_describes {shape : Shape} {kernels : Kernels} {length : Nat} {g : Geometry}
    {plan : ConvPlan} (built : shape.Built policy)
    (hplan : ConvPlan.tryNew policy shape kernels = .ok plan)
    (hg : Coefficients.convGeometry shape kernels length = some g) :
    Describes g (.forConv shape kernels) := by
  have hk := (planned_of_tryNew hplan).kernelFits
  unfold Coefficients.convGeometry Coefficients.convScratchBytes at hg
  simp only [Option.bind_eq_bind, Option.bind_eq_some_iff, guard_some, Option.some.injEq] at hg
  obtain ⟨-, hbits, dense, hdense, -, -, scratchLength, hscratch, rfl⟩ := hg
  have htotal := checkedProduct_some hdense
  exact {
    kernels := rfl
    inChannels := rfl
    outChannels := rfl
    depthwise := rfl
    zeroPoint := rfl
    padded := fun h => by simp [WeightPlan.forConv, show shape.depthwise from h]
    elementBytes := WeightPlan.elementBytes_ok hbits
    denseBytes_eq := by
      refine (WeightPlan.denseBytes_ok hbits hdense).trans (congrArg _ ?_)
      rw [htotal]
      unfold denseBytes
      cases shape.depthwise <;> simp [Nat.mul_assoc]
    packedBytes_eq := by
      by_cases hdepthwise : shape.depthwise = true
      · rw [if_pos hdepthwise, Option.some.injEq] at hscratch
        rw [WeightPlan.packedBytes_of_depthwise hdepthwise, ← hscratch]
        exact (depthwise_weightBytes built.wellFormed hdepthwise hk.tryKernelProgramming).1
      · rw [if_neg hdepthwise] at hscratch
        exact WeightPlan.packedBytes_of_dense (Bool.eq_false_of_not_eq_true hdepthwise) hbits
          (toOption_some.mp hscratch)
    affine := elementBytes_of_zeroPoint
    depthwise_size := by
      intro hdepthwise
      rw [if_pos (show shape.depthwise = true from hdepthwise), Option.some.injEq] at hscratch
      simp only [show shape.depthwise = true from hdepthwise, if_true, ← hscratch]
      exact (depthwise_weightBytes built.wellFormed hdepthwise hk.tryKernelProgramming).2
    dense_size := by
      intro hdepthwise
      rw [if_neg (by simp [show shape.depthwise = false from hdepthwise])] at hscratch
      exact toOption_some.mp hscratch }

/-- **A matmul's geometry describes its plan.** -/
theorem matmul_describes {shape : Fc.Shape} {length : Nat} {g : Geometry} {plan : WeightPlan}
    (hplan : WeightPlan.forMatmul policy shape = .ok plan)
    (hg : Coefficients.matmulGeometry shape length = some g) : Describes g plan := by
  unfold Coefficients.matmulGeometry at hg
  simp only [Option.bind_eq_bind, Option.bind_eq_some_iff, guard_some, Option.some.injEq] at hg
  obtain ⟨-, hbits, dense, hdense, -, -, scratchLength, hscratch, -, -, rfl⟩ := hg
  unfold WeightPlan.forMatmul Fc.Shape.tryAsConvShape at hplan
  simp only [bind_ok, pure_ok] at hplan
  obtain ⟨conv, ⟨first, hfirst, second, hsecond, hconv⟩, rfl⟩ := hplan
  obtain ⟨-, -, -, hk, -, -, -, -, rfl⟩ := Shape.tryWithPrecision_ok hfirst
  obtain ⟨-, rfl⟩ := Shape.tryWithPadding_ok hsecond
  obtain ⟨-, rfl⟩ := Shape.tryWithActivation_ok hconv
  have hsize := toOption_some.mp hscratch
  have htotal := checkedProduct_some hdense
  have hk := hk.resolve_right (by decide)
  have hdense' : checkedProduct 1 ([1, shape.k] ++ [shape.n] ++ [shape.precision.elementBytes]) =
      some dense := by
    have hmul : checkedMul 1 shape.k = some shape.k := by
      unfold checkedMul
      rw [Nat.one_mul, if_pos (by omega)]
    rw [← hdense]
    simp [checkedProduct, hmul, show checkedMul 1 1 = some 1 from rfl]
  exact {
    kernels := rfl
    inChannels := rfl
    outChannels := rfl
    depthwise := rfl
    zeroPoint := rfl
    padded := fun h => absurd h (by simp)
    elementBytes := WeightPlan.elementBytes_ok hbits
    denseBytes_eq := by
      refine (WeightPlan.denseBytes_ok hbits hdense').trans (congrArg _ ?_)
      rw [htotal]
      simp [denseBytes, Nat.mul_assoc]
    packedBytes_eq := WeightPlan.packedBytes_of_dense rfl hbits hsize
    affine := fun h => absurd rfl h
    depthwise_size := fun h => absurd h (by simp)
    dense_size := fun _ => hsize }

/-- **Whatever a dispatch's coefficients are, the geometry they are cached under describes the plan
they are packed with.** -/
theorem Coefficients.describes {c : Coefficients} {length : Nat} {g : Geometry} {plan : WeightPlan}
    {conv : ConvPlan} (hconv : c.convPlan = .ok conv) (hplan : c.weightPlan = .ok plan)
    (hg : c.geometry length = some g) : Describes g plan := by
  cases c with
  | conv shape kernels built =>
    obtain rfl := Except.ok.inj hplan
    exact conv_describes built hconv hg
  | matmul shape => exact matmul_describes hplan hg

/-! ### Equal keys -/

/-- The binding a call stages. -/
structure WeightBinding where
  buffer : Nat
  offset : Nat
  length : Nat
  deriving DecidableEq

/-- The key a `stage_weights` call computes. -/
def Coefficients.key (c : Coefficients) (binding : WeightBinding) (context : Nat) : Option Key :=
  (c.geometry binding.length).map fun geometry =>
    { buffer := binding.buffer, offset := binding.offset, length := binding.length, geometry, context }

/-- **Calls with equal keys pack equally.** Two dispatches, each trial-planned before it stages anything,
that compute one key for a binding fill their scratch with the same bytes. -/
theorem equal_keys_pack_equally {c c' : Coefficients} {plan plan' : WeightPlan}
    {binding : WeightBinding} {context : Nat} {key : Key}
    (hconv : ∃ conv, c.convPlan = .ok conv) (hconv' : ∃ conv, c'.convPlan = .ok conv)
    (hplan : c.weightPlan = .ok plan) (hplan' : c'.weightPlan = .ok plan')
    (hkey : c.key binding context = some key) (hkey' : c'.key binding context = some key)
    (dense : Bytes) {packed packed' : Bytes} (hlength : packed.length = key.geometry.scratchLength)
    (hlength' : packed'.length = key.geometry.scratchLength) (out : Bytes) :
    (∃ count, plan.pack dense packed = .ok (count, out)) ↔
      ∃ count, plan'.pack dense packed' = .ok (count, out) := by
  obtain ⟨geometry, hgeometry, rfl⟩ := Option.map_eq_some_iff.mp hkey
  obtain ⟨geometry', hgeometry', hsame⟩ := Option.map_eq_some_iff.mp hkey'
  obtain rfl : geometry' = geometry := congrArg Key.geometry hsame
  obtain ⟨conv, hconv⟩ := hconv
  obtain ⟨conv', hconv'⟩ := hconv'
  have hdescribes := Coefficients.describes hconv hplan hgeometry
  have hdescribes' := Coefficients.describes hconv' hplan' hgeometry'
  rw [hdescribes.packs_iff hlength, hdescribes'.packs_iff hlength']

/-- A pointwise fp16 convolution of one pixel. -/
def pixelShape : Shape :=
  { width := 1, height := 1, stride := 1, inChannels := 8, outChannels := 1, precision := .fp16
    padding := none, activation := .none, depthwise := false }

theorem pixel_built : pixelShape.Built policy :=
  .withPrecision (by decide) (by decide) (by decide)
    (show Shape.tryWithPrecision policy 1 1 1 8 1 .fp16 = .ok pixelShape from rfl)

/-- A matmul of one row with the same coefficients. -/
def pixelMatmul : Fc.Shape := { m := 1, k := 8, n := 1, precision := .fp16, activation := .none }

/-- What it is planned as. -/
def pixelConv : Shape := { pixelShape with padding := some (0, 0) }

/-- What both are staged under, for the whole of a 16-byte buffer. -/
def pixelKey : Key :=
  { buffer := 0, offset := 0, length := 16, context := 0
    geometry :=
      { filterHeight := 1, filterWidth := 1, inputChannels := 8, outputChannels := 1
        programmedOutputChannels := 1, elementSize := 2, depthwise := false, paddedChannels := 0
        weightZeroPoint := none, scratchLength := 16 } }

theorem exists_ok_of_isSome {ε α : Type} {x : Except ε α} (h : x.toOption.isSome = true) :
    ∃ a, x = .ok a := by
  obtain ⟨a, ha⟩ := Option.isSome_iff_exists.mp h
  exact ⟨a, toOption_some.mp ha⟩

/-- The convolution and the matmul share a key and a packing. -/
theorem equal_keys_pack_equally_pixel :
    (∃ count, (WeightPlan.forConv pixelShape (1, 1)).pack (List.replicate 16 1)
        (List.replicate 16 0) = .ok (count, List.replicate 16 1)) ↔
      ∃ count, WeightPlan.pack ⟨pixelConv, Fc.kernels, none⟩ (List.replicate 16 1)
        (List.replicate 16 7) = .ok (count, List.replicate 16 1) :=
  have hconv : (Coefficients.conv pixelShape (1, 1) pixel_built).key ⟨0, 0, 16⟩ 0 = some pixelKey := by
    decide +kernel
  have hmatmul : (Coefficients.matmul pixelMatmul).key ⟨0, 0, 16⟩ 0 = some pixelKey := by decide +kernel
  equal_keys_pack_equally (exists_ok_of_isSome (by decide +kernel))
    (exists_ok_of_isSome (by decide +kernel)) rfl rfl hconv hmatmul (List.replicate 16 1) rfl rfl _

end IreeRocket.Driver
